import Mathlib.Tactic.Lemma
import PipelineSql.Sql.Render

/-!
# Quoted identifiers

Doubling the quotes inside a text loses nothing, and the number of an alias can be read off its
identifier, so different aliases never look the same in a statement.
-/

namespace PipelineSql.Sql

/-- A text with every quote in it doubled. -/
def doubled (quote : Char) (s : List Char) : List Char :=
  s.flatMap fun c => if c = quote then [c, c] else [c]

lemma doubled_injective (quote : Char) : ∀ {s t : List Char},
    doubled quote s = doubled quote t → s = t
  | [], [], _ => rfl
  | [], d :: t, h => by
    by_cases hd : d = quote <;> simp [doubled, hd] at h
  | c :: s, [], h => by
    by_cases hc : c = quote <;> simp [doubled, hc] at h
  | c :: s, d :: t, h => by
    have hcons : ∀ x l, doubled quote (x :: l) = x :: (if x = quote then [x] else []) ++
        doubled quote l := by
      intro x l
      by_cases hx : x = quote <;> simp [doubled, hx]
    rw [hcons, hcons, List.cons_append, List.cons_append, List.cons.injEq] at h
    obtain ⟨rfl, h⟩ := h
    rw [doubled_injective quote (List.append_cancel_left h)]

lemma enclose_injective {quote : Char} {s t : String} (h : enclose quote s = enclose quote t) :
    s = t := by
  unfold enclose at h
  rw [String.ofList_inj, List.append_cancel_right_eq, List.cons.injEq] at h
  exact String.toList_inj.1 (doubled_injective quote h.2)

lemma eq_of_append_separator {c : Char} {s s' t t' : List Char} (ht : c ∉ t) (ht' : c ∉ t')
    (h : s ++ c :: t = s' ++ c :: t') : s = s' ∧ t = t' := by
  rcases List.append_eq_append_iff.1 h with ⟨m, rfl, hm⟩ | ⟨m, rfl, hm⟩
  · cases m with
    | nil => simpa using hm
    | cons d m =>
      rw [List.cons_append, List.cons.injEq] at hm
      exact absurd (hm.2 ▸ List.mem_append_right m List.mem_cons_self) ht
  · cases m with
    | nil => simpa using hm.symm
    | cons d m =>
      rw [List.cons_append, List.cons.injEq] at hm
      exact absurd (hm.2 ▸ List.mem_append_right m List.mem_cons_self) ht'

/-- The digits after the last underscore are the number of an alias, and the rest is its name. -/
lemma identifier_injective {a b : TableAlias} (h : a.identifier = b.identifier) : a = b := by
  have hlists : a.name.toList ++ '_' :: Nat.toDigits 10 a.index =
      b.name.toList ++ '_' :: Nat.toDigits 10 b.index := by
    have hchars := congrArg String.toList h
    simpa [TableAlias.identifier, String.toList_append, Nat.toString_eq_repr] using hchars
  obtain ⟨hname, hindex⟩ := eq_of_append_separator Nat.underscore_not_in_toDigits
    Nat.underscore_not_in_toDigits hlists
  have hname : a.name = b.name := String.toList_inj.1 hname
  have hindex : a.index = b.index := by
    rw [← Nat.ofDigitChars_ten_toDigits (n := a.index), hindex, Nat.ofDigitChars_ten_toDigits]
  cases a
  cases b
  cases hname
  cases hindex
  rfl

end PipelineSql.Sql
