import Mathlib.Algebra.Group.Nat.Defs
import Mathlib.Data.List.TakeWhile
import Mathlib.Tactic.Lemma
import PipelineSql.Literal

/-!
# Numbers as text

A number is written as a numeral, after a minus sign if it is negative. A numeral begins with a
digit, and its only sign is the one behind the mark of an exponent.
-/

namespace PipelineSql

section Numerals

/-- What may follow in a numeral wherever it has begun. -/
def isNumeralChar (c : Char) : Bool := c.isDigit || c = '.' || c = 'e'

/-- The text of a number without its sign, read from the left. -/
inductive IsNumeral : List Char → Prop where
  | digit {d : Char} : d.isDigit = true → IsNumeral [d]
  | char {cs : List Char} {c : Char} :
      IsNumeral cs → isNumeralChar c = true → IsNumeral (cs ++ [c])
  | sign {cs : List Char} : IsNumeral (cs ++ ['e']) → IsNumeral (cs ++ ['e'] ++ ['-'])

namespace IsNumeral

lemma append {cs ds : List Char} (h : IsNumeral cs) (hds : ∀ d ∈ ds, isNumeralChar d = true) :
    IsNumeral (cs ++ ds) := by
  induction ds generalizing cs with
  | nil => simpa using h
  | cons d ds ih =>
    have hd : IsNumeral (cs ++ [d]) := h.char (hds d (by simp))
    have hrest := ih hd fun c hc => hds c (by simp [hc])
    rwa [List.append_assoc] at hrest

lemma isNumeralChar_of_isDigit {c : Char} (h : c.isDigit = true) : isNumeralChar c = true := by
  simp [isNumeralChar, h]

lemma of_digits {cs : List Char} (hne : cs ≠ []) (h : ∀ c ∈ cs, c.isDigit = true) :
    IsNumeral cs := by
  cases cs with
  | nil => exact absurd rfl hne
  | cons c cs =>
    have hfirst : IsNumeral [c] := .digit (h c (by simp))
    exact hfirst.append fun d hd => isNumeralChar_of_isDigit (h d (by simp [hd]))

lemma head {cs : List Char} (h : IsNumeral cs) : ∃ d ds, cs = d :: ds ∧ d.isDigit = true := by
  induction h with
  | digit hd => exact ⟨_, [], rfl, hd⟩
  | char _ _ ih =>
    obtain ⟨d, ds, rfl, hd⟩ := ih
    exact ⟨d, _, rfl, hd⟩
  | sign _ ih =>
    obtain ⟨d, ds, hcs, hd⟩ := ih
    exact ⟨d, ds ++ ['-'], by rw [hcs, List.cons_append], hd⟩

lemma isNumeralChar_or {cs : List Char} (h : IsNumeral cs) :
    ∀ c ∈ cs, isNumeralChar c = true ∨ c = '-' := by
  induction h with
  | digit hd => simpa using Or.inl (isNumeralChar_of_isDigit hd)
  | char _ hc ih =>
    intro d hd
    rcases List.mem_append.1 hd with hd | hd
    · exact ih d hd
    · rw [List.mem_singleton.1 hd]
      exact Or.inl hc
  | sign _ ih =>
    intro d hd
    rcases List.mem_append.1 hd with hd | hd
    · exact ih d hd
    · exact Or.inr (List.mem_singleton.1 hd)

end IsNumeral

end Numerals

section Digits

lemma isDigit_of_mem_repr {n : Nat} {c : Char} (h : c ∈ (toString n).toList) :
    c.isDigit = true := by
  rw [Nat.toString_eq_repr, Nat.repr_eq_ofList_toDigits, String.toList_ofList] at h
  exact Nat.isDigit_of_mem_toDigits (by decide) (by decide) h

lemma isNumeral_nat (n : Nat) : IsNumeral (toString n).toList := by
  refine .of_digits ?_ fun c hc => isDigit_of_mem_repr hc
  rw [Nat.toString_eq_repr, Nat.repr_eq_ofList_toDigits, String.toList_ofList]
  exact Nat.toDigits_ne_nil

/-- The digits of a decimal are digits, and there is one. -/
structure IsDigits (digits : List Nat) : Prop where
  ne_nil : digits ≠ []
  small : ∀ d ∈ digits, d < 10

lemma isDigit_of_mem_digitText {digits : List Nat} (h : ∀ d ∈ digits, d < 10) {c : Char}
    (hc : c ∈ (NumberLayout.digitText digits).toList) : c.isDigit = true := by
  rw [NumberLayout.digitText, String.toList_ofList] at hc
  obtain ⟨d, hd, rfl⟩ := List.mem_map.1 hc
  rw [Nat.isDigit_digitChar]
  exact decide_eq_true (h d hd)

lemma digitText_ne_nil {digits : List Nat} (h : digits ≠ []) :
    (NumberLayout.digitText digits).toList ≠ [] := by
  simpa [NumberLayout.digitText] using h

lemma isNumeral_digitText {digits : List Nat} (h : IsDigits digits) :
    IsNumeral (NumberLayout.digitText digits).toList :=
  .of_digits (digitText_ne_nil h.ne_nil) fun _ hc => isDigit_of_mem_digitText h.small hc

lemma isNumeral_positional {digits : List Nat} (h : IsDigits digits) (point : Int) :
    IsNumeral (NumberLayout.positional digits point).toList := by
  have hsmall : ∀ n, ∀ d ∈ List.replicate n 0, d < 10 := by
    intro n d hd
    rw [List.eq_of_mem_replicate hd]
    decide
  have hdigits : ∀ ds : List Nat, (∀ d ∈ ds, d < 10) →
      ∀ c ∈ (NumberLayout.digitText ds).toList, isNumeralChar c = true := fun ds hds c hc =>
    IsNumeral.isNumeralChar_of_isDigit (isDigit_of_mem_digitText hds hc)
  unfold NumberLayout.positional
  split
  · rw [String.toList_append]
    have hzero : IsNumeral "0.".toList := (IsNumeral.digit (d := '0') (by decide)).char (by decide)
    refine hzero.append (hdigits _ ?_)
    intro d hd
    rcases List.mem_append.1 hd with hd | hd
    · exact hsmall _ d hd
    · exact h.small d hd
  · rename_i hpoint
    have hwhole : IsDigits (digits.take point.toNat ++
        List.replicate (point.toNat - digits.length) 0) := by
      constructor
      · have hlength := List.length_pos_iff.2 h.ne_nil
        intro hnil
        have := congrArg List.length hnil
        simp only [List.length_append, List.length_take, List.length_replicate,
          List.length_nil] at this
        omega
      · intro d hd
        rcases List.mem_append.1 hd with hd | hd
        · exact h.small d (List.mem_of_mem_take hd)
        · exact hsmall _ d hd
    simp only [String.toList_append]
    have hmark : IsNumeral ((NumberLayout.digitText _).toList ++ ".".toList) :=
      (isNumeral_digitText hwhole).char (by decide)
    apply hmark.append
    split
    · intro c hc
      have hzero : c = '0' := by simpa using hc
      rw [hzero]
      decide
    · exact hdigits _ fun d hd => h.small d (List.mem_of_mem_drop hd)

lemma isNumeral_scientific {layout : NumberLayout} (hsign : layout.positiveExponent = "")
    {digits : List Nat} (h : IsDigits digits) (point : Int) :
    IsNumeral (layout.scientific digits point).toList := by
  have hfirst : IsDigits (digits.take 1) := by
    refine ⟨?_, fun d hd => h.small d (List.mem_of_mem_take hd)⟩
    simpa using h.ne_nil
  have hexponent : ∀ c ∈ (toString (point - 1).natAbs).toList, isNumeralChar c = true :=
    fun c hc => IsNumeral.isNumeralChar_of_isDigit (isDigit_of_mem_repr hc)
  have hplaces : ∀ c ∈ (if (digits.drop 1).isEmpty then ""
      else "." ++ NumberLayout.digitText (digits.drop 1)).toList, isNumeralChar c = true := by
    split
    · simp
    · intro c hc
      rw [String.toList_append] at hc
      rcases List.mem_append.1 hc with hc | hc
      · have hpoint : c = '.' := by simpa using hc
        rw [hpoint]
        decide
      · exact IsNumeral.isNumeralChar_of_isDigit
          (isDigit_of_mem_digitText (fun d hd => h.small d (List.mem_of_mem_drop hd)) hc)
  have hmark := ((isNumeral_digitText hfirst).append hplaces).char (c := 'e') (by decide)
  simp only [NumberLayout.scientific, String.toList_append, hsign]
  by_cases hneg : point - 1 < 0
  · rw [if_pos hneg]
    exact hmark.sign.append hexponent
  · rw [if_neg hneg]
    rw [String.toList_empty, List.append_nil]
    exact hmark.append hexponent

end Digits

section Shortest

namespace Double

variable {x : Double}

lemma significand_pos (h : x.isZero = false) : 0 < x.significand := by
  have hbits : x.magnitudeBits ≠ 0 := by simpa [isZero] using h
  unfold significand
  split
  · rename_i hexponent
    have hmod := Nat.div_add_mod x.magnitudeBits (Nat.pow 2 52)
    unfold exponentBits at hexponent
    unfold fractionBits
    rw [hexponent] at hmod
    omega
  · exact Nat.add_pos_left (by decide) _

/-- Zero reads back as no other number. -/
lemma readsBack_zero (h : x.isZero = false) (k : Int) : x.readsBack 0 k = false := by
  have hlow : 0 < x.interval.low := by
    have hsignificand := significand_pos h
    simp only [interval]
    split <;> omega
  have hden : 0 < (x.onQuarterGrid 0 k).2 := by
    simp only [onQuarterGrid]
    apply Nat.mul_pos
    · split
      · exact Nat.pow_pos (by decide)
      · decide
    · split
      · exact Nat.pow_pos (by decide)
      · decide
  have hnum : (x.onQuarterGrid 0 k).1 = 0 := by simp [onQuarterGrid]
  have hpos := Nat.mul_pos hlow hden
  simp only [readsBack, hnum]
  split
  · rw [decide_eq_false_iff_not]
    omega
  · simp

lemma hit?_pos (h : x.isZero = false) {tie : Tie} {k : Int} {digits : Nat}
    (hhit : x.hit? tie k = some digits) : 0 < digits := by
  have hbelow : x.readsBack (x.floorAt k) k = true → 0 < x.floorAt k := by
    intro hreads
    apply Nat.pos_of_ne_zero
    intro hzero
    rw [hzero, readsBack_zero h] at hreads
    cases hreads
  have hnearer : ∀ n, n ≤ x.nearer tie k n := by
    intro n
    unfold nearer
    grind
  unfold hit? at hhit
  grind

lemma ten_pow_le {k b : Nat} (h : 10 * ((k + 2) / 3) ≤ b) : 10 ^ k ≤ 2 ^ b := by
  calc 10 ^ k ≤ 10 ^ (3 * ((k + 2) / 3)) := Nat.pow_le_pow_right (by decide) (by omega)
    _ = 1000 ^ ((k + 2) / 3) := by rw [Nat.pow_mul]
    _ ≤ 1024 ^ ((k + 2) / 3) := Nat.pow_le_pow_left (by decide) _
    _ = 2 ^ (10 * ((k + 2) / 3)) := by rw [Nat.pow_mul]
    _ ≤ 2 ^ b := Nat.pow_le_pow_right (by decide) h

lemma two_pow_le {b k : Nat} (h : 4 * ((b + 12) / 13) ≤ k) : 2 ^ b ≤ 10 ^ k := by
  calc 2 ^ b ≤ 2 ^ (13 * ((b + 12) / 13)) := Nat.pow_le_pow_right (by decide) (by omega)
    _ = 8192 ^ ((b + 12) / 13) := by rw [Nat.pow_mul]
    _ ≤ 10000 ^ ((b + 12) / 13) := Nat.pow_le_pow_left (by decide) _
    _ = 10 ^ (4 * ((b + 12) / 13)) := by rw [Nat.pow_mul]
    _ ≤ 10 ^ k := Nat.pow_le_pow_right (by decide) h

/-- Fifteen places below its estimated size, a number is not rounded to zero. -/
lemma floorAt_pos (hfinite : x.isFinite = true) (hzero : x.isZero = false) {k : Int}
    (hk : k ≤ (Nat.log2 x.significand + x.scale : Int) * 30103 / 100000 - 15) :
    0 < x.floorAt k := by
  have hsignificand := significand_pos hzero
  have hlog : 2 ^ x.significand.log2 ≤ x.significand := Nat.log2_self_le (by omega)
  have hlog' : x.significand.log2 < 53 := by
    rw [Nat.log2_lt (by omega)]
    have hfraction : x.fractionBits < Nat.pow 2 52 := Nat.mod_lt _ (by decide)
    unfold significand
    split <;> simp only [Nat.pow_eq] at * <;> omega
  have hexponent : x.exponentBits < 2047 := by simpa [isFinite] using hfinite
  have hscale : -1074 ≤ x.scale ∧ x.scale ≤ 971 := by
    unfold scale
    omega
  have hfour : 2 ^ (x.significand.log2 + 2) ≤ 4 * x.significand := by
    rw [Nat.pow_add]
    omega
  simp only [floorAt, onQuarterGrid, Nat.one_mul, Nat.pow_eq]
  apply Nat.div_pos
  · refine le_trans ?_ (Nat.mul_le_mul_right _ hfour)
    generalize x.significand.log2 = l at *
    generalize x.scale = e at *
    by_cases hpos : 0 ≤ k
    · have hten : 10 ^ k.toNat ≤ 2 ^ (l + e).toNat := ten_pow_le (by omega)
      rw [if_pos hpos, if_neg (show ¬k < 0 by omega), Nat.one_mul]
      by_cases hq : e - 2 < 0
      · rw [if_pos hq, if_neg (show ¬0 ≤ e - 2 by omega), Nat.mul_one]
        calc 10 ^ k.toNat * 2 ^ (-(e - 2)).toNat
            ≤ 2 ^ (l + e).toNat * 2 ^ (-(e - 2)).toNat := Nat.mul_le_mul_right _ hten
          _ = 2 ^ (l + 2) := by rw [← Nat.pow_add]; congr 1; omega
      · rw [if_neg hq, if_pos (show 0 ≤ e - 2 by omega), Nat.mul_one, ← Nat.pow_add]
        exact hten.trans (Nat.pow_le_pow_right (by decide) (by omega))
    · rw [if_neg hpos, if_pos (show k < 0 by omega), Nat.one_mul]
      by_cases hq : e - 2 < 0
      · have htwo : 2 ^ (-(l + e)).toNat ≤ 10 ^ (-k).toNat := two_pow_le (by omega)
        rw [if_pos hq, if_neg (show ¬0 ≤ e - 2 by omega), Nat.mul_one]
        calc 2 ^ (-(e - 2)).toNat
            ≤ 2 ^ (l + 2 + (-(l + e)).toNat) := Nat.pow_le_pow_right (by decide) (by omega)
          _ = 2 ^ (l + 2) * 2 ^ (-(l + e)).toNat := Nat.pow_add ..
          _ ≤ 2 ^ (l + 2) * 10 ^ (-k).toNat := Nat.mul_le_mul_left _ htwo
      · rw [if_neg hq]
        refine Nat.mul_pos (Nat.pow_pos (by decide)) (Nat.mul_pos (Nat.pow_pos (by decide)) ?_)
        split
        · exact Nat.pow_pos (by decide)
        · decide
  · apply Nat.mul_pos <;> split <;> first | exact Nat.pow_pos (by decide) | decide

lemma significantDigits_isDigits {n : Nat} (h : 0 < n) : IsDigits (significantDigits n) := by
  constructor
  · intro hnil
    rw [significantDigits, List.reverse_eq_nil_iff, List.dropWhile_eq_nil_iff] at hnil
    have hzeros : ∀ c ∈ Nat.toDigits 10 n, c.toNat - 48 = 0 := by
      intro c hc
      simpa using hnil (c.toNat - 48) (List.mem_reverse.2 (List.mem_map.2 ⟨c, hc, rfl⟩))
    have hfold : ∀ cs : List Char, (∀ c ∈ cs, c.toNat - 48 = 0) →
        Nat.ofDigitChars 10 cs 0 = 0 := by
      intro cs hcs
      induction cs with
      | nil => rfl
      | cons c cs ih =>
        have hc : c.toNat - '0'.toNat = 0 := hcs c (by simp)
        rw [Nat.ofDigitChars, List.foldl_cons, hc]
        exact ih fun d hd => hcs d (by simp [hd])
    have hn := hfold _ hzeros
    rw [Nat.ofDigitChars_ten_toDigits] at hn
    omega
  · intro d hd
    have hd := (List.dropWhile_sublist _).subset (List.mem_reverse.1 hd)
    obtain ⟨c, hc, rfl⟩ := List.mem_map.1 (List.mem_reverse.1 hd)
    have hdigit : c.isDigit = true := Nat.isDigit_of_mem_toDigits (by decide) (by decide) hc
    have hrange := (Char.isDigit_iff_toNat.1 hdigit).2
    change c.toNat ≤ 57 at hrange
    omega

lemma shortest_isDigits (hfinite : x.isFinite = true) (hzero : x.isZero = false) (tie : Tie) :
    IsDigits (x.shortest tie).digits := by
  simp only [shortest]
  cases hfound : (List.range 17).findSome? fun (n : Nat) =>
      (x.hit? tie (x.decimalPoint - 1 - (n : Int))).map fun digits =>
        decimalOf digits (x.decimalPoint - 1 - (n : Int)) with
  | some d =>
    obtain ⟨n, _, hn⟩ := List.exists_of_findSome?_eq_some hfound
    obtain ⟨digits, hdigits, rfl⟩ := Option.map_eq_some_iff.1 hn
    exact significantDigits_isDigits (hit?_pos hzero hdigits)
  | none =>
    apply significantDigits_isDigits
    apply floorAt_pos hfinite hzero
    unfold decimalPoint
    grind

end Double

/-- A finite number is written as a numeral after its sign. -/
lemma isNumeral_magnitude {layout : NumberLayout} (hsign : layout.positiveExponent = "")
    {x : Double} (h : x.isFinite = true) : IsNumeral (layout.magnitude x).toList := by
  unfold NumberLayout.magnitude
  split
  · exact ((IsNumeral.digit (d := '0') (by decide)).char (by decide)).char (by decide)
  · rename_i hzero
    have hdigits := Double.shortest_isDigits h (Bool.eq_false_iff.2 hzero) layout.tie
    dsimp only
    split
    · exact isNumeral_positional hdigits _
    · exact isNumeral_scientific hsign hdigits _

end Shortest

namespace Literal

/-- The sign of a number, as it is written. -/
def signText (negative : Bool) : String := if negative then "-" else ""

lemma intText_eq (i : Int64) :
    intText i = signText (decide (i.toInt < 0)) ++ toString i.toInt.natAbs := by
  rw [intText, Int.toString_eq_repr, Int.repr_eq_if, Nat.toString_eq_repr]
  by_cases h : 0 ≤ i.toInt
  · have hnat : i.toInt.natAbs = i.toInt.toNat := by omega
    rw [if_pos h, hnat]
    simp [signText, show ¬i.toInt < 0 by omega]
  · have hnat : i.toInt.natAbs = (-i.toInt).toNat := by omega
    rw [if_neg h, hnat]
    simp [signText, show i.toInt < 0 by omega]

lemma floatText_eq {x : Double} (h : x.isFinite = true) :
    floatText x = signText x.isNegative ++ numberLayout.magnitude x := by
  simp [floatText, NumberLayout.write, h, signText]

end Literal

end PipelineSql
