import PipelineSql.Json.Numeral

/-!
# Words of JSON text

The scanner is a fold over the characters, so it is total without a measure.
-/

namespace PipelineSql.Json

/-- A word of JSON text. -/
inductive Token where
  | openArray
  | closeArray
  | openObject
  | closeObject
  | comma
  | colon
  /-- A text. It has no value if one half of a surrogate pair stands alone in it. -/
  | text (value : Option String)
  | scalar (value : Json)

/-- What the scanner is in the middle of. Characters of an unfinished word are held last first, and
none are held of a text that has no value. -/
inductive Scanning where
  /-- Between two words. -/
  | between
  /-- In `null`, `true`, `false` or a number. -/
  | word (chars : List Char)
  /-- In a text. -/
  | text (chars : Option (List Char))
  /-- After a backslash. -/
  | escape (chars : Option (List Char))
  /-- In the four digits of a numbered character. A first half of a pair may be pending. -/
  | code (chars : Option (List Char)) (pending : Option Nat) (value digits : Nat)
  /-- After the first half of a pair, before the backslash of the second. -/
  | pair (chars : Option (List Char)) (first : Nat)
  /-- After the backslash before the second half of a pair. -/
  | pairEscape (chars : Option (List Char)) (first : Nat)

/-- The scanner: its state, and the words found so far, last first. -/
structure Scanner where
  state : Scanning
  found : List Token

/-- The value of a finished bare word. A number beyond every double is well-formed. -/
def wordValue? (chars : List Char) : Option Json :=
  if chars = ['n', 'u', 'l', 'l'] then some .null
  else if chars = ['t', 'r', 'u', 'e'] then some (.bool true)
  else if chars = ['f', 'a', 'l', 's', 'e'] then some (.bool false)
  else (Numeral.ofChars? chars).map fun n => n.value?.getD .unreadable

/-- Whether a character can stand in a bare word. -/
def isWordChar (c : Char) : Bool :=
  c.isAlphanum || c = '-' || c = '+' || c = '.'

/-- The punctuation marks. -/
def mark? (c : Char) : Option Token :=
  if c = '[' then some .openArray
  else if c = ']' then some .closeArray
  else if c = '\x7b' then some .openObject
  else if c = '\x7d' then some .closeObject
  else if c = ',' then some .comma
  else if c = ':' then some .colon
  else none

/-- Whether a character may stand between words. -/
def isBlank (c : Char) : Bool := c = ' ' || c = '\n' || c = '\t' || c = '\r'

def startWord (found : List Token) (c : Char) : Option Scanner :=
  if isBlank c then some ⟨.between, found⟩
  else if c = '"' then some ⟨.text (some []), found⟩
  else if isWordChar c then some ⟨.word [c], found⟩
  else (mark? c).map fun token => ⟨.between, token :: found⟩

/-- The character that a one-letter escape stands for. -/
def escaped? (c : Char) : Option Char :=
  if c = '"' then some '"'
  else if c = '\\' then some '\\'
  else if c = '/' then some '/'
  else if c = 'b' then some '\x08'
  else if c = 'f' then some '\x0c'
  else if c = 'n' then some '\n'
  else if c = 'r' then some '\r'
  else if c = 't' then some '\t'
  else none

/-- The value of a hexadecimal digit. -/
def hexValue? (c : Char) : Option Nat :=
  if c.isDigit then some (c.toNat - 48)
  else if 'a' ≤ c ∧ c ≤ 'f' then some (c.toNat - 87)
  else if 'A' ≤ c ∧ c ≤ 'F' then some (c.toNat - 55)
  else none

/-- Goes on after a complete four-digit code. A code of the upper half range makes one character
with a code of the lower half range right after it; by itself neither is a character. -/
def finishCode (chars : Option (List Char)) (pending : Option Nat) (code : Nat) : Scanning :=
  match pending with
  | some first =>
    if 0xDC00 ≤ code ∧ code ≤ 0xDFFF then
      .text (chars.map (Char.ofNat (0x10000 + (first - 0xD800) * 0x400 + (code - 0xDC00)) :: ·))
    else .text none
  | none =>
    if 0xD800 ≤ code ∧ code ≤ 0xDBFF then .pair chars code
    else if 0xDC00 ≤ code ∧ code ≤ 0xDFFF then .text none
    else .text (chars.map (Char.ofNat code :: ·))

/-- Reads one character of a text. -/
def textStep (found : List Token) (chars : Option (List Char)) (c : Char) : Option Scanner :=
  if c = '"' then
    some ⟨.between, .text (chars.map fun cs => String.ofList cs.reverse) :: found⟩
  else if c = '\\' then some ⟨.escape chars, found⟩
  else if c.toNat < 32 then none
  else some ⟨.text (chars.map (c :: ·)), found⟩

/-- Reads the character after a backslash. -/
def escapeStep (found : List Token) (chars : Option (List Char)) (c : Char) : Option Scanner :=
  if c = 'u' then some ⟨.code chars none 0 0, found⟩
  else (escaped? c).map fun e => ⟨.text (chars.map (e :: ·)), found⟩

/-- Reads one character. -/
def Scanner.step (s : Scanner) (c : Char) : Option Scanner :=
  match s.state with
  | .between => startWord s.found c
  | .word chars =>
    if isWordChar c then some { s with state := .word (c :: chars) }
    else do
      let value ← wordValue? chars.reverse
      startWord (.scalar value :: s.found) c
  | .text chars => textStep s.found chars c
  | .escape chars => escapeStep s.found chars c
  | .code chars pending value digits => do
    let value := 16 * value + (← hexValue? c)
    if digits = 3 then return { s with state := finishCode chars pending value }
    else return { s with state := .code chars pending value (digits + 1) }
  | .pair chars first =>
    if c = '\\' then some { s with state := .pairEscape chars first }
    else textStep s.found none c
  | .pairEscape chars first =>
    if c = 'u' then some { s with state := .code chars (some first) 0 0 }
    else escapeStep s.found none c

/-- The words of the whole input, once it has ended. -/
def Scanner.finish (s : Scanner) : Option (List Token) :=
  match s.state with
  | .between => some s.found.reverse
  | .word chars => (wordValue? chars.reverse).map fun value => (.scalar value :: s.found).reverse
  | _ => none

/-- Cuts JSON text into words. -/
def tokens? (text : String) : Option (List Token) := do
  let s ← text.toList.foldlM Scanner.step ⟨.between, []⟩
  s.finish

end PipelineSql.Json
