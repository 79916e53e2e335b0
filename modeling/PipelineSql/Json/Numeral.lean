import PipelineSql.Json.Basic

namespace PipelineSql.Json

/-- The greatest significand that is kept exactly. -/
def maxSignificand : Nat := Nat.pow 2 64 - 1

/-- The value of a decimal digit. -/
def digitValue (c : Char) : Nat := c.toNat - 48

/-- Takes digits into a significand while it stays within 64 bits. Gives the significand, how
many digits went in, and how many were left over. -/
def takeDigits : Nat → List Char → Nat × Nat × Nat
  | significand, [] => (significand, 0, 0)
  | significand, c :: rest =>
    let next := 10 * significand + digitValue c
    if next ≤ maxSignificand then
      let (s, taken, left) := takeDigits next rest
      (s, taken + 1, left)
    else (significand, 0, rest.length + 1)

/-- The parts of a written number: sign, digits before the point, digits after it, and the
written exponent with its sign. -/
structure Numeral where
  negative : Bool
  whole : List Char
  places : Option (List Char)
  exponent : Option (Bool × List Char)

/-- Splits the optional exponent off. -/
def splitExponent : List Char → Option (Option (Bool × List Char))
  | [] => some none
  | c :: rest =>
    if c = 'e' ∨ c = 'E' then
      let (negative, digits) := match rest with
        | '-' :: r => (true, r)
        | '+' :: r => (false, r)
        | r => (false, r)
      if digits ≠ [] ∧ digits.all Char.isDigit then some (some (negative, digits)) else none
    else none

/-- Splits the optional places after the point off. -/
def splitPlaces : List Char → Option (Option (List Char) × List Char)
  | '.' :: rest =>
    let digits := rest.takeWhile Char.isDigit
    if digits = [] then none else some (some digits, rest.dropWhile Char.isDigit)
  | rest => some (none, rest)

/-- Reads the grammar of a number: no leading zero, and digits wherever digits are announced. -/
def Numeral.ofChars? (text : List Char) : Option Numeral := do
  let (negative, rest) := match text with
    | '-' :: r => (true, r)
    | r => (false, r)
  let whole := rest.takeWhile Char.isDigit
  if whole = [] ∨ (whole.head? = some '0' ∧ whole.length ≠ 1) then none
  else
    let (places, tail) ← splitPlaces (rest.dropWhile Char.isDigit)
    let exponent ← splitExponent tail
    return { negative, whole, places, exponent }

/-- The written exponent as an integer. -/
def Numeral.exponentValue (n : Numeral) : Int :=
  match n.exponent with
  | none => 0
  | some (negative, digits) =>
    let magnitude : Int := (digits.foldl (fun a c => 10 * a + digitValue c) 0 : Nat)
    if negative then -magnitude else magnitude

/-- Reads a number with a fraction or an exponent, or an integer of more than 64 bits. Digits
beyond the significand's room only move the point, or are dropped after it. -/
def Numeral.toDouble? (n : Numeral) : Option Double := do
  let (whole, _, left) := takeDigits 0 n.whole
  let (significand, taken, _) := takeDigits whole (n.places.getD [])
  let x ← Double.ofDecimal? significand ((left : Int) - taken + n.exponentValue)
  return if n.negative then x.neg else x

/-- The value of a written number. Integers from `-2^63` to `2^64 - 1` stay integers, except
that `-0` is a double. -/
def Numeral.value? (n : Numeral) : Option Json :=
  let (significand, _, left) := takeDigits 0 n.whole
  if n.places.isNone ∧ n.exponent.isNone ∧ left = 0 then
    if n.negative then
      if significand = 0 ∨ Nat.pow 2 63 < significand then some (.float (Double.ofInt significand).neg)
      else some (.int (-(significand : Int)))
    else some (.int significand)
  else n.toDouble?.map .float

end PipelineSql.Json
