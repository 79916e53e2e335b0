/-!
# Doubles by their bits

A double is a word of 64 bits. Its value is an exact fraction, and rounding a fraction to a
double is exact integer arithmetic, a half going to the even neighbour.
-/

namespace PipelineSql

/-- A double-precision number, held as its 64 bits: a sign, 11 bits of exponent and 52 bits of
fraction. Two numbers are equal when their bits are, so `0.0` and `-0.0` differ. -/
structure Double where
  bits : UInt64
deriving DecidableEq

instance : Inhabited Double := ⟨⟨0⟩⟩

namespace Double

/-- The bits below the sign, as a natural number. -/
def magnitudeBits (x : Double) : Nat := x.bits.toNat % Nat.pow 2 63

/-- Whether the sign bit is set. -/
def isNegative (x : Double) : Bool := decide (Nat.pow 2 63 ≤ x.bits.toNat)

/-- The exponent field. -/
def exponentBits (x : Double) : Nat := x.magnitudeBits / Nat.pow 2 52

/-- The fraction field. -/
def fractionBits (x : Double) : Nat := x.magnitudeBits % Nat.pow 2 52

/-- Whether the number is neither infinite nor an undefined result. -/
def isFinite (x : Double) : Bool := decide (x.exponentBits < 2047)

/-- Whether the number is one of the two zeros. -/
def isZero (x : Double) : Bool := decide (x.magnitudeBits = 0)

/-- The magnitude of a finite number is `significand * 2 ^ scale`. -/
def significand (x : Double) : Nat :=
  if x.exponentBits = 0 then x.fractionBits else Nat.pow 2 52 + x.fractionBits

/-- The power of two beside `significand`. -/
def scale (x : Double) : Int :=
  (max x.exponentBits 1 : Nat) - 1075

/-- The number with the given sign and the given bits below it. -/
def ofMagnitude (negative : Bool) (magnitude : Nat) : Double :=
  ⟨UInt64.ofNat (magnitude % Nat.pow 2 63 + if negative then Nat.pow 2 63 else 0)⟩

/-- Flips the sign. -/
def neg (x : Double) : Double := ofMagnitude (!x.isNegative) x.magnitudeBits

/-- The quotient `num / den` rounded to a natural number, a half going to the even neighbour. -/
def roundHalfEven (num den : Nat) : Nat :=
  let quotient := num / den
  let rest := 2 * (num % den)
  if rest < den then quotient
  else if den < rest then quotient + 1
  else quotient + quotient % 2

/-- The number `num / den * 2 ^ (-q)` as a fraction of natural numbers. -/
def shifted (num den : Nat) (q : Int) : Nat × Nat :=
  if 0 ≤ q then (num, den * Nat.pow 2 q.toNat) else (num * Nat.pow 2 (-q).toNat, den)

/-- The bits of an infinite magnitude. -/
def infinityBits : Nat := 2047 * Nat.pow 2 52

/-- The magnitude nearest to the positive fraction `num / den`, a half going to the even
significand. The significand is scaled to 53 bits, or to the finest scale there is; a carry out
of it runs into the exponent field, which is what rounding up to the next binade means. -/
def nearestBits (num den : Nat) : Nat :=
  if num = 0 then 0
  else
    let exponent : Int := (Nat.log2 num : Int) - (Nat.log2 den : Int)
    let (a, b) := shifted num den exponent
    let q : Int := max (if b ≤ a then exponent - 52 else exponent - 53) (-1074)
    let (n, d) := shifted num den q
    min ((q + 1074).toNat * Nat.pow 2 52 + roundHalfEven n d) infinityBits

/-- The number nearest to `num / den`. -/
def ofFraction (num den : Nat) : Double := ofMagnitude false (nearestBits num den)

/-- The number nearest to an integer. -/
def ofInt (i : Int) : Double :=
  ofMagnitude (decide (i < 0)) (nearestBits i.natAbs 1)

/-- A finite magnitude as a fraction. -/
def fraction (x : Double) : Nat × Nat :=
  if 0 ≤ x.scale then (x.significand * Nat.pow 2 x.scale.toNat, 1)
  else (x.significand, Nat.pow 2 (-x.scale).toNat)

/-- The product of two magnitudes, rounded. -/
def mulMagnitude (x y : Double) : Double :=
  let (a, b) := x.fraction
  let (c, d) := y.fraction
  ofFraction (a * c) (b * d)

/-- The quotient of two magnitudes, rounded. -/
def divMagnitude (x y : Double) : Double :=
  let (a, b) := x.fraction
  let (c, d) := y.fraction
  ofFraction (a * d) (b * c)

/-- The number nearest to a power of ten. -/
def powerOfTen (k : Nat) : Double := ofFraction (Nat.pow 10 k) 1

/-- The largest power of ten below the overflow limit. -/
def maxPowerOfTen : Nat := 308

/-- Divides a magnitude by `10 ^ k`, in steps of the largest power of ten. -/
def scaleDown (x : Double) (k : Nat) : Double :=
  if k ≤ maxPowerOfTen then x.divMagnitude (powerOfTen k)
  else if x.isZero then x
  else scaleDown (x.divMagnitude (powerOfTen maxPowerOfTen)) (k - maxPowerOfTen)
termination_by k
decreasing_by simp [maxPowerOfTen] at *; omega

/-- Reads `significand * 10 ^ exponent`: the significand is rounded to a double first, which is
then scaled by a rounded power of ten. A result beyond the largest double is refused. -/
def ofDecimal? (significand : Nat) (exponent : Int) : Option Double :=
  let x := ofInt significand
  if exponent < 0 then some (x.scaleDown exponent.natAbs)
  else if exponent.toNat ≤ maxPowerOfTen then
    let product := x.mulMagnitude (powerOfTen exponent.toNat)
    if product.isFinite then some product else none
  else if x.isZero then some x
  else none

end Double

end PipelineSql
