/-!
# Binary floating-point values

A floating-point constant is kept as its 64-bit pattern, so that the payload
of a NaN and the sign of a zero survive reading and writing. Numerical
equality is a separate relation: it tells no two zeros apart and no NaN is
equal to anything.
-/

namespace ImportAtlas

/-- A value of the 64-bit binary floating-point format, by bit pattern. -/
structure Binary64 where
  bits : UInt64
  deriving DecidableEq, Repr

namespace Binary64

/-- All exponent bits. -/
def exponentMask : UInt64 := 0x7ff0000000000000

/-- All fraction bits. -/
def fractionMask : UInt64 := 0x000fffffffffffff

def isNaN (x : Binary64) : Bool :=
  (x.bits &&& exponentMask) == exponentMask && (x.bits &&& fractionMask) != 0

def isZero (x : Binary64) : Bool :=
  (x.bits &&& (exponentMask ||| fractionMask)) == 0

/-- Equality of the numbers: zeros of both signs are equal, a NaN equals nothing. -/
def numEq (x y : Binary64) : Bool :=
  !x.isNaN && !y.isNaN && (x == y || (x.isZero && y.isZero))

/-- The same magnitude with the given sign. -/
def withSign (negative : Bool) (x : Binary64) : Binary64 :=
  if negative then ⟨x.bits ||| 0x8000000000000000⟩ else x

def zero : Binary64 := ⟨0⟩

def infinity : Binary64 := ⟨exponentMask⟩

/-- The quiet NaN with an empty payload. -/
def nan : Binary64 := ⟨0x7ff8000000000000⟩

/-- Half-way cases go to the even quotient. -/
def divRoundHalfEven (num den : Nat) : Nat :=
  let quotient := num / den
  let twice := 2 * (num % den)
  if twice < den then quotient
  else if den < twice then quotient + 1
  else quotient + quotient % 2

/--
The value nearest to `num / den` for a positive `den`. The quotient is scaled
by a power of two to 53 bits, or to the fixed spacing of the subnormal range,
and rounded once; a carry out of the fraction runs into the exponent field.
-/
def ofRatio (num den : Nat) : Binary64 :=
  if num = 0 then zero
  else
    let guess : Int := (Nat.log2 num : Int) - Nat.log2 den
    let atLeast : Bool :=
      if 0 ≤ guess then den * Nat.pow 2 guess.toNat ≤ num else den ≤ num * Nat.pow 2 (-guess).toNat
    let magnitude : Int := if atLeast then guess else guess - 1
    let unit : Int := max (magnitude - 52) (-1074)
    let significand :=
      if 0 ≤ unit then divRoundHalfEven num (den * Nat.pow 2 unit.toNat)
      else divRoundHalfEven (num * Nat.pow 2 (-unit).toNat) den
    let pattern := (unit + 1074).toNat * 0x10000000000000 + significand
    if pattern < exponentMask.toNat then ⟨UInt64.ofNat pattern⟩ else infinity

end Binary64

end ImportAtlas
