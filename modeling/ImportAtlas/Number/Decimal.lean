import ImportAtlas.Number.Binary64

/-!
# Decimal numerals

Reading a decimal numeral, with an optional sign, point and exponent, or one
of the words for infinity and NaN, as the nearest floating-point value.
-/

namespace ImportAtlas.Decimal

/-- A leading sign, and what follows it. -/
def readSign : List Char → Bool × List Char
  | '-' :: rest => (true, rest)
  | '+' :: rest => (false, rest)
  | rest => (false, rest)

/-- The number written by ASCII digits. -/
def digitsValue (digits : List Char) : Nat :=
  digits.foldl (fun value c => value * 10 + (c.toNat - '0'.toNat)) 0

/-- An exponent mark with its signed digits; nothing at all stands for zero. -/
def readExponent : List Char → Option Int
  | [] => some 0
  | mark :: rest =>
    let (negative, digits) := readSign rest
    if mark.toLower == 'e' && !digits.isEmpty && digits.all Char.isDigit then
      let magnitude : Int := digitsValue digits
      some (if negative then -magnitude else magnitude)
    else none

/--
An unsigned numeral as its digits and a power of ten. At least one digit must
stand before or after the point.
-/
def readNumeral (chars : List Char) : Option (Nat × Int) :=
  let whole := chars.takeWhile Char.isDigit
  let afterWhole := chars.dropWhile Char.isDigit
  let (fraction, rest) := match afterWhole with
    | '.' :: afterPoint => (afterPoint.takeWhile Char.isDigit, afterPoint.dropWhile Char.isDigit)
    | _ => ([], afterWhole)
  if whole.isEmpty && fraction.isEmpty then none
  else (readExponent rest).map fun exponent =>
    (digitsValue (whole ++ fraction), exponent - fraction.length)

/--
The floating-point value nearest to `significand * 10 ^ exponent`. Values that
no power of ten near the range can bring back are decided by their size alone.
-/
def nearest (significand : Nat) (exponent : Int) : Binary64 :=
  let reach : Int := (Nat.toDigits 10 significand).length + exponent
  if significand = 0 ∨ reach < -400 then .zero
  else if 400 < reach then .infinity
  else if 0 ≤ exponent then Binary64.ofRatio (significand * Nat.pow 10 exponent.toNat) 1
  else Binary64.ofRatio significand (Nat.pow 10 (-exponent).toNat)

/-- The magnitude named by a word, in any case. -/
def readWord (chars : List Char) : Option Binary64 :=
  match String.ofList (chars.map Char.toLower) with
  | "inf" => some .infinity
  | "infinity" => some .infinity
  | "nan" => some .nan
  | _ => none

/-- The value of a whole text, if it is a numeral or one of the words. -/
def read? (chars : List Char) : Option Binary64 :=
  let (negative, rest) := readSign chars
  let magnitude := match readNumeral rest with
    | some (significand, exponent) => some (nearest significand exponent)
    | none => readWord rest
  magnitude.map (Binary64.withSign negative)

end ImportAtlas.Decimal
