import StaticCheck.Text

/-! # Decimal numbers

A nonnegative decimal number `digits · 10 ^ exponent`, as a real literal writes it, and its
comparison with fractions of natural numbers. -/

namespace StaticCheck

/-- The number `digits · 10 ^ exponent`. -/
structure Decimal where
  digits : Nat
  exponent : Int
deriving DecidableEq

namespace Decimal

def natOfDigits (text : List Char) : Nat :=
  text.foldl (fun n c => 10 * n + (c.toNat - '0'.toNat)) 0

/-- The exponent written behind the digits of a literal; no exponent is zero. -/
def readExponent : List Char → Int
  | [] => 0
  | _ :: '-' :: digits => - (natOfDigits digits : Int)
  | _ :: '+' :: digits => natOfDigits digits
  | _ :: digits => natOfDigits digits

/-- The digits behind a decimal point, and what follows them. -/
def splitPlaces : List Char → List Char × List Char
  | '.' :: rest => (rest.takeWhile isDigit, rest.dropWhile isDigit)
  | rest => ([], rest)

/-- The number that a literal writes: digits, then optionally a point with more digits, then
optionally an exponent. -/
def ofLiteral (text : List Char) : Decimal :=
  let whole := text.takeWhile isDigit
  let (places, tail) := splitPlaces (text.dropWhile isDigit)
  ⟨natOfDigits (whole ++ places), readExponent tail - places.length⟩

def digitCount (n : Nat) : Nat := (Nat.toDigits 10 n).length

/-- The number as a fraction. -/
def ratio (d : Decimal) : Nat × Nat :=
  if 0 ≤ d.exponent then (d.digits * Nat.pow 10 d.exponent.toNat, 1)
  else (d.digits, Nat.pow 10 (- d.exponent).toNat)

/-- The greatest whole multiple of `10 ^ exponent` up to `num / den`, as a decimal. -/
def floor (num den : Nat) (exponent : Int) : Decimal :=
  let digits :=
    if 0 ≤ exponent then num / (den * Nat.pow 10 exponent.toNat)
    else num * Nat.pow 10 (- exponent).toNat / den
  ⟨digits, exponent⟩

/-- The same number without zeros at the end of its digits. -/
def trim (d : Decimal) : Decimal :=
  if 0 < d.digits ∧ d.digits % 10 = 0 then trim ⟨d.digits / 10, d.exponent + 1⟩ else d
termination_by d.digits
decreasing_by omega

/-- The position of the decimal point, counted from the left end of the digits. -/
def point (d : Decimal) : Int := digitCount d.digits + d.exponent

end Decimal

end StaticCheck
