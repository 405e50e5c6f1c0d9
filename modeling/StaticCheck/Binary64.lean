import StaticCheck.Decimal

/-! # Real numbers in 64 bits

The values of real literals: the binary floating point numbers with 53 bits of precision, two
infinities and one value that is no number.  The nonnegative finite ones are counted from zero
upwards by their rank, so that neighbours have neighbouring ranks.  Everything is computed with
natural numbers: `units` is the exact value of a rank, and a decimal is read as the nearest value,
ties going to the even rank. -/

namespace StaticCheck

namespace Binary64

/-- How many ranks share one spacing. -/
def band : Nat := Nat.pow 2 52

/-- The first rank beyond the finite numbers. -/
def rankLimit : Nat := 2047 * band

theorem rankLimit_pos : 0 < rankLimit := by decide

end Binary64

/-- A binary floating point number. -/
inductive Binary64 where
  /-- The number at a rank above zero, or below zero if `negative`. -/
  | finite (negative : Bool) (rank : Fin Binary64.rankLimit)
  | infinite (negative : Bool)
  | notANumber
deriving DecidableEq

namespace Binary64

/-- How many times the smallest positive value goes into one. -/
def unitsPerOne : Nat := Nat.pow 2 1074

/-- The value at a rank, in multiples of the smallest positive value. -/
def units (rank : Nat) : Nat :=
  if rank < band then rank else (band + rank % band) * Nat.pow 2 (rank / band - 1)

/-- The quotient rounded to the nearest natural number, a half to the even one. -/
def roundDiv (num den : Nat) : Nat :=
  let q := num / den
  let r := num % den
  if 2 * r < den then q
  else if 2 * r > den then q + 1
  else q + q % 2

/-- The rank of the number nearest to `num / den`. -/
def nearestRank (num den : Nat) : Nat :=
  let scaled := num * unitsPerOne
  let shift := (scaled / den).log2 - 52
  shift * band + roundDiv scaled (den * Nat.pow 2 shift)

/-- The number nearest to a decimal.  Decimals from `10 ^ 309` on are infinite and those below
`10 ^ (-330)` are zero, whatever the size of their exponent. -/
def ofDecimal (negative : Bool) (d : Decimal) : Binary64 :=
  if d.digits = 0 ∨ d.point < -330 then finite negative ⟨0, rankLimit_pos⟩
  else if 310 < d.point then infinite negative
  else
    let rank := nearestRank d.ratio.1 d.ratio.2
    if h : rank < rankLimit then finite negative ⟨rank, h⟩ else infinite negative

def ofLiteral (text : String) : Binary64 := ofDecimal false (.ofLiteral text.toList)

/-- Reads a number with its sign, an infinity or the text of the value that is no number. -/
def ofText (text : String) : Binary64 :=
  if text = "NaN" then notANumber
  else if text = "inf" then infinite false
  else if text = "-inf" then infinite true
  else match text.toList with
    | '-' :: literal => ofDecimal true (.ofLiteral literal)
    | literal => ofDecimal false (.ofLiteral literal)

/-! ### The shortest decimal -/

/-- Whether a decimal is read as the finite number at `rank`. -/
def readsAs (rank : Fin rankLimit) (d : Decimal) : Bool := ofDecimal false d = finite false rank

/-- The neighbour of the number at `rank` among the multiples of `10 ^ exponent` that is read as
that number.  If both neighbours are, the nearer one, and of two equally near ones the greater. -/
def neighbour? (rank : Fin rankLimit) (exponent : Int) : Option Decimal :=
  let num := units rank
  let den := unitsPerOne
  let below := Decimal.floor num den exponent
  let above : Decimal := ⟨below.digits + 1, exponent⟩
  let upper := 2 * below.digits + 1 ≤ (Decimal.floor (2 * num) den exponent).digits
  if readsAs rank below ∧ ¬ (readsAs rank above ∧ upper) then some below
  else if readsAs rank above then some above
  else none

/-- The value at a rank written with all its digits. -/
def exactDecimal (rank : Nat) : Decimal := ⟨units rank * Nat.pow 5 1074, -1074⟩

/-- The position of the decimal point of the value at a positive rank. -/
def decimalPoint (rank : Nat) : Int := (exactDecimal rank).point

/-- The decimal with the fewest digits that is read as the number at `rank`.  Seventeen digits are
always enough; the exact decimal stands behind them. -/
def shortest (rank : Fin rankLimit) : Decimal :=
  let point := decimalPoint rank
  let found := (List.range 17).findSome? fun (count : Nat) => neighbour? rank (point - (count + 1))
  (found.getD (exactDecimal rank)).trim

/-! ### Writing -/

def zeros (count : Int) : String := String.ofList (List.replicate count.toNat '0')

/-- Digits with the decimal point at `point`, and at least one digit on each side of it. -/
def positional (digits : String) (point : Int) : String :=
  let length : Int := digits.length
  if point ≤ 0 then "0." ++ zeros (- point) ++ digits
  else if point < length then
    String.ofList (digits.toList.take point.toNat) ++ "." ++
      String.ofList (digits.toList.drop point.toNat)
  else digits ++ zeros (point - length) ++ ".0"

/-- Digits with the decimal point behind the first of them, and an exponent. -/
def scientific (digits : String) (point : Int) : String :=
  let mantissa := match digits.toList with
    | first :: second :: rest => String.ofList (first :: '.' :: second :: rest)
    | digits => String.ofList digits
  mantissa ++ "e" ++ toString (point - 1)

/-- The text of a finite number: positional from `10 ^ (-4)` up to `10 ^ 16`, else with an
exponent. -/
def renderFinite (rank : Fin rankLimit) : String :=
  if rank.val = 0 then "0.0"
  else
    let d := shortest rank
    let digits := toString d.digits
    if -3 ≤ d.point ∧ d.point ≤ 16 then positional digits d.point else scientific digits d.point

def render : Binary64 → String
  | finite negative rank => (if negative then "-" else "") ++ renderFinite rank
  | infinite negative => if negative then "-inf" else "inf"
  | notANumber => "NaN"

end Binary64

end StaticCheck
