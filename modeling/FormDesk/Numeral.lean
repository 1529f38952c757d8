import FormDesk.Binary64.Basic

/-! Decimal numerals without a sign, which are digits with at most one point and at least one digit,
and their values. -/
namespace FormDesk

attribute [local instance (high)] instPowNat

structure Numeral where
  whole : List Char
  fraction : List Char
  deriving DecidableEq, Repr

namespace Numeral

/-- Reads `digits`, `digits.digits`, `digits.` or `.digits`. -/
def ofText? (s : List Char) : Option Numeral :=
  match s.splitOnP (· == '.') with
  | [whole] => if whole.all Char.isDigit && !whole.isEmpty then some ⟨whole, []⟩ else none
  | [whole, fraction] =>
    if (whole ++ fraction).all Char.isDigit && !(whole ++ fraction).isEmpty then
      some ⟨whole, fraction⟩
    else none
  | _ => none

/-- The numerator of the value, over `10 ^ places`. -/
def scaled (n : Numeral) : Nat := Nat.ofDigitChars 10 (n.whole ++ n.fraction) 0

def places (n : Numeral) : Nat := n.fraction.length

/-- The value nearest to a numeral, infinite beyond the largest one. -/
def toBinary64 (n : Numeral) : Binary64 := .ofQuotient n.scaled (10 ^ n.places)

/-- The value nearest to a numeral times a power of ten. Far outside the finite range the result
is known from the position of the point. -/
def timesTenTo (n : Numeral) (power : Int) : Binary64 :=
  let point : Int := (Nat.toDigits 10 n.scaled).length - n.places + power
  if n.scaled = 0 ∨ point < -400 then .zero false
  else if 400 < point then .infinity false
  else .ofQuotient (n.scaled * 10 ^ power.toNat) (10 ^ (n.places + (-power).toNat))

/-- A text without its sign, and whether the sign is a minus. -/
def signed : List Char → Bool × List Char
  | '-' :: s => (true, s)
  | '+' :: s => (false, s)
  | s => (false, s)

end Numeral

end FormDesk
