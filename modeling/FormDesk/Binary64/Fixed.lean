import FormDesk.Binary64.Basic

/-! Values written with a given number of decimal places. -/
namespace FormDesk.Binary64

attribute [local instance (high)] instPowNat

/-- The digits of a number, with zeros before them up to a width. -/
def paddedDigits (width n : Nat) : List Char :=
  let digits := Nat.toDigits 10 n
  List.replicate (width - digits.length) '0' ++ digits

/-- The text of `n / 10 ^ places` with all its places. -/
def placedText (n places : Nat) : List Char :=
  Nat.toDigits 10 (n / 10 ^ places) ++
    if places = 0 then [] else '.' :: paddedDigits places (n % 10 ^ places)

def signText (negative : Bool) : List Char := if negative then ['-'] else []

namespace Magnitude

/-- A magnitude in units of `10 ^ -places`, rounded to the nearest, ties to even. -/
def rounded (m : Magnitude) (places : Nat) : Nat := roundQuotient (m.units * 10 ^ places) one

def fixedText (m : Magnitude) (places : Nat) : List Char := placedText (m.rounded places) places

def whole (m : Magnitude) : Nat := m.units / one

def isWhole (m : Magnitude) : Bool := m.units % one == 0

end Magnitude

end FormDesk.Binary64
