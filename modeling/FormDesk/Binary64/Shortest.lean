import FormDesk.Binary64.Basic

/-! The shortest decimal that reads back as a magnitude. A unit of magnitude is `5 ^ 1074` times
`10 ^ -1074`, so decimals are counted in units of `10 ^ -1074`. -/
namespace FormDesk.Binary64

attribute [local instance (high)] instPowNat

/-- The number `digits * 10 ^ place`, counted in units of `10 ^ -1074`. -/
structure Decimal where
  digits : Nat
  place : Nat
  deriving DecidableEq, Repr

namespace Decimal

def units (d : Decimal) : Nat := d.digits * 10 ^ d.place

def nearest? (d : Decimal) : Option Magnitude := Magnitude.nearest? d.units (5 ^ unitPlaces)

end Decimal

namespace Magnitude

/-- A magnitude in units of `10 ^ -1074`, exactly. -/
def decimalUnits (m : Magnitude) : Nat := m.units * 5 ^ unitPlaces

/-- The decimal at a place that reads back as a magnitude; of two, the nearer one, and of two
equally near ones the even one. -/
def decimalAt? (m : Magnitude) (place : Nat) : Option Decimal :=
  let below : Decimal := ⟨m.decimalUnits / 10 ^ place, place⟩
  let above : Decimal := ⟨below.digits + 1, place⟩
  let nearer := roundQuotient m.decimalUnits (10 ^ place)
  match decide (below.nearest? = some m), decide (above.nearest? = some m) with
  | true, true => some ⟨nearer, place⟩
  | true, false => some below
  | false, true => some above
  | false, false => none

/-- The decimal at the highest place, up to the given one, that reads back. At place zero the
decimal is exact. -/
def decimalFrom (m : Magnitude) : Nat → Decimal
  | 0 => ⟨m.decimalUnits, 0⟩
  | place + 1 => (m.decimalAt? (place + 1)).getD (m.decimalFrom place)

/-- The decimal of the fewest digits that reads back. -/
def shortest (m : Magnitude) : Decimal :=
  m.decimalFrom ((Nat.toDigits 10 m.decimalUnits).length - 1)

end Magnitude

end FormDesk.Binary64
