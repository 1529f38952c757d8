import FormDesk.Binary64.Fixed

/-! The two texts of a value under the settings of the display: a plain one to copy, and a grouped
one to show. -/
namespace FormDesk

structure DisplaySettings where
  /-- Groups of three digits are parted by commas. -/
  thousandsSeparators : Bool := true
  /-- The greatest number of decimal places. -/
  precision : UInt64 := 10
  deriving DecidableEq, Repr

/-- More decimal places are asked for than a text can hold. -/
structure PrecisionTooLarge where
  precision : Nat
  deriving DecidableEq, Repr

def PrecisionTooLarge.message (_ : PrecisionTooLarge) : List Char :=
  "Formatting argument out of range".toList

namespace ValueText

attribute [local instance (high)] instPowNat

def maxPrecision : Nat := 65535

/-- Whole magnitudes below this one are written as integers. -/
def integerLimit : Nat := 10 ^ (15 : Nat)

/-- Drops the zeros at the end of a fraction, and the point when nothing follows it. -/
def trimFraction (s : List Char) : List Char :=
  if s.contains '.' then
    ((s.reverse.dropWhile (· == '0')).dropWhile (· == '.')).reverse
  else s

/-- The text of a value to copy: integers plainly, other values with at most `precision`
decimal places. Only the latter have a limit on the precision. Places that no magnitude has are
zeros, so they are left out with the other zeros at the end. -/
def plain (v : Binary64) (precision : Nat) : Except PrecisionTooLarge (List Char) :=
  match v with
  | .nan => .ok "NaN".toList
  | .infinity _ => .ok "Infinity".toList
  | .finite negative m =>
    if m.isWhole && decide (m.whole < integerLimit) then
      .ok (Binary64.signText (negative && m.whole != 0) ++ Nat.toDigits 10 m.whole)
    else if maxPrecision < precision then .error ⟨precision⟩
    else .ok (trimFraction (Binary64.signText negative ++
      m.fixedText (min precision Binary64.unitPlaces)))

/-- Puts a comma before every third character from the end, but not before the first. -/
def group : List Char → List Char
  | [] => []
  | c :: s => if s.length % 3 = 0 && !s.isEmpty then c :: ',' :: group s else c :: group s

/-- Grouping adds nothing but commas. -/
theorem filter_group (s : List Char) : (group s).filter (· != ',') = s.filter (· != ',') := by
  induction s with
  | nil => rfl
  | cons c s ih => unfold group; split <;> simp [List.filter_cons, ih]

def groupWhole (s : List Char) : List Char :=
  group (s.takeWhile (· != '.')) ++ s.dropWhile (· != '.')

def displayed (v : Binary64) (settings : DisplaySettings) : Except PrecisionTooLarge (List Char) :=
  (plain v settings.precision.toNat).map fun s =>
    if settings.thousandsSeparators && v.isFinite then groupWhole s else s

end ValueText

end FormDesk
