import FormDesk.Numeral
import FormDesk.Toml.Quoted

/-! The integers and floats of TOML. Single underscores may part the digits. -/
namespace FormDesk.Toml
open Numeral (signed)
open Text (hexValue?)

/-- The digits of a class, with the underscores between them dropped. -/
def parted? (p : Char → Bool) (s : List Char) : Option (List Char) :=
  let groups := s.splitOnP (· == '_')
  if groups.all fun g => !g.isEmpty && g.all p then some groups.flatten else none

/-- Decimal digits without superfluous zeros before them. -/
def wholeDigits? (s : List Char) : Option (List Char) := do
  let digits ← parted? Char.isDigit s
  guard (digits.length = 1 ∨ digits.head? ≠ some '0')
  return digits

def radix? (base : Nat) (s : List Char) : Option Int := do
  let digits ← parted? (fun c => (hexValue? c).any (· < base)) s
  return digits.foldl (fun n c => base * n + (hexValue? c).getD 0) 0

/-- An integer, in decimal or after the sign of another base. -/
def integer? : List Char → Option Int
  | '0' :: 'x' :: s => radix? 16 s
  | '0' :: 'o' :: s => radix? 8 s
  | '0' :: 'b' :: s => radix? 2 s
  | s => do
    let (negative, s) := signed s
    let n : Int := Nat.ofDigitChars 10 (← wholeDigits? s) 0
    return if negative then -n else n

/-- The outline of an integer without a value. Behind the sign of another base all digits may be
missing. In decimal, of the groups that underscores part the first holds digits only, the others
begin with one, and all but the last end with one; what else stands in them is not looked at. -/
def isIntegerOutline (s : List Char) : Bool :=
  s == "0x".toList || s == "0o".toList || s == "0b".toList ||
    match (signed s).2.splitOnP (· == '_') with
    | first :: second :: more =>
      !first.isEmpty && first.all Char.isDigit && first.head? != some '0' &&
        (second :: more).all (fun g => g.head?.any Char.isDigit) &&
        (second :: more).dropLast.all (fun g => g.getLast?.any Char.isDigit) &&
        s.all fun c => c != '.' && c != 'e' && c != 'E'
    | _ => false

/-- The power of ten of a float: digits with a sign, which may have zeros before them. -/
def power? (s : List Char) : Option Int := do
  let (negative, s) := signed s
  let n : Int := Nat.ofDigitChars 10 (← parted? Char.isDigit s) 0
  return if negative then -n else n

/-- An infinity or a NaN by its name. -/
def namedFloat? (s : List Char) : Option Binary64 :=
  let (negative, s) := signed s
  if s = "inf".toList then some (.infinity negative)
  else if s = "nan".toList then some .nan
  else none

/-- The parts of a float with a fraction, a power of ten, or both: whether it is negative, its
digits and its power of ten. -/
def float? (s : List Char) : Option (Bool × Numeral × Int) := do
  let (negative, s) := signed s
  let (mantissa, power) ← match s.splitOnP fun c => c == 'e' || c == 'E' with
    | [mantissa] => some (mantissa, none)
    | [mantissa, power] => (power? power).map fun n => (mantissa, some n)
    | _ => none
  let fraction ← match mantissa.splitOnP (· == '.') with
    | [_] => if power.isSome then some [] else none
    | [_, fraction] => parted? Char.isDigit fraction
    | _ => none
  let whole ← wholeDigits? (mantissa.takeWhile (· != '.'))
  return (negative, ⟨whole, fraction⟩, power.getD 0)

end FormDesk.Toml
