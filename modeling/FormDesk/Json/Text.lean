import FormDesk.Binary64.Fixed
import FormDesk.Binary64.Shortest

/-! Flat JSON objects and their compact text. -/
namespace FormDesk.Json

inductive Scalar where
  | boolean (b : Bool)
  | number (v : Binary64)
  | string (s : List Char)
  deriving DecidableEq

abbrev Object := List (List Char × Scalar)

/-- The lower-case hexadecimal digits of a character below U+0100, after `\u00`. -/
def unicodeEscape (c : Char) : List Char :=
  "\\u00".toList ++ [Nat.digitChar (c.toNat / 16), Nat.digitChar (c.toNat % 16)]

/-- A character inside a string: the quote, the backslash and the control characters are escaped,
all others stand for themselves. -/
def escape (c : Char) : List Char :=
  match c with
  | '"' => "\\\"".toList
  | '\\' => "\\\\".toList
  | '\x08' => "\\b".toList
  | '\t' => "\\t".toList
  | '\n' => "\\n".toList
  | '\x0c' => "\\f".toList
  | '\r' => "\\r".toList
  | c => if c.toNat < 0x20 then unicodeEscape c else [c]

def quote (s : List Char) : List Char := '"' :: s.flatMap escape ++ ['"']

/-- The significant digits of a decimal, without zeros at the end. -/
def significantDigits (d : Binary64.Decimal) : List Char :=
  ((Nat.toDigits 10 d.digits).reverse.dropWhile (· == '0')).reverse

/-- The position of the point: the number of digits before it, or less than zero for the zeros
after it. -/
def pointPosition (d : Binary64.Decimal) : Int :=
  ((Nat.toDigits 10 d.digits).length + d.place : Nat) - (Binary64.unitPlaces : Int)

/-- Digits with the point among them, and a digit on each side of it. -/
def positionalText (digits : List Char) (point : Int) : List Char :=
  if point ≤ 0 then "0.".toList ++ List.replicate (-point).toNat '0' ++ digits
  else if digits.length ≤ point.toNat then
    digits ++ List.replicate (point.toNat - digits.length) '0' ++ ".0".toList
  else digits.take point.toNat ++ '.' :: digits.drop point.toNat

/-- Digits with the point after the first, and a signed power of ten. -/
def exponentText (digits : List Char) (point : Int) : List Char :=
  let power := point - 1
  let fraction := if digits.length ≤ 1 then [] else '.' :: digits.drop 1
  digits.take 1 ++ fraction ++ ['e', if power < 0 then '-' else '+'] ++
    Nat.toDigits 10 power.natAbs

/-- A magnitude in the fewest digits that read back: positional when at most 16 digits stand before
the point and at most 4 zeros after it, and otherwise with a power of ten. -/
def magnitudeText (m : Binary64.Magnitude) : List Char :=
  if m.units = 0 then "0.0".toList
  else
    let digits := significantDigits m.shortest
    let point := pointPosition m.shortest
    if -5 < point ∧ point ≤ 16 then positionalText digits point else exponentText digits point

/-- A number; values that are not finite have no number in JSON. -/
def numberText : Binary64 → List Char
  | .finite negative m => Binary64.signText negative ++ magnitudeText m
  | _ => "null".toList

def Scalar.text : Scalar → List Char
  | .boolean b => if b then "true".toList else "false".toList
  | .number v => numberText v
  | .string s => quote s

def Object.text (o : Object) : List Char :=
  '{' :: List.intercalate [','] (o.map fun (key, value) => quote key ++ ':' :: value.text) ++ ['}']

end FormDesk.Json
