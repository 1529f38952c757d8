/-! The dates and times of TOML. -/
namespace FormDesk.Toml

def fixedNumber (width : Nat) (s : List Char) : Option (Nat × List Char) :=
  let digits := s.take width
  if digits.length = width ∧ digits.all Char.isDigit then
    some (Nat.ofDigitChars 10 digits 0, s.drop width)
  else none

def literalChar (c : Char) : List Char → Option (List Char)
  | d :: s => if d = c then some s else none
  | [] => none

def isLeapYear (year : Nat) : Bool := year % 4 == 0 && (year % 100 != 0 || year % 400 == 0)

def daysInMonth (year month : Nat) : Nat :=
  if month = 2 then if isLeapYear year then 29 else 28
  else if month = 4 ∨ month = 6 ∨ month = 9 ∨ month = 11 then 30
  else 31

def date? (s : List Char) : Option (List Char) := do
  let (year, s) ← fixedNumber 4 s
  let (month, s) ← fixedNumber 2 (← literalChar '-' s)
  let (day, s) ← fixedNumber 2 (← literalChar '-' s)
  guard (1 ≤ month ∧ month ≤ 12 ∧ 1 ≤ day ∧ day ≤ daysInMonth year month)
  return s

def secondFraction? : List Char → Option (List Char)
  | '.' :: s => if (s.takeWhile Char.isDigit).isEmpty then none else some (s.dropWhile Char.isDigit)
  | s => some s

/-- Reads a time of day, and leaves the rest. The seconds may be left out, and may be the 60 of a
leap second. -/
def time? (s : List Char) : Option (List Char) := do
  let (hour, s) ← fixedNumber 2 s
  let (minute, s) ← fixedNumber 2 (← literalChar ':' s)
  guard (hour ≤ 23 ∧ minute ≤ 59)
  match s with
  | ':' :: s => do
    let (second, s) ← fixedNumber 2 s
    guard (second ≤ 60)
    secondFraction? s
  | s => some s

/-- The distance from universal time, or nothing. -/
def isOffset (s : List Char) : Bool :=
  match s with
  | [] => true
  | ['Z'] => true
  | ['z'] => true
  | c :: s => (c == '+' || c == '-') && Option.isSome do
    let (hour, s) ← fixedNumber 2 s
    let (minute, s) ← fixedNumber 2 (← literalChar ':' s)
    guard (hour ≤ 23 ∧ minute ≤ 59 ∧ s = [])

/-- A date, a time of day, or both with or without an offset. -/
def isMoment (s : List Char) : Bool :=
  match date? s with
  | some [] => true
  | some (c :: rest) => (c == 'T' || c == 't' || c == ' ') && (time? rest).any isOffset
  | none => time? s = some []

/-- A date alone, after which a time may follow behind one space. -/
def isDate (s : List Char) : Bool := date? s = some []

end FormDesk.Toml
