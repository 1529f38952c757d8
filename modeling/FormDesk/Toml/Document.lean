import FormDesk.Toml.Moment
import FormDesk.Toml.Number
import FormDesk.Toml.Table

/-! The reading of TOML documents. -/
namespace FormDesk.Toml
open Text (Reader)

attribute [local instance (high)] instPowNat

/-- The deepest nesting of values, and the greatest length of a dotted key. -/
def nestingLimit : Nat := 80

def isBareKey (c : Char) : Bool := c.isAlphanum || c == '-' || c == '_'

def simpleKey : Reader Key
  | '"' :: s => basicBody s
  | '\'' :: s => literalBody s
  | s =>
    let key := s.takeWhile isBareKey
    if key.isEmpty then none else some (key, s.dropWhile isBareKey)

/-- Reads a dotted key of limited length and the spaces after it. -/
def dottedKey : Nat → Reader (List Key)
  | 0, _ => none
  | n + 1, s => do
    let (key, s) ← simpleKey s
    match skipSpaces s with
    | '.' :: s => do
      let (path, s) ← dottedKey n (skipSpaces s)
      return (key :: path, s)
    | s => return ([key], s)

def skipComment : List Char → List Char
  | '#' :: s => s.dropWhile isPlain
  | s => s

/-- Drops spaces, line ends and comments; the first argument bounds the number of lines. -/
def skipLines : Nat → List Char → List Char
  | 0, s => s
  | n + 1, s => match skipComment (skipSpaces s) with
    | '\n' :: s => skipLines n s
    | s => s

def skipGaps (s : List Char) : List Char := skipLines s.length s

/-- Characters of numbers, dates and names: all but spaces, line ends, quotes and the signs between
values. -/
def isTokenChar (c : Char) : Bool := !" \t\n\"'#=,[]\x7b\x7d".toList.contains c

/-- An integer as a value. There is room for 128 bits, with or without sign. -/
def Value.ofInteger (n : Int) : Value :=
  if -2 ^ (127 : Nat) ≤ n ∧ n < 2 ^ (128 : Nat) then .integer n else .unreadable

/-- A float as a value. There is no room beyond the largest finite one. -/
def Value.ofFloat (negative : Bool) (digits : Numeral) (power : Int) : Value :=
  match digits.timesTenTo power with
  | .finite _ m => .float (.finite negative m)
  | _ => .unreadable

def Value.ofToken? (s : List Char) : Option Value :=
  if s = "true".toList then some (.boolean true)
  else if s = "false".toList then some (.boolean false)
  else if isMoment s then some (.moment s)
  else ((namedFloat? s).map .float)
    |>.or ((integer? s).map ofInteger)
    |>.or ((float? s).map fun (negative, digits, power) => ofFloat negative digits power)
    |>.or (if isIntegerOutline s then some .unreadable else none)

def token : Reader Value := fun s =>
  let first := s.takeWhile isTokenChar
  let rest := s.dropWhile isTokenChar
  match isDate first, rest with
  | true, ' ' :: c :: s =>
    if c.isDigit then
      let second := (c :: s).takeWhile isTokenChar
      (Value.ofToken? (first ++ ' ' :: second)).map (·, (c :: s).dropWhile isTokenChar)
    else (Value.ofToken? first).map (·, rest)
  | _, _ => (Value.ofToken? first).map (·, rest)

/-- Reads `key = value`, with gaps that a function skips on both sides of the equals sign. -/
def definition (skip : List Char → List Char) (value : Reader Value) :
    Reader Definition := fun s => do
  let (path, s) ← dottedKey nestingLimit s
  match skip s with
  | '=' :: s => do
    let (v, s) ← value (skip s)
    return ((path, v), s)
  | _ => none

/-- Reads items with commas between them, up to a closing bracket; a comma may stand after the last
item. The first argument bounds the number of items. -/
def items {α : Type} (item : Reader α) (close : Char) : Nat → Reader (List α)
  | 0, _ => none
  | n + 1, s => match skipGaps s with
    | [] => none
    | c :: s =>
      if c = close then some ([], s)
      else do
        let (a, s) ← item (c :: s)
        match skipGaps s with
        | [] => none
        | d :: s =>
          if d = close then return ([a], s)
          else do
            guard (d = ',')
            let (as, s) ← items item close n s
            return (a :: as, s)

/-- Reads a value in which brackets nest to a limited depth. -/
def value : Nat → Reader Value
  | depth, '[' :: s => match depth with
    | 0 => none
    | depth + 1 => (items (value depth) ']' s.length s).map fun (vs, s) => (.array vs, s)
  | depth, '\x7b' :: s => match depth with
    | 0 => none
    | depth + 1 => do
      let (ds, s) ← items (definition skipGaps (value depth)) '\x7d' s.length s
      return (.table .braces (← Entries.defineAll [] ds), s)
  | _, '"' :: s => (quoted ('"' :: s)).map fun (t, s) => (.string t, s)
  | _, '\'' :: s => (quoted ('\'' :: s)).map fun (t, s) => (.string t, s)
  | _, s => token s

/-- The end of a line that holds nothing but spaces and a comment any more. -/
def lineEnd? (s : List Char) : Option (List Char) :=
  match skipComment (skipSpaces s) with
  | [] => some []
  | '\n' :: s => some s
  | _ => none

/-- Reads definitions, one a line, up to the first header or the end. The first argument bounds the
number of lines. -/
def definitions : Nat → Reader (List Definition)
  | 0, s => some ([], s)
  | n + 1, s => match skipGaps s with
    | [] => some ([], [])
    | '[' :: s => some ([], '[' :: s)
    | s => do
      let (d, s) ← definition skipSpaces (value nestingLimit) s
      let (ds, s) ← definitions n (← lineEnd? s)
      return (d :: ds, s)

def header : Reader Header
  | '[' :: '[' :: s => do
    let (path, s) ← dottedKey nestingLimit (skipSpaces s)
    match s with
    | ']' :: ']' :: s => return (.element path, ← lineEnd? s)
    | _ => none
  | '[' :: s => do
    let (path, s) ← dottedKey nestingLimit (skipSpaces s)
    match s with
    | ']' :: s => return (.table path, ← lineEnd? s)
    | _ => none
  | _ => none

/-- Reads the sections of a document to its end. The first argument bounds their number. -/
def sections : Nat → List Char → Option (List Section)
  | _, [] => some []
  | 0, _ :: _ => none
  | n + 1, s => do
    let (header, s) ← header s
    let (definitions, s) ← definitions s.length s
    return ⟨header, definitions⟩ :: (← sections n s)

/-- Writes every line end as a single line feed. A carriage return stands nowhere else. -/
def unifyLineEnds : List Char → Option (List Char)
  | [] => some []
  | '\r' :: '\n' :: s => (unifyLineEnds s).map ('\n' :: ·)
  | c :: s => if c = '\r' then none else (unifyLineEnds s).map (c :: ·)

def dropMark : List Char → List Char
  | '\ufeff' :: s => s
  | s => s

/-- The root table of a document. -/
def Entries.ofText? (s : List Char) : Option Entries := do
  let s ← unifyLineEnds (dropMark s)
  let (root, s) ← definitions s.length s
  let es ← Entries.defineAll [] root
  (← sections s.length s).foldlM Entries.addSection es

end FormDesk.Toml
