import FormDesk.Text.Basic

/-! The strings of TOML: basic ones with escapes and literal ones without, on one line or on
several. Line ends are single line feeds here. -/
namespace FormDesk.Toml
open Text (Reader scalar?)

def isSpace (c : Char) : Bool := c == ' ' || c == '\t'

def skipSpaces (s : List Char) : List Char := s.dropWhile isSpace

/-- Characters that stand for themselves in strings and comments: all but the control characters,
of which the tab is one that does. -/
def isPlain (c : Char) : Bool := c == '\t' || (0x20 ≤ c.toNat && c.toNat != 0x7F)

/-- The character that an escape stands for, and the length of the escape after its backslash. -/
def escaped? (s : List Char) : Option (Char × Nat) :=
  match s with
  | 'b' :: _ => some ('\x08', 1)
  | 't' :: _ => some ('\t', 1)
  | 'n' :: _ => some ('\n', 1)
  | 'f' :: _ => some ('\x0c', 1)
  | 'r' :: _ => some ('\r', 1)
  | 'e' :: _ => some ('\x1b', 1)
  | '"' :: _ => some ('"', 1)
  | '\\' :: _ => some ('\\', 1)
  | 'x' :: s => (scalar? 2 s).map (·, 3)
  | 'u' :: s => (scalar? 4 s).map (·, 5)
  | 'U' :: s => (scalar? 8 s).map (·, 9)
  | _ => none

def basicBody : Reader (List Char)
  | [] => none
  | '"' :: s => some ([], s)
  | '\\' :: s => do
    let (c, n) ← escaped? s
    let (t, rest) ← basicBody (s.drop n)
    return (c :: t, rest)
  | c :: s =>
    if isPlain c then do
      let (t, rest) ← basicBody s
      return (c :: t, rest)
    else none
termination_by s => s.length
decreasing_by all_goals simp only [List.length_cons, List.length_drop]; omega

def literalBody : Reader (List Char)
  | [] => none
  | '\'' :: s => some ([], s)
  | c :: s =>
    if isPlain c then do
      let (t, rest) ← literalBody s
      return (c :: t, rest)
    else none

/-- Reads the quotes that close a string of several lines, after the first three: up to two more
belong to the string. -/
def closing (quote : Char) (s : List Char) : List Char × List Char :=
  let more := (s.take 2).takeWhile (· == quote)
  (more, s.drop more.length)

/-- The length of the blank rest of a line after a backslash, with the blanks up to the next
character. -/
def continuation? (s : List Char) : Option Nat :=
  match skipSpaces s with
  | '\n' :: t => some (s.length - (t.dropWhile fun c => isSpace c || c == '\n').length)
  | _ => none

def basicLines : Reader (List Char)
  | [] => none
  | '"' :: '"' :: '"' :: s => some (closing '"' s)
  | '\\' :: s =>
    match continuation? s with
    | some n => basicLines (s.drop n)
    | none => do
      let (c, n) ← escaped? s
      let (t, rest) ← basicLines (s.drop n)
      return (c :: t, rest)
  | c :: s =>
    if isPlain c || c == '\n' then do
      let (t, rest) ← basicLines s
      return (c :: t, rest)
    else none
termination_by s => s.length
decreasing_by all_goals simp only [List.length_cons, List.length_drop]; omega

def literalLines : Reader (List Char)
  | [] => none
  | '\'' :: '\'' :: '\'' :: s => some (closing '\'' s)
  | c :: s =>
    if isPlain c || c == '\n' then do
      let (t, rest) ← literalLines s
      return (c :: t, rest)
    else none

/-- A line end directly after the opening quotes does not belong to the string. -/
def dropLineEnd : List Char → List Char
  | '\n' :: s => s
  | s => s

def quoted : Reader (List Char)
  | '"' :: '"' :: '"' :: s => basicLines (dropLineEnd s)
  | '\'' :: '\'' :: '\'' :: s => literalLines (dropLineEnd s)
  | '"' :: s => basicBody s
  | '\'' :: s => literalBody s
  | _ => none

end FormDesk.Toml
