/-! The characters of expressions: digits and points, the two operators, and the space. -/
namespace FormDesk.Expression

inductive Operator where
  | plus
  | times
  deriving DecidableEq, Repr

def Operator.ofChar? : Char → Option Operator
  | '+' => some .plus
  | '*' => some .times
  | _ => none

def Operator.toChar : Operator → Char
  | .plus => '+'
  | .times => '*'

theorem Operator.ofChar?_eq_some_iff {c : Char} {o : Operator} :
    ofChar? c = some o ↔ c = o.toChar := by
  unfold ofChar?
  split <;> cases o <;> simp_all [toChar]

def isOperator (c : Char) : Bool := c == '+' || c == '*'

@[simp] theorem isSome_ofChar? (c : Char) : (Operator.ofChar? c).isSome = isOperator c := by
  unfold Operator.ofChar? isOperator
  split <;> simp_all

def isLiteral (c : Char) : Bool := c.isDigit || c == '.'

def isAllowed (c : Char) : Bool := isLiteral c || isOperator c || c == ' '

/-- Keeps digits, points and operators, and drops everything else. -/
def clean (s : List Char) : List Char := s.filter fun c => isLiteral c || isOperator c

theorem clean_append (s t : List Char) : clean (s ++ t) = clean s ++ clean t := by
  simp [clean]

@[simp] theorem clean_clean (s : List Char) : clean (clean s) = clean s := by
  simp [clean]

/-- The parts of a text between its operators. -/
def pieces (s : List Char) : List (List Char) := s.splitOnP isOperator

end FormDesk.Expression
