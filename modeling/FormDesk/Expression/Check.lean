import FormDesk.Expression.Alphabet
import FormDesk.Numeral
import FormDesk.Text.Basic

/-! Why an expression is refused: the rules are tried in a fixed order, and the first violated one
is reported. -/
namespace FormDesk.Expression

inductive NumberFault where
  | tooManyPoints
  | notANumeral
  deriving DecidableEq, Repr

/-- Why an expression is refused. -/
inductive Fault where
  | emptyExpression
  | invalidCharacter (c : Char)
  | operatorAtEnd
  | adjacentOperators
  | emptyOperand
  | malformedNumber (text : List Char) (reason : NumberFault)
  /-- The number of operands is not one more than the number of operators. -/
  | countMismatch (operands operators : Nat)
  deriving DecidableEq, Repr

/-- The remark that follows the text of a malformed number. -/
def NumberFault.remark : NumberFault → List Char
  | .tooManyPoints => " (too many decimal points)".toList
  | .notANumeral => []

def Fault.message : Fault → List Char
  | .emptyExpression => "expression cannot be empty.".toList
  | .invalidCharacter c => "invalid character: '".toList ++ [c, '\'']
  | .operatorAtEnd => "expression cannot start or end with an operator".toList
  | .adjacentOperators => "no two operators in a row".toList
  | .emptyOperand => "empty number between operators".toList
  | .malformedNumber text reason => "malformed number: ".toList ++ text ++ reason.remark
  | .countMismatch operands operators =>
    "mismatched number of operands (".toList ++ Nat.toDigits 10 operands ++
      ") and operators (".toList ++ Nat.toDigits 10 operators ++ [')']

/-- The one blank an expression may hold while it is typed. -/
def isSpace (c : Char) : Bool := c == ' '

/-- Two operators stand directly beside each other. -/
def hasAdjacentOperators : List Char → Bool
  | c :: d :: s => (isOperator c && isOperator d) || hasAdjacentOperators (d :: s)
  | _ => false

def hasOperatorAtEnd (s : List Char) : Bool :=
  s.head?.any isOperator || s.getLast?.any isOperator

/-- The fault of the text between two operators, spaces around it dropped. -/
def checkOperand (text : List Char) : Except Fault Unit :=
  if text.isEmpty then .error .emptyOperand
  else if 1 < text.count '.' then .error (.malformedNumber text .tooManyPoints)
  else if (Numeral.ofText? text).isNone then .error (.malformedNumber text .notANumeral)
  else .ok ()

/-- Accepts well-formed expressions, and names the first violated rule of the others: a text of
spaces, a foreign character, an operator at an end, adjacent operators, and the first operand
that is no number. -/
def check (s : List Char) : Except Fault Unit :=
  if s.all isSpace then .error .emptyExpression
  else match s.find? (!isAllowed ·) with
    | some c => .error (.invalidCharacter c)
    | none =>
      if hasOperatorAtEnd (Text.trimBy isSpace s) then .error .operatorAtEnd
      else if hasAdjacentOperators s then .error .adjacentOperators
      else (pieces s).forM fun p => checkOperand (Text.trimBy isSpace p)

structure Feedback where
  isValid : Bool
  message : List Char
  deriving DecidableEq, Repr

def feedback (s : List Char) : Feedback :=
  match check s with
  | .ok () => ⟨true, "expression is valid.".toList⟩
  | .error fault => ⟨false, fault.message⟩

end FormDesk.Expression
