import FormDesk.Expression.Check

/-! The operands and operators of an expression and their value, products before sums, and the value
of an expression as typed. -/
namespace FormDesk.Expression

/-- Operands and operators, each in the order of the text. -/
structure Tokens where
  operands : List Binary64
  operators : List Operator
  deriving DecidableEq

/-- The operand written between two operators; none when no digit and no point is. Characters
that write no number are passed over. -/
def readOperand (piece : List Char) : Except Fault (Option Binary64) :=
  let literal := piece.filter isLiteral
  if literal.isEmpty then .ok none
  else match Numeral.ofText? literal with
    | some n => .ok (some n.toBinary64)
    | none => .error (.malformedNumber literal .notANumeral)

namespace Tokens

/-- Reads the operands between the operators of a text; the first malformed number is the fault. -/
def ofText (s : List Char) : Except Fault Tokens := do
  let operands ← (pieces s).mapM readOperand
  return ⟨operands.filterMap id, s.filterMap Operator.ofChar?⟩

/-- Multiplies each factor into the last of the terms read so far; a sum starts a new term.
The terms are kept last first. -/
def pushTerm (terms : List Binary64) (step : Operator × Binary64) : List Binary64 :=
  match step, terms with
  | (.times, x), t :: ts => t * x :: ts
  | (_, x), ts => x :: ts

/-- The sum of the terms from the left, from negative zero. -/
def sum (terms : List Binary64) : Binary64 := terms.foldl (· + ·) (.zero true)

/-- The value of the tokens. Their counts have to fit. -/
def value (t : Tokens) : Except Fault Binary64 :=
  match t.operands with
  | x :: xs =>
    if xs.length = t.operators.length then
      .ok (sum ((t.operators.zip xs).foldl pushTerm [x]).reverse)
    else .error (.countMismatch t.operands.length t.operators.length)
  | [] => .error (.countMismatch 0 t.operators.length)

end Tokens

def isForeign (c : Char) : Bool := !Text.isBlank c && !isAllowed c

/-- The value of an expression. Blanks are ignored wherever they stand, and any other character
that does not belong to expressions is a fault. -/
def evaluate (s : List Char) : Except Fault Binary64 :=
  match s.find? isForeign with
  | some c => .error (.invalidCharacter c)
  | none => do
    let text := clean s
    check text
    (← Tokens.ofText text).value

end FormDesk.Expression
