import FormDesk.Calculation
import FormDesk.FullName.Format

/-! What a submission leads to, ready to be shown. -/
namespace FormDesk

/-- The outcome of a submission. Only a success has a text to copy. -/
inductive Outcome where
  | success (text copied : List Char)
  | failure (text : List Char)
  deriving DecidableEq, Repr

namespace Outcome

def ofCalculation : Calculation → Outcome
  | .computed _ _ displayed copied => .success displayed copied
  | .refused _ fault => .failure fault.message

def ofName (n : FullName) : Outcome :=
  match n.format with
  | .ok s => .success s s
  | .error fault => .failure fault.message

def ofNothing : Outcome := .failure "please enter an expression".toList

def text : Outcome → List Char
  | .success text _ => text
  | .failure text => text

def copied? : Outcome → Option (List Char)
  | .success _ copied => some copied
  | .failure _ => none

def isSuccess : Outcome → Bool
  | .success .. => true
  | .failure _ => false

def line : Outcome → List Char
  | .success text _ => "Result: ".toList ++ text
  | .failure text => "Error: ".toList ++ text

/-- The outcome as an object, with its keys in alphabetical order. -/
def toJson : Outcome → Json.Object
  | .success text _ => [("result".toList, .string text), ("success".toList, .boolean true)]
  | .failure text => [("error".toList, .string text), ("success".toList, .boolean false)]

end Outcome

end FormDesk
