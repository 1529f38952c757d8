import FormDesk.Expression.Evaluate
import FormDesk.Json.Text
import FormDesk.ValueText

/-! A submitted expression and what came of it. -/
namespace FormDesk

/-- The answer to a submitted expression: a value and its two texts, or a fault. -/
inductive Calculation where
  | computed (expression : List Char) (value : Binary64) (displayed copied : List Char)
  | refused (expression : List Char) (fault : Expression.Fault)
  deriving DecidableEq

namespace Calculation

/-- Evaluates an expression. The only failure is a value that cannot be written with the
precision of the settings; a refused expression is an answer. -/
def ofText (settings : DisplaySettings) (s : List Char) : Except PrecisionTooLarge Calculation :=
  match Expression.evaluate s with
  | .error fault => .ok (.refused (Text.trim s) fault)
  | .ok value => do
    let displayed ← ValueText.displayed value settings
    let copied ← ValueText.plain value settings.precision.toNat
    return .computed (Text.trim s) value displayed copied

/-- The submitted expression without the blanks around it. -/
def expression : Calculation → List Char
  | .computed e _ _ _ => e
  | .refused e _ => e

def isSuccess : Calculation → Bool
  | .computed .. => true
  | .refused .. => false

def value? : Calculation → Option Binary64
  | .computed _ v _ _ => some v
  | .refused .. => none

def message? : Calculation → Option (List Char)
  | .computed .. => none
  | .refused _ fault => some fault.message

def line : Calculation → List Char
  | .computed _ _ displayed _ => displayed
  | .refused _ fault => fault.message

def copied? : Calculation → Option (List Char)
  | .computed _ _ _ copied => some copied
  | .refused .. => none

def toJson : Calculation → Json.Object
  | .computed _ value _ _ => [("success".toList, .boolean true), ("result".toList, .number value)]
  | .refused _ fault => [("success".toList, .boolean false), ("error".toList, .string fault.message)]

end Calculation

def Expression.Feedback.toJson (f : Expression.Feedback) : Json.Object :=
  [("isValid".toList, .boolean f.isValid), ("message".toList, .string f.message)]

end FormDesk
