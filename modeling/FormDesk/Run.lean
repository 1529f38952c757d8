import FormDesk.CommandLine.Basic
import FormDesk.Settings
import FormDesk.Submission
import FormDesk.Text.Basic

/-! The answers of the commands, each one line, and the run of a command over its input. -/
namespace FormDesk

/-- One line of output, and whether the submission was accepted. -/
structure Answer where
  line : List Char
  isAccepted : Bool
  deriving DecidableEq, Repr

namespace Answer

def ofOutcome (json : Bool) (o : Outcome) : Answer :=
  ⟨if json then o.toJson.text else o.line, o.isSuccess⟩

/-- The answer to an expression. As an object it holds the value itself and not its text. -/
def ofExpression (settings : DisplaySettings) (json : Bool) (s : List Char) :
    Except PrecisionTooLarge Answer :=
  if (Text.trim s).isEmpty then .ok (ofOutcome json .ofNothing)
  else (Calculation.ofText settings (Text.trim s)).map fun c =>
    if json then ⟨c.toJson.text, c.isSuccess⟩ else ofOutcome false (.ofCalculation c)

def ofName (json : Bool) (n : FullName) : Answer := ofOutcome json (.ofName n)

def ofLine (settings : DisplaySettings) (json : Bool) (s : List Char) :
    Except PrecisionTooLarge Answer :=
  match Submission.ofLine s with
  | .nothing => .ok (ofOutcome json .ofNothing)
  | .expression => ofExpression settings json s
  | .name => .ok (ofName json (Submission.nameOfLine s))

def ofFeedback (json : Bool) (f : Expression.Feedback) : Answer :=
  ⟨if json then f.toJson.text
    else (if f.isValid then "ok: ".toList else "invalid: ".toList) ++ f.message, f.isValid⟩

end Answer

inductive Ending where
  | completed (allAccepted : Bool)
  /-- A line of the input is not UTF-8. -/
  | unreadableInput
  /-- A value cannot be written with the precision of the settings. -/
  | aborted (reason : PrecisionTooLarge)
  deriving DecidableEq, Repr

/-- The ending after one more answer. -/
def Ending.and (isAccepted : Bool) : Ending → Ending
  | .completed allAccepted => .completed (isAccepted && allAccepted)
  | ending => ending

/-- The lines written by a run, and its ending. -/
structure Run where
  lines : List (List Char)
  ending : Ending
  deriving DecidableEq, Repr

namespace Run

def output (r : Run) : List Char := r.lines.flatMap (· ++ ['\n'])

def cons (a : Answer) (r : Run) : Run := ⟨a.line :: r.lines, r.ending.and a.isAccepted⟩

@[simp] theorem output_cons (a : Answer) (r : Run) :
    (r.cons a).output = a.line ++ '\n' :: r.output := by
  simp [output, cons]

def ofAnswer (a : Answer) : Run := ⟨[a.line], .completed a.isAccepted⟩

def ofAnswer? : Except PrecisionTooLarge Answer → Run
  | .ok a => ofAnswer a
  | .error e => ⟨[], .aborted e⟩

/-- Answers the lines of an input up to the first that cannot be read or answered. -/
def ofLines (settings : DisplaySettings) (json : Bool) : List (List UInt8) → Run
  | [] => ⟨[], .completed true⟩
  | bytes :: rest => match Text.ofUtf8? bytes with
    | none => ⟨[], .unreadableInput⟩
    | some s => match Answer.ofLine settings json s with
      | .error e => ⟨[], .aborted e⟩
      | .ok a => (ofLines settings json rest).cons a

/-- Runs a command. Only a dialogue reads the input. Nothing depends on what is copied to the
clipboard. -/
def ofInvocation (settings : Settings) (i : CommandLine.Invocation) (input : List UInt8) : Run :=
  match i.command with
  | .eval words _ => ofAnswer? (Answer.ofExpression settings.display i.json (Text.unwords words))
  | .validate words =>
    ofAnswer (Answer.ofFeedback i.json (Expression.feedback (Text.unwords words)))
  | .clean words => ofAnswer ⟨Expression.clean (Text.unwords words), true⟩
  | .name n => ofAnswer (Answer.ofName i.json n)
  | .repl => ofLines settings.display i.json (Text.byteLines input)

end Run

end FormDesk
