import FormDesk.Run

/-! Copying the value of an expression, when the command or the settings ask for it. A clipboard
that fails leaves a warning. -/
namespace FormDesk

/-- A clipboard takes a text, or fails for a reason. -/
abbrev Clipboard := List Char → Except (List Char) Unit

namespace Clipboard

/-- The clipboard of a machine that has none. -/
def missing : Clipboard := fun _ => .error "Failed to access clipboard".toList

def warning? (clipboard : Clipboard) (text : List Char) : Option (List Char) :=
  match clipboard text with
  | .ok () => none
  | .error reason => some reason

end Clipboard

/-- The text that a command copies. Names are not copied. -/
def Run.copied? (settings : Settings) (i : CommandLine.Invocation) : Option (List Char) :=
  match i.command with
  | .eval words copy =>
    if copy || settings.clipboard.copyResults then
      match Calculation.ofText settings.display (Text.trim (Text.unwords words)) with
      | .ok c => c.copied?
      | .error _ => none
    else none
  | _ => none

/-- A run with the warnings about what it copies. -/
structure Session where
  run : Run
  warnings : List (List Char)
  deriving DecidableEq, Repr

/-- Runs a command and then copies what it asks to be copied. -/
def Session.ofInvocation (clipboard : Clipboard) (settings : Settings)
    (i : CommandLine.Invocation) (input : List UInt8) : Session where
  run := Run.ofInvocation settings i input
  warnings := ((Run.copied? settings i).bind clipboard.warning?).toList

end FormDesk
