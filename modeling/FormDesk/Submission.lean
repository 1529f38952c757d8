import FormDesk.Outcome
import FormDesk.Text.Letter

/-! Lines as they are submitted: nothing, an expression, or a name. -/
namespace FormDesk

inductive Submission where
  | nothing
  | expression
  | name
  deriving DecidableEq, Repr

namespace Submission

/-- Letters, hyphens and blanks, with a letter among them. -/
def isNameLike (s : List Char) : Bool :=
  s.all (fun c => Text.isLetter c || c == '-' || Text.isBlank c) && s.any Text.isLetter

/-- Two words or more in which only letters and hyphens stand are a name; any other line with a
character that is not blank is an expression. -/
def ofLine (s : List Char) : Submission :=
  if s.all Text.isBlank then .nothing
  else if isNameLike s && decide (2 ≤ (Text.words s).length) then .name
  else .expression

/-- The name that a line of words holds: surname, first name, and the rest as patronymic. -/
def nameOfLine (s : List Char) : FullName :=
  match Text.words s with
  | surname :: firstName :: rest => ⟨surname, firstName, some (Text.unwords rest)⟩
  | [surname] => ⟨surname, [], some []⟩
  | [] => ⟨[], [], some []⟩

end Submission

end FormDesk
