import FormDesk.Text.Basic
import FormDesk.Text.Case

/-! Full names in parts, and the tidy spelling of a part. -/
namespace FormDesk

inductive NamePart where
  | surname
  | firstName
  | patronymic
  deriving DecidableEq, Repr

def NamePart.label : NamePart → List Char
  | .surname => "Surname".toList
  | .firstName => "First name".toList
  | .patronymic => "Patronymic".toList

structure FullName where
  surname : List Char
  firstName : List Char
  patronymic : Option (List Char)
  deriving DecidableEq, Repr

namespace FullName

/-- The parts that are present, in order. -/
def parts (n : FullName) : List (NamePart × List Char) :=
  [(.surname, n.surname), (.firstName, n.firstName)] ++
    n.patronymic.toList.map fun p => (.patronymic, p)

/-- A word with its first character in upper case and the others in lower case. A hyphen does not
start another word. -/
def capitalize : List Char → List Char
  | [] => []
  | c :: s => Text.upper c ++ s.flatMap Text.lower

/-- A part in tidy spelling: capitalized words with single spaces between them. -/
def tidyPart (s : List Char) : List Char := Text.unwords ((Text.words s).map capitalize)

/-- A name in tidy spelling, without a patronymic that holds no word. -/
def tidy (n : FullName) : FullName where
  surname := tidyPart n.surname
  firstName := tidyPart n.firstName
  patronymic := (n.patronymic.map tidyPart).filter (!·.isEmpty)

end FullName

end FormDesk
