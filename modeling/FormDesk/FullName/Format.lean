import FormDesk.FullName.Basic

/-! The rules for the parts of a name, applied rule by rule and within a rule part by part, and
names written as a surname and initials. -/
namespace FormDesk

/-- What each part of a name has to comply with, in the order of application. -/
inductive NameRule where
  /-- At least two characters. -/
  | minimumLength
  /-- Latin and Cyrillic letters, hyphens and blanks only. -/
  | characterSet
  /-- At least one letter, and nothing but letters beside hyphens and blanks. -/
  | lettersOnly
  deriving DecidableEq, Repr

inductive NameFault where
  | missingRequired
  | broken (rule : NameRule) (part : NamePart)
  deriving DecidableEq, Repr

def NameFault.message : NameFault → List Char
  | .missingRequired => "Surname and first name are required".toList
  | .broken .minimumLength part => part.label ++ " must contain at least 2 characters".toList
  | .broken .characterSet part => part.label ++ " contains invalid characters".toList
  | .broken .lettersOnly part => part.label ++ " must contain only letters".toList

namespace NameRule

def all : List NameRule := [.minimumLength, .characterSet, .lettersOnly]

/-- The letters of the Latin and the Russian alphabet. -/
def isNameLetter (c : Char) : Bool :=
  ('A' ≤ c && c ≤ 'Z') || ('a' ≤ c && c ≤ 'z') || ('А' ≤ c && c ≤ 'Я') || ('а' ≤ c && c ≤ 'я') ||
    c == 'Ё' || c == 'ё'

/-- Hyphens and blanks, which may stand between the letters of a name. -/
def isSeparator (c : Char) : Bool := c == '-' || Text.isBlank c

def isBroken (rule : NameRule) (s : List Char) : Bool :=
  match rule with
  | .minimumLength => s.length < 2
  | .characterSet => s.any fun c => !isNameLetter c && !isSeparator c
  | .lettersOnly =>
    let letters := s.filter (!isSeparator ·)
    letters.isEmpty || letters.any (!isNameLetter ·)

def firstBroken? (rule : NameRule) (n : FullName) : Option NamePart :=
  (n.parts.find? fun p => rule.isBroken p.2).map Prod.fst

end NameRule

/-- Accepts names whose parts comply with every rule, and names the first rule that some part
breaks, with the first such part. -/
def FullName.check (n : FullName) : Except NameFault Unit :=
  match NameRule.all.findSome? fun rule => (rule.firstBroken? n).map (NameFault.broken rule) with
  | some fault => .error fault
  | none => .ok ()

namespace FullName

def initial : List Char → List Char
  | [] => []
  | c :: _ => [c, '.']

/-- The surname and the initials of the other parts, as they stand. -/
def initials (n : FullName) : List Char :=
  Text.trim (n.surname ++ ' ' :: (initial n.firstName ++ (n.patronymic.map initial).getD []))

/-- Tidies, checks and writes a name. The surname and the first name have to hold a word. -/
def format (n : FullName) : Except NameFault (List Char) :=
  if (Text.trim n.surname).isEmpty || (Text.trim n.firstName).isEmpty then .error .missingRequired
  else do
    n.tidy.check
    return n.tidy.initials

/-- The written name, or the fault behind `Error: `. -/
def answer (n : FullName) : List Char :=
  match n.format with
  | .ok s => s
  | .error fault => "Error: ".toList ++ fault.message

end FullName

end FormDesk
