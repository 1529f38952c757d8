import FormDesk.FullName.Basic

/-! Command lines: the commands, the options and the ways to misuse them. -/
namespace FormDesk.CommandLine

inductive CommandName where
  | eval
  | validate
  | clean
  | name
  | repl
  deriving DecidableEq, Repr

namespace CommandName

def all : List CommandName := [.eval, .validate, .clean, .name, .repl]

def text : CommandName → List Char
  | .eval => "eval".toList
  | .validate => "validate".toList
  | .clean => "clean".toList
  | .name => "name".toList
  | .repl => "repl".toList

def ofText? (s : List Char) : Option CommandName := all.find? (·.text == s)

/-- The greatest number of words after a command. -/
def capacity? : CommandName → Option Nat
  | .eval => none
  | .validate => none
  | .clean => none
  | .name => some 3
  | .repl => some 0

end CommandName

inductive Command where
  | eval (words : List (List Char)) (copy : Bool)
  | validate (words : List (List Char))
  | clean (words : List (List Char))
  | name (n : FullName)
  | repl
  deriving DecidableEq, Repr

structure Invocation where
  config : Option (List Char)
  json : Bool
  command : Command
  deriving DecidableEq, Repr

/-- Why a command line is not carried out: it asks for information, or it is not understood. -/
inductive Usage where
  | help
  | version
  /-- There are no arguments at all. -/
  | nothing
  | missingCommand
  | unknownCommand
  | unknownArgument
  | missingArgument
  /-- An option lacks its value, or has an empty one. -/
  | missingValue
  /-- A flag has a value. -/
  | needlessValue
  /-- An option is given twice at one level. -/
  | repeated
  deriving DecidableEq, Repr

end FormDesk.CommandLine
