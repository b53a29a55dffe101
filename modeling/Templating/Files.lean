import Templating.Json.Basic

namespace Templating

inductive ReadError where
  | missing
  | isDirectory
  | notDirectory
  | notText
  | nameTooLong
  | nulInName
  | other (message : String)
  deriving Repr, DecidableEq

def ReadError.message : ReadError → String
  | .missing => "No such file or directory (os error 2)"
  | .isDirectory => "Is a directory (os error 21)"
  | .notDirectory => "Not a directory (os error 20)"
  | .notText => "stream did not contain valid UTF-8"
  | .nameTooLong => "File name too long (os error 36)"
  | .nulInName => "file name contained an unexpected NUL byte"
  | .other message => message

/-- Whether nothing is known to stand at the path that could not be read. -/
def ReadError.isAbsent : ReadError → Bool
  | .missing => true
  | .notDirectory => true
  | .nameTooLong => true
  | .nulInName => true
  | _ => false

/-- Files as the commands see them: a path gives a text, or the reason why it gives none. -/
abbrev Files := String → Except ReadError String

/-- What the text of a file is read as. -/
inductive FileKind where
  | config
  | plan
  | map
  deriving Repr, DecidableEq

/-- A text that is no JSON of the kind that it is read as. -/
structure ParseError where
  kind : FileKind
  text : String
  fault : Json.Fault
  deriving Repr, DecidableEq

/-- What the parser says of the texts that it refuses. Its words are carried on as they are, and
whatever prints them takes them as a parameter. -/
abbrev Wording := ParseError → String

/-- The path of a file in a directory. -/
def joinPath (directory file : String) : String :=
  if directory = "" ∨ directory.endsWith "/" then directory ++ file else directory ++ "/" ++ file

end Templating
