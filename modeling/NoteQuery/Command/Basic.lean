import NoteQuery.Template.Insert
import NoteQuery.Vault.Failure

/-!
# Commands

What can be asked of a vault, and why it can be refused.
-/

namespace NoteQuery

set_option autoImplicit false

inductive TableFormat where
  | markdown
  | json
  deriving DecidableEq

inductive Command where
  /-- The table of the query in a file; a hyphen stands for the standard input. -/
  | query (file : String) (format : TableFormat)
  | render (file : String) (inPlace : Bool)
  | templates
  | apply (template : String)
  | insert (template file : String) (line : Option Nat)
  deriving DecidableEq

/-- A command with the folder of its vault, and a template folder if it is not that of the settings. -/
structure Invocation where
  vault : String
  templateFolder : Option String
  command : Command
  deriving DecidableEq

inductive CommandError where
  | reading (file : String) (e : FileError)
  | readingInput (e : FileError)
  | query (e : QueryError)
  | failure (e : Failure)
  | line (e : LineError)
  | writing (file : String) (e : FileError)
  deriving DecidableEq

def CommandError.message : CommandError → String
  | reading file e => "reading " ++ file ++ ": " ++ e.message
  | readingInput e => "reading query from stdin: " ++ e.message
  | query e => e.message
  | failure e => e.fullMessage
  | line e => e.message
  | writing file e => "writing " ++ file ++ ": " ++ e.message

end NoteQuery
