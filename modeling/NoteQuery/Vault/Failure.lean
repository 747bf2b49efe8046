import NoteQuery.File.Tree
import NoteQuery.Note.Frontmatter
import NoteQuery.Query.Clause

/-!
# Failures

What can go wrong with a vault, and how it is told.
-/

namespace NoteQuery

set_option autoImplicit false

inductive TemplateError where
  | folderMissing (path : RawText)
  | noTemplates (path : RawText)
  | unknown (name : String)
  deriving DecidableEq

def TemplateError.message : TemplateError → String
  | folderMissing path => "template folder not found at " ++ path.lossy
  | noTemplates path => "no template files found in " ++ path.lossy
  | unknown name => "template '" ++ name ++ "' not found"

inductive Failure where
  | query (e : QueryError)
  | template (e : TemplateError)
  | noVault (path : RawText)
  | frontmatter (e : FrontmatterError)
  | settings
  | file (e : FileError)
  deriving DecidableEq

namespace Failure

def message : Failure → String
  | query e => "query error: " ++ e.message
  | template e => "template error: " ++ e.message
  | noVault path => "vault error: no vault folder found at " ++ path.lossy
  | frontmatter e => e.message
  | settings => "serialization error: .fmq.toml: not valid settings"
  | file e => "io error: " ++ e.message

/-- The failure behind a failure, which is told after it. -/
def cause? : Failure → Option String
  | query e => some e.message
  | template e => some e.message
  | file e => some e.message
  | _ => none

/-- The message with that of the cause. -/
def fullMessage (f : Failure) : String :=
  match f.cause? with
  | some cause => f.message ++ ": " ++ cause
  | none => f.message

end Failure

end NoteQuery
