import NoteQuery.Note.Metadata
import NoteQuery.Text.Lines

/-!
# Frontmatter

The metadata of a note stands between two lines of three hyphens at its top.
-/

namespace NoteQuery

set_option autoImplicit false

inductive FrontmatterError where
  | notOpened
  | notClosed
  | malformed
  | notAMapping (kind : String)
  deriving DecidableEq

def FrontmatterError.message : FrontmatterError → String
  | notOpened => "parse error: File must start with '---' frontmatter delimiter"
  | notClosed => "parse error: No closing '---' frontmatter delimiter found"
  | malformed => "serialization error: frontmatter is not valid YAML"
  | notAMapping kind => "serialization error: frontmatter must be a mapping, found " ++ kind

namespace Frontmatter

def mark : List Char := "---".toList

/-- A note without its byte order mark and the blanks at its start. -/
def body (note : List Char) : List Char :=
  match note with
  | '\ufeff' :: r => Text.trimStart r
  | r => Text.trimStart r

def isMark (line : List Char) : Bool := Text.trimEnd line == mark

def isOpened (note : List Char) : Bool := isMark ((Text.lines (body note)).headD [])

/-- The YAML of a note and what follows it. -/
def split (note : List Char) : Except FrontmatterError (List Char × List Char) :=
  if !isOpened note then .error .notOpened
  else
    let lines := (Text.pieces (body note)).drop 1
    match lines.dropWhile fun line => !isMark line with
    | [] => .error .notClosed
    | _ :: rest => .ok ((lines.takeWhile fun line => !isMark line).flatten, rest.flatten)

/-- The metadata of a text of YAML; blank text has none. -/
def recordOf (yaml : List Char) : Except FrontmatterError Record :=
  if (Text.trim yaml).isEmpty then .ok .empty
  else
    match Yaml.Datum.ofChars? yaml with
    | none => .error .malformed
    | some .null => .ok .empty
    | some (.mapping entries) => .ok (Record.ofList (Yaml.Datum.toFields entries))
    | some d => .error (.notAMapping d.kind)

def record (note : List Char) : Except FrontmatterError Record :=
  if !isOpened note then .ok .empty
  else
    match split note with
    | .error e => .error e
    | .ok (yaml, _) => recordOf yaml

end Frontmatter

end NoteQuery
