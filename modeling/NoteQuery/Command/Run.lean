import NoteQuery.Command.Request
import NoteQuery.Query.Run
import NoteQuery.Template.Placeholder
import NoteQuery.Vault.Basic

/-!
# Running commands

A command that succeeds either prints a text or gives one file another text. A
command that fails does neither.
-/

namespace NoteQuery

set_option autoImplicit false

/-- What a command finds when it starts. -/
structure Surroundings where
  disk : Disk
  input : File
  now : Instant

/-- What a command is about to do. -/
inductive Effect where
  | print (text : String)
  | overwrite (file text : String)
  deriving DecidableEq

namespace Invocation

def openVault (i : Invocation) (d : Disk) : Except CommandError Vault :=
  match Vault.openAt d i.vault with
  | .error e => .error (.failure e)
  | .ok v => .ok { v with settings.templateFolder := i.templateFolder.getD v.settings.templateFolder }

def queryText (s : Surroundings) (file : String) : Except CommandError String :=
  if file = "-" then s.input.text.mapError .readingInput else (s.disk.read file).mapError (.reading file)

def tableText (format : TableFormat) (t : Table) : String :=
  match format with
  | .markdown => t.markdown
  | .json => t.json

/-- The table of a query. The query is read before the vault is opened. -/
def queryEffect (i : Invocation) (s : Surroundings) (file : String) (format : TableFormat) :
    Except CommandError Effect := do
  let text ← queryText s file
  let query ← (Query.ofText text).mapError .query
  let vault ← i.openVault s.disk
  let notes ← (vault.notes s.disk).mapError .failure
  return .print (tableText format (query.run notes) ++ "\n")

def renderEffect (i : Invocation) (s : Surroundings) (file : String) (inPlace : Bool) :
    Except CommandError Effect := do
  let note ← (s.disk.read file).mapError (.reading file)
  let vault ← i.openVault s.disk
  let page ← (Block.queries vault.settings.fence.toList note.toList).mapError fun e =>
    .failure (.query e)
  let notes ← (vault.notes s.disk).mapError .failure
  let text := String.ofList (Block.tables notes page)
  return if inPlace then .overwrite file text else .print text

def templatesEffect (i : Invocation) (s : Surroundings) : Except CommandError Effect := do
  let vault ← i.openVault s.disk
  let names ← (vault.templates s.disk).mapError .failure
  return .print (String.join (names.map (· ++ "\n")))

def expanded (i : Invocation) (s : Surroundings) (template : String) :
    Except CommandError (List Char) := do
  let vault ← i.openVault s.disk
  let text ← (vault.template s.disk template).mapError .failure
  return Placeholder.expand s.now text.toList

def insertEffect (i : Invocation) (s : Surroundings) (template file : String) (line : Option Nat) :
    Except CommandError Effect := do
  let text ← i.expanded s template
  let content ← (s.disk.read file).mapError (.reading file)
  let updated ← (Text.insertAt content.toList text line).mapError .line
  return .overwrite file (String.ofList updated)

def effect (i : Invocation) (s : Surroundings) : Except CommandError Effect :=
  match i.command with
  | .query file format => i.queryEffect s file format
  | .render file inPlace => i.renderEffect s file inPlace
  | .templates => i.templatesEffect s
  | .apply template => (i.expanded s template).map fun text => .print (String.ofList text)
  | .insert template file line => i.insertEffect s template file line

end Invocation

/-- What the program leaves: an exit code, what it prints, and why it failed. -/
structure Outcome where
  code : Nat
  output : String
  error : Option String
  deriving DecidableEq

namespace Outcome

def success (output : String) : Outcome := ⟨0, output, none⟩

def failed (e : CommandError) : Outcome := ⟨1, "", some ("error: " ++ e.message)⟩

def misuse : Outcome := ⟨2, "", none⟩

end Outcome

def Effect.perform (d : Disk) : Effect → Outcome × Disk
  | print text => (.success text, d)
  | overwrite file text =>
    match d.overwrite file text with
    | .ok d => (.success "", d)
    | .error e => (.failed (.writing file e), d)

def versionText : String := "fmq 0.2.0\n"

def Surroundings.run (s : Surroundings) (words : List String) : Outcome × Disk :=
  match Request.ofWords? words with
  | none => (.misuse, s.disk)
  | some .version => (.success versionText, s.disk)
  | some (.invoke i) =>
    match i.effect s with
    | .error e => (.failed e, s.disk)
    | .ok effect => effect.perform s.disk

end NoteQuery
