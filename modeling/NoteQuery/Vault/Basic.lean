import NoteQuery.File.Disk
import NoteQuery.Note.Read
import NoteQuery.Query.Run
import NoteQuery.Vault.Failure
import NoteQuery.Vault.Settings

/-!
# Vaults

A vault is a folder of notes with its settings. Its notes are the files with the right extension at
any depth, in the order of their names folder by folder.
-/

namespace NoteQuery

set_option autoImplicit false

mutual

/-- The notes of a tree: the places of their files, and the files. -/
def Tree.notes (s : Settings) : Tree → List (List RawText × File)
  | .file _ => []
  | .folder entries =>
    ((Tree.entryNotes s entries).mergeSort fun a b => decide (a.1 ≤ b.1)).flatMap (·.2)

def Tree.entryNotes (s : Settings) : List (RawText × Tree) → List (RawText × List (List RawText × File))
  | [] => []
  | (name, t) :: rest =>
    let found :=
      if !s.shows name then []
      else match t with
        | .file f => if s.isNote name then [([name], f)] else []
        | .folder entries => (Tree.notes s (.folder entries)).map fun (place, f) => (name :: place, f)
    (name, found) :: Tree.entryNotes s rest

end

structure Vault where
  root : RawText
  settings : Settings
  deriving DecidableEq

namespace Vault

def settingsAt (d : Disk) (root : RawText) : Except Failure Settings :=
  let path := Path.join root Settings.fileName
  if !d.isFile path then .ok .usual
  else
    match d.read path with
    | .error e => .error (.file e)
    | .ok text =>
      match Settings.ofChars? text.toList with
      | some s => .ok s
      | none => .error .settings

def openWith (d : Disk) (root : RawText) (s : Settings) : Except Failure Vault :=
  if d.isFolder root then .ok ⟨root, s⟩ else .error (.noVault root)

def openAt (d : Disk) (root : RawText) : Except Failure Vault :=
  if d.isFolder root then (settingsAt d root).map fun s => ⟨root, s⟩ else .error (.noVault root)

def pathOf (v : Vault) (place : List RawText) : RawText := Path.join v.root (Path.ofNames place)

def files (v : Vault) (d : Disk) : Except Failure (List (RawText × File)) :=
  match d.find? v.root with
  | .error e => .error (.file e)
  | .ok (.file _) => .error (.file .notAFolder)
  | .ok t => .ok ((t.notes v.settings).map fun (place, f) => (v.pathOf place, f))

def paths (v : Vault) (d : Disk) : Except Failure (List RawText) := (v.files d).map (List.map (·.1))

/-- The note of a file, unless it cannot be read or its metadata is faulty. -/
def note? (path : RawText) (f : File) : Option Note :=
  match f.text with
  | .error _ => none
  | .ok text => (Note.ofText path text.toList).toOption

def notes (v : Vault) (d : Disk) : Except Failure (List Note) :=
  (v.files d).map (List.filterMap fun (path, f) => note? path f)

def templateFolder (v : Vault) : RawText := Path.join v.root v.settings.templateFolder

/-- The names of the templates as they are shown: the files directly in the template folder. -/
def templates (v : Vault) (d : Disk) : Except Failure (List String) :=
  match d.find? v.templateFolder with
  | .ok (.folder entries) =>
    match (Tree.folder entries).fileNames with
    | [] => .error (.template (.noTemplates v.templateFolder))
    | names => .ok names
  | _ => .error (.template (.folderMissing v.templateFolder))

/-- The text of a template. A name is looked up among the templates before anything is read. -/
def template (v : Vault) (d : Disk) (name : String) : Except Failure String :=
  match v.templates d with
  | .error e => .error e
  | .ok names =>
    if name ∈ names then
      match d.read (Path.join v.templateFolder name) with
      | .ok text => .ok text
      | .error e => .error (.file e)
    else .error (.template (.unknown name))

end Vault

end NoteQuery
