import NoteQuery.File.Path

/-!
# Files and folders

A tree of files and folders. A place in it is the list of the names that lead there from the top.
-/

namespace NoteQuery

set_option autoImplicit false

inductive FileError where
  | missing
  | denied
  | notAFolder
  | isAFolder
  | notText
  /-- Another reason, in the words of the system. -/
  | other (reason : String)
  deriving DecidableEq

def FileError.message : FileError → String
  | missing => "No such file or directory (os error 2)"
  | denied => "Permission denied (os error 13)"
  | notAFolder => "Not a directory (os error 20)"
  | isAFolder => "Is a directory (os error 21)"
  | notText => "stream did not contain valid UTF-8"
  | other reason => reason

structure File where
  content : ByteArray
  readable : Bool
  writable : Bool

namespace File

def ofBytes (content : ByteArray) : File := ⟨content, true, true⟩

def ofText (text : String) : File := ofBytes text.toUTF8

def text (f : File) : Except FileError String :=
  if f.readable then
    match String.fromUTF8? f.content with
    | some s => .ok s
    | none => .error .notText
  else .error .denied

def overwrite (f : File) (text : String) : Except FileError File :=
  if f.writable then .ok { f with content := text.toUTF8 } else .error .denied

end File

/-- A file, or a folder with its entries, whose names differ and stand in any order. -/
inductive Tree where
  | file (f : File)
  | folder (entries : List (RawText × Tree))

namespace Tree

instance : Inhabited Tree := ⟨folder []⟩

def isFolder : Tree → Bool
  | file _ => false
  | folder _ => true

def isFile : Tree → Bool
  | file _ => true
  | folder _ => false

def file? : Tree → Except FileError File
  | file f => .ok f
  | folder _ => .error .isAFolder

/-- What stands at a place. -/
def at? : Tree → List RawText → Except FileError Tree
  | t, [] => .ok t
  | file _, _ :: _ => .error .notAFolder
  | folder entries, name :: place =>
    match entries.lookup name with
    | none => .error .missing
    | some t => at? t place

/-- The entries of a folder with one of them replaced, or added behind the others. -/
def putEntry (name : RawText) (t : Tree) : List (RawText × Tree) → List (RawText × Tree)
  | [] => [(name, t)]
  | (other, old) :: rest =>
    if other = name then (name, t) :: rest else (other, old) :: putEntry name t rest

/-- A tree with another tree at a place. Folders on the way to it are made. -/
def put (t : Tree) (place : List RawText) (new : Tree) : Tree :=
  match place with
  | [] => new
  | name :: place =>
    match t with
    | file _ => folder [(name, put (folder []) place new)]
    | folder entries =>
      folder (putEntry name (put ((entries.lookup name).getD (folder [])) place new) entries)

/-- The names of the files directly in a folder. -/
def ownNames (entries : List (RawText × Tree)) : List RawText :=
  (entries.filter fun (_, t) => t.isFile).map (·.1)

/-- The texts by which the names of those files are shown, in order. -/
def fileNames : Tree → List String
  | file _ => []
  | folder entries => ((ownNames entries).map RawText.lossy).mergeSort fun a b => decide (a ≤ b)

end Tree

end NoteQuery
