import NoteQuery.File.Tree

/-!
# Disks

A disk is a tree with a working folder. A path is followed name by name; two dots lead back to the
folder above, and above the top there is only the top.
-/

namespace NoteQuery

set_option autoImplicit false

structure Disk where
  root : Tree
  /-- The place of the working folder. -/
  folder : List RawText

namespace Disk

/-- The place to which names lead from a place. Every step leaves a folder, and arrives at something. -/
def follow (root : Tree) (place : List RawText) : List RawText → Except FileError (List RawText)
  | [] => .ok place
  | name :: names =>
    match root.at? place with
    | .error e => .error e
    | .ok (.file _) => .error .notAFolder
    | .ok (.folder entries) =>
      if name = ".." then follow root place.dropLast names
      else if (entries.lookup name).isSome then follow root (place ++ [name]) names
      else .error .missing

def place (d : Disk) (path : RawText) : Except FileError (List RawText) :=
  if path = "" then .error .missing
  else follow d.root (if Path.isAbsolute path then [] else d.folder) (Path.names path)

def find? (d : Disk) (path : RawText) : Except FileError Tree := do
  let t ← d.root.at? (← d.place path)
  if Path.leadsToFolder path && t.isFile then .error .notAFolder else .ok t

def isFolder (d : Disk) (path : RawText) : Bool :=
  match d.find? path with
  | .ok t => t.isFolder
  | .error _ => false

def isFile (d : Disk) (path : RawText) : Bool :=
  match d.find? path with
  | .ok t => t.isFile
  | .error _ => false

def read (d : Disk) (path : RawText) : Except FileError String := do (← (← d.find? path).file?).text

def overwrite (d : Disk) (path : RawText) (text : String) : Except FileError Disk := do
  let f ← (← (← d.find? path).file?).overwrite text
  return { d with root := d.root.put (← d.place path) (.file f) }

end Disk

end NoteQuery
