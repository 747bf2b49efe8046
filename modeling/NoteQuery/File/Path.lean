import NoteQuery.File.RawText
import NoteQuery.Text.Blank

/-!
# Paths

Names separated by slashes. Empty names and single dots count only at the start of a path.
-/

namespace NoteQuery.Path

set_option autoImplicit false

def slash : UInt8 := 0x2F

def dot : UInt8 := 0x2E

def names (path : RawText) : List RawText :=
  ((Text.splitOn (· == slash) path.bytes).map RawText.mk).filter fun name => name != "" && name != "."

/-- The last name of a path, unless it leads to a parent folder. -/
def fileName? (path : RawText) : Option RawText := (names path).getLast?.filter (· != "..")

/-- A file name in two at its last dot; a dot at the start belongs to the name. -/
def cutName (name : RawText) : RawText × Option RawText :=
  let ending := (name.bytes.reverse.takeWhile (· != dot)).reverse
  let stem := name.bytes.take (name.bytes.length - ending.length - 1)
  if stem = [] then (name, none) else (⟨stem⟩, some ⟨ending⟩)

def stem (path : RawText) : RawText := ((fileName? path).map fun name => (cutName name).1).getD ""

def extension? (path : RawText) : Option RawText := (fileName? path).bind fun name => (cutName name).2

/-- Whether a path can only be that of a folder. -/
def leadsToFolder (path : RawText) : Bool :=
  let ending := path.bytes.reverse
  ending.head? == some slash || ending.take 2 == [dot, slash]

def isAbsolute (path : RawText) : Bool := path.bytes.head? == some slash

/-- The path of a file in a folder; an absolute path stays as it is. -/
def join (folder path : RawText) : RawText :=
  if isAbsolute path then path
  else if folder.bytes.isEmpty || folder.bytes.getLast? == some slash then ⟨folder.bytes ++ path.bytes⟩
  else ⟨folder.bytes ++ slash :: path.bytes⟩

def ofNames (place : List RawText) : RawText := ⟨[slash].intercalate (place.map RawText.bytes)⟩

end NoteQuery.Path
