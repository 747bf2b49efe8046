import NoteQuery.Command.Run
import Std.Time

/-!
# The command line

Takes from the disk what a command needs, runs the command, and carries out its effect. The system
is asked by texts here, so that only what has the name of a text is found.
-/

namespace NoteQuery.Main

set_option autoImplicit false

def pathText (place : List RawText) : String := "/" ++ (Path.ofNames place).lossy

def isFolder (place : List RawText) : IO Bool := do
  try (← IO.FS.realPath (pathText place)).isDir catch _ => return false

/-- Whether there is something at a place that is not a link. -/
def isPlain (place : List RawText) : IO Bool := do
  try
    let folder ← IO.FS.realPath (pathText place.dropLast)
    let self ← IO.FS.realPath (pathText place)
    return RawText.ofString self.toString == Path.join folder.toString (place.getLast?.getD "")
  catch _ => return false

def entryNames (place : List RawText) : IO (List RawText) := do
  try
    let entries ← (← IO.FS.realPath (pathText place)).readDir
    return entries.toList.map fun entry => entry.fileName
  catch _ => return []

def readFile (place : List RawText) : IO File := do
  try return .ofBytes (← IO.FS.readBinFile (pathText place)) catch _ => return ⟨.empty, false, true⟩

/-- A tree with a folder at a place, unless there is something already. -/
def putFolder (t : Tree) (place : List RawText) : Tree :=
  match t.at? place with
  | .ok (.folder _) => t
  | _ => t.put place (.folder [])

/-- Adds the folders on the way of some names from a place, and what stands at their end; a
folder without its entries. -/
def addPath (t : Tree) (place : List RawText) : List RawText → IO (Tree × List RawText)
  | [] => return (t, place)
  | name :: names => do
    if name == ".." then addPath t place.dropLast names
    else
      let child := place ++ [name]
      if ← isFolder child then addPath (putFolder t child) child names
      else
        try
          let _ ← IO.FS.realPath (pathText child)
          return (t.put child (.file (← readFile child)), child)
        catch _ => return (t, child)

def addFile (d : Disk) (path : RawText) : IO (Disk × List RawText) := do
  let start := if Path.isAbsolute path then [] else d.folder
  let (root, place) ← addPath d.root start (Path.names path)
  return ({ d with root := root }, place)

/-- Adds the entries of a folder, down to a depth. Only wanted files are read, and only
wanted folders are entered. -/
def addEntries (t : Tree) (place : List RawText) (isWanted : Bool → RawText → Bool) : Nat → IO Tree
  | 0 => return t
  | depth + 1 => do
    let mut t := t
    for name in ← entryNames place do
      let child := place ++ [name]
      if ← isPlain child then
        if ← isFolder child then
          t := putFolder t child
          if isWanted true name then t ← addEntries t child isWanted depth
        else if isWanted false name then t := t.put child (.file (← readFile child))
    return t

def anyDepth : Nat := 4096

/-- Adds the folder of a vault, with its notes and its templates where they are needed. -/
def addVault (d : Disk) (i : Invocation) : IO Disk := do
  let (d, place) ← addFile d i.vault
  let (d, _) ← addFile d (Path.join i.vault Settings.fileName)
  match i.openVault d with
  | .error _ => return d
  | .ok v =>
    let notes (d : Disk) : IO Disk := do
      let isWanted (folder : Bool) (name : RawText) : Bool :=
        v.settings.shows name && (folder || v.settings.isNote name)
      return { d with root := ← addEntries d.root place isWanted anyDepth }
    let templates : IO Disk := do
      let (d, place) ← addFile d v.templateFolder
      return { d with root := ← addEntries d.root place (fun folder _ => !folder) 1 }
    match i.command with
    | .query file _ => notes (← if file == "-" then pure d else return (← addFile d file).1)
    | .render file _ => notes (← addFile d file).1
    | .templates => templates
    | .apply _ => templates
    | .insert _ file _ => return (← addFile (← templates) file).1

partial def readInput (stream : IO.FS.Stream) (content : ByteArray) : IO ByteArray := do
  let more ← stream.read 65536
  if more.isEmpty then return content else readInput stream (content ++ more)

def clock : IO Instant := do
  let t ← Std.Time.PlainDateTime.now
  match Date.of? t.year.toInt t.month.toNat t.day.toNat with
  | some date => return ⟨date, t.hour.toNat, t.minute.toNat, t.second.toNat⟩
  | none => throw (IO.userError "the clock is out of range")

def surroundings (i : Invocation) : IO Surroundings := do
  let folder := Path.names (← IO.currentDir).toString
  let disk ← addVault ⟨(Tree.folder []).put folder (.folder []), folder⟩ i
  let input ← match i.command with
    | .query "-" _ => readInput (← IO.getStdin) .empty
    | _ => pure .empty
  return ⟨disk, .ofBytes input, ← clock⟩

def fileError : IO.Error → FileError
  | .noFileOrDirectory .. => .missing
  | .permissionDenied .. => .denied
  | e => .other (toString e)

def perform (effect : Effect) : IO Outcome := do
  match effect with
  | .print text => return .success text
  | .overwrite file text =>
    try
      IO.FS.writeFile file text
      return .success ""
    catch e => return .failed (.writing file (fileError e))

def usage : String :=
  "usage: fmq [--vault DIR] [--template-dir DIR] [-v | -q] query [FILE] [--format markdown|json]
       fmq render FILE [--in-place]
       fmq template list
       fmq template apply NAME [--into FILE [--line N]]"

def outcome (words : List String) : IO Outcome := do
  match Request.ofWords? words with
  | none =>
    IO.eprintln usage
    return .misuse
  | some .version => return .success versionText
  | some (.invoke i) =>
    match i.effect (← surroundings i) with
    | .error e => return .failed e
    | .ok effect => perform effect

end NoteQuery.Main

def main (words : List String) : IO UInt32 := do
  let outcome ← NoteQuery.Main.outcome words
  IO.print outcome.output
  if let some e := outcome.error then IO.eprintln e
  return UInt32.ofNat outcome.code
