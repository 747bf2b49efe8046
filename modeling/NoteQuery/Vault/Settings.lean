import NoteQuery.File.Path
import NoteQuery.Toml.Entry

/-!
# Settings of a vault

What a vault takes for notes and templates. A settings file sets any of them, each once.
-/

namespace NoteQuery

set_option autoImplicit false

structure Settings where
  templateFolder : String
  /-- The extension of notes, without its dot. -/
  extension : String
  /-- Whether files and folders count whose names start with a dot. -/
  includeHidden : Bool
  fence : String
  deriving DecidableEq

namespace Settings

def usual : Settings := ⟨"Template", "md", false, "fmq"⟩

def fileName : String := ".fmq.toml"

def set? (s : Settings) (e : Toml.Entry) : Option Settings :=
  match e.value with
  | .text cs =>
    let value := String.ofList cs
    if e.key = "template_dir".toList then some { s with templateFolder := value }
    else if e.key = "extension".toList then some { s with extension := value }
    else if e.key = "fence".toList then some { s with fence := value }
    else none
  | .bool b => if e.key = "include_hidden".toList then some { s with includeHidden := b } else none

def ofEntries? (es : List Toml.Entry) : Option Settings :=
  if (es.map Toml.Entry.key).Nodup then es.foldlM set? usual else none

def ofChars? (cs : List Char) : Option Settings := (Toml.entries? cs).bind ofEntries?

def shows (s : Settings) (name : RawText) : Bool :=
  s.includeHidden || name.lossy.toList.head? != some '.'

def isNote (s : Settings) (name : RawText) : Bool :=
  (Path.cutName name).2.bind RawText.text? == some s.extension

end Settings

end NoteQuery
