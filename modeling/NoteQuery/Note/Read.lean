import NoteQuery.File.Path
import NoteQuery.Note.Basic
import NoteQuery.Note.Frontmatter

/-!
# Reading notes
-/

namespace NoteQuery.Note

set_option autoImplicit false

/-- The note of a text at a path: its name is that of the file without the extension. -/
def ofText (path : RawText) (content : List Char) : Except FrontmatterError Note :=
  (Frontmatter.record content).map fun r => ⟨(Path.stem path).lossy, path, r⟩

end NoteQuery.Note
