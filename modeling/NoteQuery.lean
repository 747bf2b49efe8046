import NoteQuery.Main
import NoteQuery.Proofs.Expr.Acceptance
import NoteQuery.Proofs.Expr.Printing
import NoteQuery.Proofs.Query.FieldIndex
import NoteQuery.Proofs.Query.FieldValue
import NoteQuery.Proofs.Query.Layout
import NoteQuery.Proofs.Query.Rerender
import NoteQuery.Proofs.Query.Selection
import NoteQuery.Proofs.Query.TableCells
import NoteQuery.Proofs.Query.TagSpelling
import NoteQuery.Proofs.Template.Expansion
import NoteQuery.Proofs.Value.Comparison
import NoteQuery.Proofs.Query.FirstFault
import NoteQuery.Proofs.Note.FrontmatterParts
import NoteQuery.Proofs.Calendar.Digits
import NoteQuery.Proofs.Calendar.Readback
import NoteQuery.Proofs.Calendar.Succession
import NoteQuery.Proofs.Template.Days
import NoteQuery.Proofs.Template.Insertion
import NoteQuery.Proofs.Number.Rounding
import NoteQuery.Proofs.Value.NumberText
import NoteQuery.Proofs.File.Naming
import NoteQuery.Proofs.File.Reordering
import NoteQuery.Proofs.Vault.Discovery
import NoteQuery.Proofs.Command.Effects
import NoteQuery.Proofs.Query.QuotedScalar
import NoteQuery.Proofs.Template.Isolation
import NoteQuery.Proofs.Template.Today
import NoteQuery.Proofs.Value.PropertySpelling
import NoteQuery.Proofs.Calendar.OneReading
import NoteQuery.Proofs.Query.LineEnds
import NoteQuery.Proofs.Query.TagList
import NoteQuery.Proofs.Value.JsonReading
import NoteQuery.Proofs.Value.RecordText
import NoteQuery.Proofs.Vault.Templates
