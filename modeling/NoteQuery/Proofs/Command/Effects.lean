import NoteQuery.Command.Run
import NoteQuery.Proofs.File.Overwriting
import NoteQuery.Proofs.Text.Slice

/-!
# What commands change

A command reads all it needs and decides on its effect before anything happens. So a command that
fails has printed nothing and leaves the disk as it was, and one that succeeds has changed no
file but the one it was told to.
-/

namespace NoteQuery

set_option autoImplicit false

/-- The file that a command may overwrite. -/
def Command.target? : Command → Option String
  | .render file true => some file
  | .insert _ file _ => some file
  | _ => none

namespace Invocation

variable {i : Invocation} {s : Surroundings} {file text : String}

theorem target?_of_effect (h : i.effect s = .ok (.overwrite file text)) :
    i.command.target? = some file := by
  obtain ⟨vault, templateFolder, command⟩ := i
  -- Each command is followed through its steps to the effect at its end.
  cases command with
  | query note format =>
    obtain ⟨_, -, h⟩ := exists_of_bind_eq_ok h
    obtain ⟨_, -, h⟩ := exists_of_bind_eq_ok h
    obtain ⟨_, -, h⟩ := exists_of_bind_eq_ok h
    obtain ⟨_, -, h⟩ := exists_of_bind_eq_ok h
    cases h
  | render note inPlace =>
    obtain ⟨_, -, h⟩ := exists_of_bind_eq_ok h
    obtain ⟨_, -, h⟩ := exists_of_bind_eq_ok h
    obtain ⟨_, -, h⟩ := exists_of_bind_eq_ok h
    obtain ⟨_, -, h⟩ := exists_of_bind_eq_ok h
    cases inPlace with
    | false => cases h
    | true =>
      cases h
      rfl
  | templates =>
    obtain ⟨_, -, h⟩ := exists_of_bind_eq_ok h
    obtain ⟨_, -, h⟩ := exists_of_bind_eq_ok h
    cases h
  | apply template =>
    obtain ⟨_, -, h⟩ := Segment.exists_of_map_eq_ok h
    cases h
  | insert template target line =>
    obtain ⟨_, -, h⟩ := exists_of_bind_eq_ok h
    obtain ⟨_, -, h⟩ := exists_of_bind_eq_ok h
    obtain ⟨_, -, h⟩ := exists_of_bind_eq_ok h
    cases h
    rfl

end Invocation

namespace Surroundings

/-- A run leaves the disk alone, or it ends with the target of its command overwritten. -/
theorem run_cases (s : Surroundings) (words : List String) :
    ((s.run words).2 = s.disk ∧ ((s.run words).1.code ≠ 0 → (s.run words).1.output = "")) ∨
      ∃ i file text d, Request.ofWords? words = some (.invoke i) ∧ i.command.target? = some file ∧
        s.disk.overwrite file text = .ok d ∧ s.run words = (.success "", d) := by
  rw [run]
  split
  · exact .inl ⟨rfl, fun _ => rfl⟩
  · exact .inl ⟨rfl, fun h => absurd rfl h⟩
  · rename_i i hwords
    split
    · exact .inl ⟨rfl, fun _ => rfl⟩
    · rename_i effect heffect
      cases effect with
      | print text => exact .inl ⟨rfl, fun h => absurd rfl h⟩
      | overwrite file text =>
        rw [Effect.perform]
        cases hwrite : s.disk.overwrite file text with
        | error e => exact .inl ⟨rfl, fun _ => rfl⟩
        | ok d => exact .inr ⟨i, file, text, d, hwords,
          Invocation.target?_of_effect heffect, hwrite, rfl⟩

/-- The query is read before the vault, so the vault has no part in how a faulty query fails. -/
theorem run_faulty_query {s : Surroundings} {words : List String} {i : Invocation} {file text : String}
    {format : TableFormat} {e : QueryError} (hwords : Request.ofWords? words = some (.invoke i))
    (hcommand : i.command = .query file format) (htext : Invocation.queryText s file = .ok text)
    (hquery : Query.ofText text = .error e) :
    s.run words = (.failed (.query e), s.disk) := by
  have heffect : i.effect s = .error (.query e) := by
    simp only [Invocation.effect, hcommand, Invocation.queryEffect, htext, bind, Except.bind,
      hquery, Except.mapError]
  simp only [run, hwords, heffect]

theorem run_writes_target_only (s : Surroundings) (words : List String) :
    ((s.run words).1.code ≠ 0 → (s.run words).1.output = "" ∧ (s.run words).2 = s.disk) ∧
    ((s.run words).1.code = 0 → (s.run words).2.folder = s.disk.folder ∧
      ∀ place, (s.run words).2.root.fileAt place ≠ s.disk.root.fileAt place →
        ∃ i file, Request.ofWords? words = some (.invoke i) ∧ i.command.target? = some file ∧
          s.disk.place file = .ok place) ∧
    ∀ i file format text e, Request.ofWords? words = some (.invoke i) → i.command = .query file format →
      Invocation.queryText s file = .ok text → Query.ofText text = .error e →
      s.run words = (.failed (.query e), s.disk) := by
  refine ⟨?_, ?_, fun i file format text e hwords hcommand htext hquery =>
    run_faulty_query hwords hcommand htext hquery⟩
  · intro hcode
    rcases s.run_cases words with ⟨hdisk, houtput⟩ | ⟨_, _, _, _, -, -, -, hrun⟩
    · exact ⟨houtput hcode, hdisk⟩
    · rw [hrun] at hcode
      exact absurd rfl hcode
  · intro _
    rcases s.run_cases words with ⟨hdisk, -⟩ | ⟨i, file, text, d, hwords, htarget, hwrite, hrun⟩
    · rw [hdisk]
      exact ⟨rfl, fun place h => absurd rfl h⟩
    · rw [hrun]
      refine ⟨Disk.folder_overwrite hwrite, fun place hchanged => ⟨i, file, hwords, htarget, ?_⟩⟩
      by_contra hplace
      exact hchanged (Disk.fileAt_overwrite_of_ne hwrite hplace)

theorem run_writes_target_only_insertion :
    (∃ i file, Request.ofWords? ["template", "apply", "t", "--into", "n"] = some (.invoke i) ∧
      i.command.target? = some file ∧
      Disk.place ⟨.folder [("Template", .folder [("t", .file (.ofText "T"))]),
        ("n", .file (.ofText "a"))], []⟩ file = .ok ["n"]) ∧
    run ⟨⟨.folder [], []⟩, .ofText "", ⟨⟨2024, 1, 5, by decide⟩, 0, 0, 0⟩⟩ ["query"] =
      (.failed (.query .missingTable), ⟨.folder [], []⟩) := by
  have hinserted := (run_writes_target_only
    ⟨⟨.folder [("Template", .folder [("t", .file (.ofText "T"))]), ("n", .file (.ofText "a"))], []⟩,
      .ofText "", ⟨⟨2024, 1, 5, by decide⟩, 0, 0, 0⟩⟩
    ["template", "apply", "t", "--into", "n"]).2.1 (by decide +kernel)
  constructor
  · apply hinserted.2
    intro h
    have hsize := congrArg (fun x => x.toOption.map (·.content.size)) h
    revert hsize
    decide +kernel
  · exact (run_writes_target_only _ _).2.2 ⟨".", none, .query "-" .markdown⟩ "-"
      .markdown "" _ rfl rfl rfl rfl

end Surroundings

end NoteQuery
