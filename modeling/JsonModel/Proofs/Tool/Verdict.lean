-- The command that checks files and the tool that checks data come to the same verdict. Both texts
-- are read back: what the command prints is the data of the tool's result, a report counts the issues
-- of the tool's error, and every other failure has the tool's message.
import JsonModel.Command.Run
import JsonModel.Proofs.Json.Print
import JsonModel.Tool.Answer

namespace JsonModel

/-! ## What is compared -/

/-- The answer tells of an error: its text is an object with this error in it, and that is its
code. -/
def ToolAnswer.Tells (answer : ToolAnswer) (code : String) (error : Json) : Prop :=
  answer.isError = true ∧ ∃ document, Json.read answer.text = .ok document ∧
    document.get? "error" = some error ∧ error.get? "code" = some (.str code)

/-- The first line of a report on so many issues with the data of a model. -/
def headline (count : Nat) (model : String) : String :=
  decimalText count ++ " validation " ++ (if count = 1 then "error" else "errors") ++ " for " ++ model

/-- A command and a tool come to the same verdict. -/
structure SameVerdict (command : Except Failure Printout) (answer : ToolAnswer) : Prop where
  /-- The command succeeds exactly if the answer is no error. -/
  success_iff : (∃ p, command = .ok p ∧ p.exitCode = 0) ↔ answer.isError = false
  /-- What a command that succeeds prints is the data of the result. -/
  printed : ∀ p, command = .ok p → p.exitCode = 0 → ∃ result data,
    Json.read answer.text = .ok result ∧ result.get? "data" = some data ∧
      Json.read p.output = .ok data
  /-- Every error has a code. -/
  told : answer.isError = true → ∃ code error, answer.Tells code error
  /-- Where the tool lists issues, the command reports as many for the same model. -/
  refused : ∀ error, answer.Tells "validation_error" error → ∃ model issues p more,
    error.get? "model" = some (.str model) ∧ error.get? "issues" = some (.arr issues) ∧
      command = .ok p ∧ p.exitCode = 1 ∧
      p.errors = headline issues.length model ++ "\n" ++ more
  /-- Where the tool has any other error, the command fails with its message. -/
  failed : ∀ code error, answer.Tells code error → code ≠ "validation_error" → ∃ f,
    command = .error f ∧ error.get? "message" = some (.str f.message) ∧
      (Printout.failure f).exitCode = 1

/-! ## Texts that are read back -/

theorem read_result (document : Json) :
    Json.read (ToolAnswer.result document).text = .ok document.restored :=
  Json.read_pretty document

theorem read_success (document : Json) :
    Json.read (Printout.success document.pretty).output = .ok document.restored :=
  Json.read_pretty_line document

/-- An error tells of its code and its details, and of nothing else. -/
theorem tells_error {code : String} {details : List (String × Json)}
    (hnames : ("code" :: details.map Prod.fst).Nodup) (told : String) (error : Json) :
    (ToolAnswer.error code details).Tells told error ↔
      told = code ∧ error = (Json.obj (("code", .str code) :: details)).restored := by
  have hread : Json.read (ToolAnswer.error code details).text =
      .ok (Json.obj [("error", .obj (("code", .str code) :: details))]).restored :=
    Json.read_compact _
  have herror : (Json.obj [("error", .obj (("code", .str code) :: details))]).restored.get? "error" =
      some (Json.obj (("code", .str code) :: details)).restored :=
    Json.get?_restored (by simp) "error"
  have hcode : (Json.obj (("code", .str code) :: details)).restored.get? "code" =
      some (.str code) := by
    rw [Json.get?_restored]
    · simp [Members.get?_cons]
    · exact hnames
  constructor
  · rintro ⟨-, document, hdocument, hin, htold⟩
    rw [hread] at hdocument
    cases hdocument
    rw [herror] at hin
    cases hin
    rw [hcode] at htold
    cases htold
    exact ⟨rfl, rfl⟩
  · rintro ⟨rfl, rfl⟩
    exact ⟨rfl, _, hread, herror, hcode⟩

/-- The first line of a report stands on a line of its own. -/
theorem report_headline (d : Definition) (issues : List Issue) :
    ∃ more, d.report issues ++ "\n" = headline issues.length d.name ++ "\n" ++ more := by
  unfold Definition.report headline
  simp only
  cases (byDepth issues).flatMap Issue.lines with
  | nil => exact ⟨"", by simp⟩
  | cons line lines =>
    refine ⟨"\n".intercalate (line :: lines) ++ "\n", ?_⟩
    rw [String.intercalate_cons_cons, String.append_assoc]

/-! ## Verdicts -/

theorem sameVerdict_success (d : Definition) (document : Json) :
    SameVerdict (.ok (.success document.pretty))
      (.result (.obj [("model", .str d.name), ("data", document)])) where
  success_iff := ⟨fun _ => rfl, fun _ => ⟨_, rfl, rfl⟩⟩
  printed p hp _ := by
    cases hp
    refine ⟨_, document.restored, read_result _, ?_, read_success document⟩
    rw [Json.get?_restored (by simp)]
    simp [Members.get?_cons]
  told h := by cases h
  refused error h := by cases h.1
  failed code error h _ := by cases h.1

theorem sameVerdict_refusal (d : Definition) (issues : List Issue) :
    SameVerdict (.ok (.refusal (d.report issues))) (.error "validation_error"
      [("model", .str d.name), ("issues", .arr (issues.map Issue.shown))]) where
  success_iff := by
    constructor
    · rintro ⟨p, hp, hexit⟩
      cases hp
      cases hexit
    · intro h
      cases h
  printed p hp hexit := by
    cases hp
    cases hexit
  told _ := ⟨_, _, (tells_error (by simp) _ _).mpr ⟨rfl, rfl⟩⟩
  refused error h := by
    obtain ⟨-, rfl⟩ := (tells_error (by simp) _ _).mp h
    obtain ⟨more, hmore⟩ := report_headline d issues
    refine ⟨d.name, (issues.map Issue.shown).map Json.restored, _, more, ?_, ?_, rfl, rfl, ?_⟩
    · rw [Json.get?_restored (by simp)]
      simp [Members.get?_cons]
    · rw [Json.get?_restored (by simp)]
      simp [Members.get?_cons]
    · rw [List.length_map, List.length_map]
      exact hmore
  failed code error h hcode := by
    obtain ⟨rfl, -⟩ := (tells_error (by simp) _ _).mp h
    exact absurd rfl hcode

theorem sameVerdict_failure (f : Failure) {code : String} (hcode : code ≠ "validation_error") :
    SameVerdict (.error f) (.error code [("message", .str f.message)]) where
  success_iff := by
    constructor
    · rintro ⟨p, hp, -⟩
      cases hp
    · intro h
      cases h
  printed p hp := by cases hp
  told _ := ⟨_, _, (tells_error (by simp) _ _).mpr ⟨rfl, rfl⟩⟩
  refused error h := by
    obtain ⟨hsame, -⟩ := (tells_error (by simp) _ _).mp h
    exact absurd hsame.symm hcode
  failed told error h _ := by
    obtain ⟨-, rfl⟩ := (tells_error (by simp) _ _).mp h
    refine ⟨f, rfl, ?_, rfl⟩
    rw [Json.get?_restored (by simp)]
    simp [Members.get?_cons]

theorem code_ne_validation_error (e : CompileError) : e.code ≠ "validation_error" := by
  cases e <;> simp [CompileError.code]

/-- A file holds the document that its text reads as. -/
theorem readDocument_of_text {disk : Disk} {path text : String} {j : Json}
    (htext : disk.fileText path = .ok text) (hread : Json.read text = .ok j) :
    readDocument disk path = .ok j := by
  unfold readDocument
  rw [htext]
  simp only [bind, Except.bind, Except.mapError, hread]

/-- Files that hold a schema and a document get the verdict that the tool has on both, whatever the
settings. -/
theorem files_and_tool_agree {disk : Disk} (settings : Settings) {schemaPath dataPath : String}
    {schema : Members Json} {data : Json}
    (hschema : readDocument disk schemaPath = .ok (.obj schema))
    (hdata : readDocument disk dataPath = .ok data) :
    SameVerdict (validateFiles disk settings schemaPath dataPath)
      (validateAnswer disk.places settings.overrides schema (.ofJson data)) := by
  unfold validateFiles readDefinition readSchema validateAnswer
  rw [hschema]
  cases hcompile : compileSchema schema none settings.overrides with
  | error e =>
    simp only [bind, Except.bind, hcompile, Except.mapError]
    exact sameVerdict_failure (.schema e) (code_ne_validation_error e)
  | ok d =>
    simp only [bind, Except.bind, hcompile, Except.mapError, hdata]
    cases d.safeParse disk.places (.ofJson data) with
    | error clash => exact sameVerdict_failure (.clash clash) (by decide)
    | ok result =>
      cases result with
      | success value => exact sameVerdict_success d value.shown
      | failure issues => exact sameVerdict_refusal d issues

/-- A schema of notes, whose names are texts. -/
def noteSchema : Members Json :=
  [("properties", .obj [("name", .obj [("type", .str "string")])])]

/-- A note whose name is no text. -/
def badNote : Json := .obj [("name", .bool true)]

/-- A schema file, and a file with the note under every other path. -/
def noteDisk : Disk where
  current := "/"
  read path :=
    if path = "schema.json" then .ok (Json.obj noteSchema).pretty else .ok badNote.compact
  places := ⟨fun _ => false, fun _ => false⟩

theorem a_bad_note_is_refused_twice :
    readDocument noteDisk "schema.json" = .ok (.obj noteSchema) ∧
      readDocument noteDisk "note.json" = .ok badNote ∧
      SameVerdict (validateFiles noteDisk {} "schema.json" "note.json")
        (validateAnswer noteDisk.places (Settings.overrides {}) noteSchema (.ofJson badNote)) ∧
      (validateAnswer noteDisk.places (Settings.overrides {}) noteSchema
        (.ofJson badNote)).isError = true := by
  have hschema : readDocument noteDisk "schema.json" = .ok (.obj noteSchema) := by
    have htext : noteDisk.fileText "schema.json" = .ok (Json.obj noteSchema).pretty := by
      simp [Disk.fileText, noteDisk, Except.mapError]
    exact readDocument_of_text htext (Json.read_pretty _)
  have hdata : readDocument noteDisk "note.json" = .ok badNote := by
    have htext : noteDisk.fileText "note.json" = .ok badNote.compact := by
      simp [Disk.fileText, noteDisk, Except.mapError]
    exact readDocument_of_text htext (Json.read_compact _)
  exact ⟨hschema, hdata, files_and_tool_agree {} hschema hdata, rfl⟩

end JsonModel
