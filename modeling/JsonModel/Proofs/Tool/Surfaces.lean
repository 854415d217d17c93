-- Every way into the program finds the same schemas that do not compile, and says the same of them.
-- The two tools give one answer, and the commands that read the schema from a file fail with the
-- message of that answer. A schema that compiles is never refused as a schema again.
import JsonModel.Proofs.Check.Fields
import JsonModel.Proofs.Compile.Offence
import JsonModel.Proofs.Tool.Verdict

namespace JsonModel

/-! ## What is compared -/

/-- The answer tells that a schema does not compile. -/
def ToolAnswer.RefusesSchema (answer : ToolAnswer) : Prop :=
  ∃ code error, answer.Tells code error ∧
    (code = "unsupported_schema" ∨ code = "unresolved_reference")

/-- A request for a command that reads a schema from a path. -/
def Request.ReadsSchema (path : String) : Request → Prop
  | compile (some schema) => schema = path
  | outline (some schema) => schema = path
  | validate (some schema) (some _) => schema = path
  | _ => False

/-- All ways into the program agree on whether a schema compiles that stands in a file. -/
structure Agreement (disk : Disk) (settings : Settings) (path : String) (schema : Members Json)
    (places : Places) : Prop where
  /-- The tool that compiles fails exactly if the tool that checks data refuses the schema for some
  data. -/
  for_some : (compileAnswer settings.overrides schema).isError = true ↔
    ∃ data, (validateAnswer places settings.overrides schema data).RefusesSchema
  /-- It then refuses the schema whatever the data. -/
  for_all : (compileAnswer settings.overrides schema).isError = true ↔
    ∀ data, (validateAnswer places settings.overrides schema data).RefusesSchema
  /-- Both tools give one answer then. -/
  same_answer : (compileAnswer settings.overrides schema).isError = true → ∀ data,
    validateAnswer places settings.overrides schema data = compileAnswer settings.overrides schema
  /-- Every command fails with the message of that answer, and prints it as an error alone. -/
  refused : (compileAnswer settings.overrides schema).isError = true → ∃ code error f,
    (compileAnswer settings.overrides schema).Tells code error ∧
      error.get? "message" = some (.str f.message) ∧
      (∀ request : Request, request.ReadsSchema path → request.perform disk settings = .error f) ∧
      Printout.failure f = ⟨1, "", "Error: " ++ f.message ++ "\n"⟩
  /-- Otherwise the command that compiles prints the text of the answer. -/
  printed : (compileAnswer settings.overrides schema).isError = false →
    Request.perform disk settings (.compile (some path)) =
      .ok ⟨0, (compileAnswer settings.overrides schema).text ++ "\n", ""⟩
  /-- The command that outlines succeeds. -/
  outlined : (compileAnswer settings.overrides schema).isError = false →
    ∃ output, Request.perform disk settings (.outline (some path)) = .ok ⟨0, output, ""⟩
  /-- The model is there to check data: what is no object it rejects, -/
  built : (compileAnswer settings.overrides schema).isError = false → ∀ data : Value,
    data.members? = none → ∃ error,
      (validateAnswer places settings.overrides schema data).Tells "validation_error" error
  /-- and only data of which two answers do not fit together are neither accepted nor rejected. -/
  decided : (compileAnswer settings.overrides schema).isError = false → ∀ data code error,
    (validateAnswer places settings.overrides schema data).Tells code error →
      code = "validation_error" ∨
        ∃ clash : Clash, code = "error" ∧ error.get? "message" = some (.str clash.message)

/-! ## The codes of errors -/

/-- Where references do not lead in a circle, an error has one of the two codes of a schema. -/
theorem code_of_finite {schema : Members Json} {overrides : Overrides} {e : CompileError}
    (hfinite : FiniteExpansion schema schema) (he : compileSchema schema none overrides = .error e) :
    e.code = "unsupported_schema" ∨ e.code = "unresolved_reference" := by
  obtain ⟨offences, hvisit⟩ := exists_visit_of_schema hfinite
  have hreports := @reports_compileSchema schema none overrides hfinite offences hvisit
  rw [he] at hreports
  obtain ⟨o, rest, -, ho⟩ := hreports
  cases e with
  | unsupported found node => exact .inl rfl
  | unresolved ref segment => exact .inr rfl
  | endless ref => cases ho

theorem tells_compileError (e : CompileError) :
    (ToolAnswer.compileError e).Tells e.code
      (Json.obj [("code", .str e.code), ("message", .str e.message)]).restored :=
  (tells_error (by simp) _ _).mpr ⟨rfl, rfl⟩

theorem message_of_error (code message : String) :
    (Json.obj [("code", .str code), ("message", .str message)]).restored.get? "message" =
      some (.str message) := by
  rw [Json.get?_restored (by simp)]
  simp [Members.get?_cons]

/-- What the answer to data tells of when the schema compiles: issues, or two answers that do not
fit together. -/
theorem tells_of_compiled {places : Places} {overrides : Overrides} {schema : Members Json}
    {d : Definition} (hcompile : compileSchema schema none overrides = .ok d) {data : Value}
    {code : String} {error : Json}
    (h : (validateAnswer places overrides schema data).Tells code error) :
    code = "validation_error" ∨
      ∃ clash : Clash, code = "error" ∧ error.get? "message" = some (.str clash.message) := by
  unfold validateAnswer at h
  rw [hcompile] at h
  simp only at h
  split at h
  · obtain ⟨herror, -⟩ := h
    cases herror
  · exact .inl ((tells_error (by simp) _ _).mp h).1
  · rename_i clash _
    obtain ⟨rfl, rfl⟩ := (tells_error (by simp) _ _).mp h
    exact .inr ⟨clash, rfl, message_of_error _ _⟩

theorem not_refuses_of_compiled {places : Places} {overrides : Overrides} {schema : Members Json}
    {d : Definition} (hcompile : compileSchema schema none overrides = .ok d) (data : Value) :
    ¬ (validateAnswer places overrides schema data).RefusesSchema := by
  rintro ⟨code, error, htells, hcode⟩
  obtain rfl | ⟨-, rfl, -⟩ := tells_of_compiled hcompile htells
  · simp at hcode
  · simp at hcode

/-- A model rejects what is no object. -/
theorem safeParse_of_no_object {places : Places} {data : Value} (d : Definition)
    (h : data.members? = none) :
    d.safeParse places data =
      .ok (.failure [.here (.wrongType .object data.kindName)]) := by
  unfold Definition.safeParse
  rw [check_of_no_members h]
  rfl

/-! ## One verdict on a schema -/

section

variable {disk : Disk} {settings : Settings} {path : String} {schema : Members Json}
  {places : Places}

theorem readSchema_of_object (hschema : readDocument disk path = .ok (.obj schema)) :
    readSchema disk path = .ok schema := by
  unfold readSchema
  rw [hschema]
  rfl

theorem readDefinition_of_object (hschema : readDocument disk path = .ok (.obj schema)) :
    readDefinition disk settings path =
      (compileSchema schema none settings.overrides).mapError .schema := by
  unfold readDefinition
  rw [readSchema_of_object hschema]
  rfl

/-- What the definition fails with, each command that needs it fails with. -/
theorem perform_of_error {f : Failure} (hread : readDefinition disk settings path = .error f)
    {request : Request} (hrequest : request.ReadsSchema path) :
    request.perform disk settings = .error f := by
  cases request with
  | compile schema | outline schema =>
    cases schema with
    | none => exact hrequest.elim
    | some schema =>
      cases hrequest
      simp only [Request.perform, need, bind, Except.bind, hread]
  | validate schema data =>
    cases schema with
    | none => exact hrequest.elim
    | some schema =>
      cases data with
      | none => exact hrequest.elim
      | some data =>
        cases hrequest
        simp only [Request.perform, need, validateFiles, bind, Except.bind, hread]
  | _ => exact hrequest.elim

theorem agreement_of_error {e : CompileError}
    (hread : readDefinition disk settings path = .error (.schema e))
    (hcompile : compileSchema schema none settings.overrides = .error e)
    (hcode : e.code = "unsupported_schema" ∨ e.code = "unresolved_reference") :
    Agreement disk settings path schema places := by
  have hanswer : compileAnswer settings.overrides schema = .compileError e := by
    unfold compileAnswer
    rw [hcompile]
  have hvalidate : ∀ data,
      validateAnswer places settings.overrides schema data = .compileError e := by
    intro data
    unfold validateAnswer
    rw [hcompile]
  have hrefuses : (ToolAnswer.compileError e).RefusesSchema := ⟨_, _, tells_compileError e, hcode⟩
  have herror : (ToolAnswer.compileError e).isError = true := rfl
  constructor <;> simp only [hanswer, hvalidate]
  · exact ⟨fun _ => ⟨.null, hrefuses⟩, fun _ => rfl⟩
  · exact ⟨fun _ _ => hrefuses, fun _ => rfl⟩
  · exact fun _ _ => trivial
  · refine fun _ => ⟨_, _, .schema e, tells_compileError e, message_of_error _ _, ?_, rfl⟩
    intro request hrequest
    exact perform_of_error hread hrequest
  all_goals
    intro hno
    rw [herror] at hno
    cases hno

theorem agreement_of_definition {d : Definition}
    (hread : readDefinition disk settings path = .ok d)
    (hcompile : compileSchema schema none settings.overrides = .ok d) :
    Agreement disk settings path schema places := by
  have hanswer : compileAnswer settings.overrides schema = .result d.toJson := by
    unfold compileAnswer
    rw [hcompile]
  have hnever : ∀ data, ¬ (validateAnswer places settings.overrides schema data).RefusesSchema :=
    not_refuses_of_compiled hcompile
  have hresult : (ToolAnswer.result d.toJson).isError = false := rfl
  constructor <;> simp only [hanswer, hresult]
  · exact ⟨fun h => (Bool.false_ne_true h).elim, fun ⟨data, h⟩ => (hnever data h).elim⟩
  · exact ⟨fun h => (Bool.false_ne_true h).elim, fun h => (hnever .null (h .null)).elim⟩
  · exact fun h => (Bool.false_ne_true h).elim
  · exact fun h => (Bool.false_ne_true h).elim
  · intro _
    simp only [Request.perform, need, bind, Except.bind, hread]
    rfl
  · intro _
    simp only [Request.perform, need, bind, Except.bind, hread]
    exact ⟨_, rfl⟩
  · intro _ data hdata
    unfold validateAnswer
    rw [hcompile]
    simp only [safeParse_of_no_object d hdata]
    exact ⟨_, (tells_error (by simp) _ _).mpr ⟨rfl, rfl⟩⟩
  · exact fun _ data code error h => tells_of_compiled hcompile h

end

/-- Whatever the settings, all ways into the program agree on whether the schema in a file compiles,
as long as its references do not lead in a circle. -/
theorem all_surfaces_agree_on_a_schema {disk : Disk} (settings : Settings) {path : String}
    {schema : Members Json} (places : Places)
    (hschema : readDocument disk path = .ok (.obj schema))
    (hfinite : FiniteExpansion schema schema) :
    Agreement disk settings path schema places := by
  have hread := @readDefinition_of_object disk settings path schema hschema
  cases hcompile : compileSchema schema none settings.overrides with
  | error e =>
    rw [hcompile] at hread
    exact agreement_of_error hread hcompile (code_of_finite hfinite hcompile)
  | ok d =>
    rw [hcompile] at hread
    exact agreement_of_definition hread hcompile

/-- A file with the flawed schema under one path, and one with a schema of notes under every
other. -/
def schemaDisk : Disk where
  current := "/"
  read path :=
    if path = "flawed.json" then .ok (Json.obj flawedSchema).pretty
    else .ok (Json.obj noteSchema).pretty
  places := ⟨fun _ => false, fun _ => false⟩

theorem a_flawed_schema_is_refused_everywhere :
    readDocument schemaDisk "flawed.json" = .ok (.obj flawedSchema) ∧
      FiniteExpansion flawedSchema flawedSchema ∧
      Agreement schemaDisk {} "flawed.json" flawedSchema schemaDisk.places ∧
      (compileAnswer (Settings.overrides {}) flawedSchema).isError = true := by
  have hschema : readDocument schemaDisk "flawed.json" = .ok (.obj flawedSchema) := by
    have htext : schemaDisk.fileText "flawed.json" = .ok (Json.obj flawedSchema).pretty := by
      simp [Disk.fileText, schemaDisk, Except.mapError]
    exact readDocument_of_text htext (Json.read_pretty _)
  have hfinite : FiniteExpansion flawedSchema flawedSchema :=
    fun child hchild => finite_of_endsWithin 3 rfl hchild
  exact ⟨hschema, hfinite, all_surfaces_agree_on_a_schema {} _ hschema hfinite, rfl⟩

end JsonModel
