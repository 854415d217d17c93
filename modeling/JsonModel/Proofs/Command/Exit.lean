-- How a run ends. Whatever the files and the arguments are, a run succeeds exactly if it has nothing to
-- complain about, and a command on files that fails has printed nothing before.
import JsonModel.Command.Run
import JsonModel.Data.FileTree
import JsonModel.Proofs.Traversal

namespace JsonModel

/-! ## What can go wrong -/

/-- Whatever goes wrong, it is not that there is no server. -/
def ServerFree {α : Type _} (r : Except Failure α) : Prop := ∀ f, r = .error f → f ≠ .noServer

section

variable {α β ε : Type _}

theorem serverFree_ok (a : α) : ServerFree (.ok a) := by
  rintro f ⟨⟩

theorem serverFree_error {f : Failure} (h : f ≠ .noServer) : ServerFree (.error f : Except _ α) := by
  rintro _ ⟨⟩
  exact h

theorem ServerFree.bind {x : Except Failure α} {g : α → Except Failure β} (hx : ServerFree x)
    (hg : ∀ a, ServerFree (g a)) : ServerFree (x >>= g) := by
  intro f hf
  obtain hf | ⟨a, -, hf⟩ := bind_error_iff.mp hf
  · exact hx f hf
  · exact hg a f hf

theorem serverFree_mapError {x : Except ε α} {g : ε → Failure} (hg : ∀ e, g e ≠ .noServer) :
    ServerFree (x.mapError g) := by
  cases x with
  | ok a => exact serverFree_ok a
  | error e => exact serverFree_error (hg e)

end

section

variable (disk : Disk) (settings : Settings) (path : String)

theorem serverFree_need (what : String) (argument : Option String) :
    ServerFree (need what argument) := by
  cases argument with
  | some text => exact serverFree_ok text
  | none => exact serverFree_error (by simp)

theorem serverFree_readDocument : ServerFree (readDocument disk path) :=
  (serverFree_mapError (by simp)).bind fun _ => serverFree_mapError (by simp)

theorem serverFree_readSchema : ServerFree (readSchema disk path) := by
  refine (serverFree_readDocument disk path).bind fun document => ?_
  cases document with
  | obj schema => exact serverFree_ok schema
  | _ => exact serverFree_error (by simp)

theorem serverFree_readDefinition : ServerFree (readDefinition disk settings path) :=
  (serverFree_readSchema disk path).bind fun _ => serverFree_mapError (by simp)

theorem serverFree_validateFiles (schema data : String) :
    ServerFree (validateFiles disk settings schema data) := by
  refine (serverFree_readDefinition disk settings schema).bind fun d => ?_
  refine (serverFree_readDocument disk data).bind fun document => ?_
  split
  · exact serverFree_ok _
  · exact serverFree_ok _
  · exact serverFree_error (by simp)

end

/-- No request but that for the server fails because there is none. -/
theorem serverFree_perform (disk : Disk) (settings : Settings) {request : Request}
    (h : request ≠ .serve) : ServerFree (request.perform disk settings) := by
  cases request with
  | help | version | unknown => exact serverFree_ok _
  | serve => exact absurd rfl h
  | compile schema | outline schema =>
    refine (serverFree_need _ schema).bind fun path => ?_
    exact (serverFree_readDefinition disk settings path).bind fun _ => serverFree_ok _
  | validate schema data =>
    refine (serverFree_need _ schema).bind fun schema => ?_
    refine (serverFree_need _ data).bind fun data => ?_
    exact serverFree_validateFiles disk settings schema data

/-! ## What is printed -/

/-- A model finds issues in some document. -/
def FindsIssues (disk : Disk) (d : Definition) (issues : List Issue) : Prop :=
  ∃ document, d.safeParse disk.places (.ofJson document) = .ok (.failure issues)

/-- What a request prints that does not fail: a text, the report of refused data, or how the program is
used where nobody knows the command. -/
inductive Request.Prints (disk : Disk) : Request → Printout → Prop
  | result {request : Request} (text : String) : request.Prints disk (.success text)
  | report {schema data : Option String} {d : Definition} {issues : List Issue} :
      FindsIssues disk d issues → (validate schema data).Prints disk (.refusal (d.report issues))
  | usage (name : String) : (unknown name).Prints disk (.unknownCommand name)

theorem prints_of_perform {disk : Disk} {settings : Settings} {request : Request} {p : Printout}
    (h : request.perform disk settings = .ok p) : request.Prints disk p := by
  cases request with
  | help | version =>
    cases h
    exact .result _
  | serve => cases h
  | compile schema | outline schema =>
    obtain ⟨path, -, h⟩ := bind_ok_iff.mp h
    obtain ⟨d, -, h⟩ := bind_ok_iff.mp h
    cases h
    exact .result _
  | validate schema data =>
    obtain ⟨_, -, h⟩ := bind_ok_iff.mp h
    obtain ⟨_, -, h⟩ := bind_ok_iff.mp h
    obtain ⟨d, -, h⟩ := bind_ok_iff.mp h
    obtain ⟨document, -, h⟩ := bind_ok_iff.mp h
    cases hresult : d.safeParse disk.places (.ofJson document) with
    | error clash =>
      rw [hresult] at h
      cases h
    | ok result =>
      rw [hresult] at h
      cases result with
      | success value =>
        cases h
        exact .result _
      | failure issues =>
        cases h
        exact .report ⟨document, hresult⟩
  | unknown name =>
    cases h
    exact .usage name

/-- The settings that a request is performed with. -/
def Request.settings (disk : Disk) (request : Request) : Except Failure Settings :=
  if request.needsSettings then (Settings.load disk disk.current).mapError .file else .ok {}

theorem serverFree_settings (disk : Disk) (request : Request) :
    ServerFree (request.settings disk) := by
  unfold Request.settings
  split
  · exact serverFree_mapError (by simp)
  · exact serverFree_ok _

theorem run_eq (disk : Disk) {arguments : List String} {request : Request}
    (h : Request.ofArguments arguments = request) :
    run disk arguments = match request.settings disk >>= fun settings => request.perform disk settings with
      | .ok p => p
      | .error f => .failure f := by
  unfold run Request.settings
  simp only [h]
  cases request.needsSettings <;> rfl

/-- A run fails, and not for want of a server, or prints what its request prints. -/
theorem run_cases (disk : Disk) {arguments : List String} {request : Request}
    (harguments : Request.ofArguments arguments = request) (h : request ≠ .serve) :
    (∃ f, f ≠ .noServer ∧ run disk arguments = .failure f) ∨
      request.Prints disk (run disk arguments) := by
  rw [run_eq disk harguments]
  split
  · rename_i p hp
    obtain ⟨settings, -, hp⟩ := bind_ok_iff.mp hp
    exact .inr (prints_of_perform hp)
  · rename_i f hf
    have hfree : ServerFree (request.settings disk >>= fun settings => request.perform disk settings) :=
      (serverFree_settings disk request).bind fun settings => serverFree_perform disk settings h
    exact .inl ⟨f, hfree f hf, rfl⟩

/-! ## Arguments -/

/-- The commands that read a schema file. -/
def fileCommands : List String := ["compile", "validate", "json-schema"]

section

variable {arguments : List String} {name : String}

theorem head?_of_serve (h : Request.ofArguments arguments = .serve) :
    arguments.head? = some "serve" := by
  unfold Request.ofArguments at h
  simp only at h
  split at h <;> cases h
  assumption

theorem head?_of_unknown (h : Request.ofArguments arguments = .unknown name) :
    arguments.head? = some name := by
  unfold Request.ofArguments at h
  simp only at h
  split at h <;> cases h
  assumption

/-- The commands on files are known. -/
theorem known_of_fileCommand (h : arguments.head? = some name) (hname : name ∈ fileCommands) :
    Request.ofArguments arguments ≠ .unknown name := by
  unfold Request.ofArguments
  rw [h]
  simp only [fileCommands, List.mem_cons, List.not_mem_nil, or_false] at hname
  rcases hname with rfl | rfl | rfl <;> simp

end

/-! ## How a run ends -/

/-- What a run that fails prints as errors: the message of a failure, the report of the issues that were
found, or the name of a command that nobody knows. -/
inductive SaysWhy (disk : Disk) (arguments : List String) : String → Prop
  | failure (f : Failure) : f ≠ .noServer → SaysWhy disk arguments ("Error: " ++ f.message ++ "\n")
  | report {d : Definition} {issues : List Issue} : FindsIssues disk d issues →
      SaysWhy disk arguments (d.report issues ++ "\n")
  | unknown (name : String) : arguments.head? = some name → name ∉ fileCommands →
      SaysWhy disk arguments ("Unknown command: " ++ name ++ "\n")

/-- What is promised of the end of a run. -/
structure Printout.Disciplined (disk : Disk) (arguments : List String) (p : Printout) : Prop where
  exits : p.exitCode = 0 ∨ p.exitCode = 1
  succeeds_iff : p.exitCode = 0 ↔ p.errors = ""
  /-- A command on files that fails has printed no part of its result. -/
  nothing_partial : p.exitCode = 1 → (∃ name ∈ fileCommands, arguments.head? = some name) →
    p.output = ""
  says_why : p.exitCode = 1 → SaysWhy disk arguments p.errors

section

variable {disk : Disk} {arguments : List String}

theorem disciplined_success (text : String) :
    (Printout.success text).Disciplined disk arguments :=
  ⟨.inl rfl, by simp [Printout.success], by simp [Printout.success], by simp [Printout.success]⟩

theorem disciplined_refusal {text : String} (h : SaysWhy disk arguments (text ++ "\n")) :
    (Printout.refusal text).Disciplined disk arguments :=
  ⟨.inr rfl, by simp [Printout.refusal], fun _ _ => rfl, fun _ => h⟩

theorem disciplined_unknownCommand {name : String} (hhead : arguments.head? = some name)
    (hname : name ∉ fileCommands) : (Printout.unknownCommand name).Disciplined disk arguments := by
  refine ⟨.inr rfl, by simp [Printout.unknownCommand], fun _ hcommand => ?_,
    fun _ => .unknown name hhead hname⟩
  obtain ⟨command, hcommand, hhead'⟩ := hcommand
  rw [hhead] at hhead'
  cases hhead'
  exact absurd hcommand hname

/-- Whatever the files are, a run that is not for the server exits with 0 or 1, with 0 exactly if it
complains about nothing, and a command on files that fails leaves nothing in the output. -/
theorem a_run_that_fails_says_why_and_leaves_no_result (h : arguments.head? ≠ some "serve") :
    (run disk arguments).Disciplined disk arguments := by
  have hserve : Request.ofArguments arguments ≠ .serve := mt head?_of_serve h
  generalize hrequest : Request.ofArguments arguments = request at hserve
  obtain ⟨f, hf, hfails⟩ | hprints := run_cases disk hrequest hserve
  · rw [hfails]
    exact disciplined_refusal (.failure f hf)
  · generalize run disk arguments = p at hprints
    cases hprints with
    | result text => exact disciplined_success text
    | report hissues => exact disciplined_refusal (.report hissues)
    | usage name =>
      have hhead := head?_of_unknown hrequest
      exact disciplined_unknownCommand hhead fun hname => known_of_fileCommand hhead hname hrequest

end

/-- A house with a schema of notes, and a note that does not keep to it. -/
def house : FileTree :=
  .directory [("house", .directory
    [("schema.json", .file (Json.obj
        [("properties", .obj [("name", .obj [("type", .str "string")])])]).compact),
      ("note.json", .file (Json.obj [("name", .bool true)]).compact)])]

/-- The check of the note, from within the house. -/
def noteCheck : List String := ["validate", "schema.json", "note.json"]

theorem a_bad_note_leaves_no_result :
    (run (house.disk ["house"]) noteCheck).exitCode = 1 ∧
      (run (house.disk ["house"]) noteCheck).output = "" ∧
      (run (house.disk ["house"]) noteCheck).errors ≠ "" := by
  have hends : (run (house.disk ["house"]) noteCheck).Disciplined (house.disk ["house"]) noteCheck :=
    a_run_that_fails_says_why_and_leaves_no_result (by decide)
  have hcode : (run (house.disk ["house"]) noteCheck).exitCode = 1 := by decide +kernel
  refine ⟨hcode, hends.nothing_partial hcode ⟨"validate", by decide, rfl⟩, fun hnone => ?_⟩
  rw [hends.succeeds_iff.mpr hnone] at hcode
  cases hcode

end JsonModel
