-- A model that is published as a document and compiled from it again. It comes back exactly if no list
-- of type names is published in it, and then it takes no less than before.
import JsonModel.Check.Model
import JsonModel.Proofs.Outline.Recompile

namespace JsonModel

/-! ## What comes back -/

/-- The model is what some document that bundles nothing compiles to. -/
def Definition.FromUnbundled (d : Definition) : Prop :=
  ∃ (schema : Members Json) (root : Option (Members Json)) (overrides : Overrides),
    Unbundled (root.getD schema) schema ∧ compileSchema schema root overrides = .ok d

/-- A model has the fields that another one checks, in their order, each of them required or not as it
was there, and accepts whatever the other one accepts. -/
structure Definition.TakesNoLess (m' m : Definition) : Prop where
  fields_eq : m'.fields.map (fun f => (f.name, f.required)) =
    m.checked.map fun c => (c.1, c.2.required)
  accepts : ∀ places v value, m.safeParse places v = .ok (.success value) →
    ∃ value', m'.safeParse places v = .ok (.success value')

theorem safeParse_success_iff {d : Definition} {places : Places} {v : Value} :
    (∃ value, d.safeParse places v = .ok (.success value)) ↔
      accepting (d.check places v) = true := by
  unfold Definition.safeParse accepting
  cases d.check places v with
  | error e => simp [Except.map]
  | ok o =>
    simp only [Except.map, Except.ok.injEq, Outcome.toResult]
    split <;> simp [*]

/-- The fields of a model that bundles nothing, and what is known of each of them. -/
theorem field_of_unbundled {d : Definition} (h : d.FromUnbundled) {f : Field} (hf : f ∈ d.fields) :
    f.type.Unbundled ∧ f.defaultsToNull = !f.required := by
  obtain ⟨schema, root, overrides, hunbundled, hcompile⟩ := h
  have hdefault : f.WellFormed := (compiled_of_compile hcompile).fields f hf (.field f) .refl
  refine ⟨unbundled_of_compile hcompile hunbundled f hf, ?_⟩
  rw [Bool.eq_iff_iff, hdefault.default_iff, Bool.not_eq_true']

/-- The fields of a model bundle nothing, and those that are not required have a default. -/
def Definition.Publishable (m : Definition) : Prop :=
  ∀ c ∈ m.checked, c.2.type.Unbundled ∧ c.2.defaultsToNull = !c.2.required

theorem publishable_extend {d : Definition} {base : List Field} (hd : d.FromUnbundled)
    (hbase : ∀ f ∈ base, ∃ b : Definition, b.FromUnbundled ∧ f ∈ b.fields)
    (validators : List Validator) : (d.extend base validators).Publishable := by
  intro c hc
  obtain ⟨hmem, -⟩ := mem_of_mem_checked hc
  rcases List.mem_append.mp hmem with hmem | hmem
  · obtain ⟨b, hb, hmem⟩ := hbase _ hmem
    exact field_of_unbundled hb hmem
  · exact field_of_unbundled hd hmem

/-- Each field that comes back has the name of its property, and is required where that is. -/
theorem fields_eq_of_described {m : Definition} {root node : Members Json}
    (hm : m.Publishable) (hnode : m.DescribedBy node) {fields : List Field}
    (hfrom : List.Forall₂ (FieldFrom (Settled root) (textsOf (node.get? "required")))
      (propertiesOf node) fields) :
    fields.map (fun f => (f.name, f.required)) = m.checked.map fun c => (c.1, c.2.required) := by
  rw [propertiesOf_of_get? hnode.properties, List.forall₂_map_left_iff] at hfrom
  rw [eq_comm, ← List.forall₂_eq_eq_eq, List.forall₂_map_left_iff, List.forall₂_map_right_iff]
  refine forall₂_imp_of_mem hfrom fun c hc f hf => ?_
  obtain ⟨child, base, -, -, rfl⟩ := hf
  simp only [fieldOf, hnode.contains_required hc, (hm c hc).2, Bool.not_not]

/-! ## A loan and a remark -/

/-- Whatever is lent has a title. -/
def lentSchema : Members Json :=
  [("properties", .obj
      [("title", .obj [("type", .str "string"), ("minLength", .num (.ofNat 1))])]),
    ("required", .arr [.str "title"])]

def lentModel : Definition :=
  ⟨fallbackName, [],
    [⟨"title", .primitive .string, true, false, none, [], { minLength := some (.ofNat 1) }⟩], {}⟩

/-- A loan has borrowers, each with a name and perhaps an age, and perhaps a day when it is due. -/
def loanSchema : Members Json :=
  [("properties", .obj
      [("due", .obj [("type", .str "string"), ("format", .str "date")]),
        ("borrowers", .obj [("type", .str "array"),
          ("items", .obj [("$ref", .str "#/$defs/Person")])])]),
    ("required", .arr [.str "borrowers"]),
    ("$defs", .obj
      [("Person", .obj [("type", .str "object"),
        ("properties", .obj
          [("name", .obj [("type", .str "string")]), ("age", .obj [("type", .str "integer")])]),
        ("required", .arr [.str "name"])])])]

def loanModel : Definition :=
  let person : Definition :=
    ⟨"Borrowers", [],
      [⟨"name", .primitive .string, true, false, none, [], {}⟩,
        ⟨"age", .nullable (.primitive .integer), false, true, none, [], {}⟩], {}⟩
  ⟨fallbackName, [],
    [⟨"due", .nullable (.semantic .date), false, true, none, [], {}⟩,
      ⟨"borrowers", .listOf (.composite person), true, false, none, [], {}⟩], {}⟩

/-- A remark is a text that may be missing. -/
def remarkSchema : Members Json :=
  [("properties", .obj [("remark", .obj [("type", .str "string")])])]

def remarkModel : Definition :=
  ⟨fallbackName, [], [⟨"remark", .nullable (.primitive .string), false, true, none, [], {}⟩], {}⟩

/-! ## Models that are published and compiled again -/

section

variable {m : Definition}

theorem Definition.Publishable.returns (hm : m.Publishable) (root : Members Json) :
    ∀ c ∈ m.checked, c.2.type.Unbundled ∧ c.2.type.Returns root c.2.limits :=
  fun c hc => ⟨(hm c hc).1, returns_of_unbundled root (hm c hc).1 c.2.limits⟩

/-- A model in which no list of several type names is published comes back. -/
theorem compile_published (hm : m.Publishable) (hlists : m.listsNames = false) :
    ∃ m', compileSchema m.published = .ok m' ∧ m'.TakesNoLess m := by
  have hnode := describedBy_published m
  obtain ⟨fields, hfrom, hlooser⟩ := fields_return hnode (hm.returns m.published) hlists
  refine ⟨_, buildDefinition_ok_iff.mpr ⟨fields, hfrom, rfl⟩,
    fields_eq_of_described hm hnode hfrom, fun places v value haccepts => ?_⟩
  have hmodel := @looser_model m fields hlooser (modelName m.published) {} {}
  exact safeParse_success_iff.mpr
    (hmodel.accepts places v (safeParse_success_iff.mp ⟨value, haccepts⟩))

theorem listsNames_of_compiled (hm : m.Publishable) {m' : Definition}
    (h : compileSchema m.published = .ok m') : m.listsNames = false := by
  obtain ⟨fields, hfrom, -⟩ := buildDefinition_ok_iff.mp h
  by_contra hlists
  exact fields_fail (describedBy_published m) (fun c hc => (hm.returns _ c hc).2)
    (by simpa using hlists) fields hfrom

end

/-- A model comes back from its document exactly if no list of several type names is published in it,
and what comes back takes no less. -/
theorem a_model_comes_back_from_its_document {d : Definition} {base : List Field}
    (hd : d.FromUnbundled) (hbase : ∀ f ∈ base, ∃ b : Definition, b.FromUnbundled ∧ f ∈ b.fields)
    (validators : List Validator) :
    ((∃ m', compileSchema (d.extend base validators).published = .ok m') ↔
        (d.extend base validators).listsNames = false) ∧
      ∀ m', compileSchema (d.extend base validators).published = .ok m' →
        m'.TakesNoLess (d.extend base validators) := by
  have hm := publishable_extend hd hbase validators
  constructor
  · constructor
    · rintro ⟨m', hm'⟩
      exact listsNames_of_compiled hm hm'
    · intro hlists
      obtain ⟨m', hm', -⟩ := compile_published hm hlists
      exact ⟨m', hm'⟩
  · intro m' hm'
    obtain ⟨same, hsame, hless⟩ := compile_published hm (listsNames_of_compiled hm hm')
    rw [hm'] at hsame
    cases hsame
    exact hless

/-- A loan of something with a title comes back. -/
theorem a_loan_comes_back :
    compileSchema lentSchema = .ok lentModel ∧ compileSchema loanSchema = .ok loanModel ∧
      ∃ m', compileSchema (loanModel.extend lentModel.fields []).published = .ok m' ∧
        m'.TakesNoLess (loanModel.extend lentModel.fields []) := by
  have hlent : compileSchema lentSchema = .ok lentModel := rfl
  have hloan : compileSchema loanSchema = .ok loanModel := rfl
  have hlentFrom : lentModel.FromUnbundled :=
    ⟨lentSchema, none, {}, unbundled_of_within 1 rfl, hlent⟩
  have hloanFrom : loanModel.FromUnbundled :=
    ⟨loanSchema, none, {}, unbundled_of_within 4 rfl, hloan⟩
  obtain ⟨hback, hless⟩ := a_model_comes_back_from_its_document hloanFrom
    (fun f hf => ⟨lentModel, hlentFrom, hf⟩) []
  obtain ⟨m', hm'⟩ := hback.mpr rfl
  exact ⟨hlent, hloan, m', hm', hless m' hm'⟩

/-- A text that may be missing is published as a list of two type names, and no such list is compiled:
a remark does not come back. -/
theorem a_remark_does_not_come_back :
    compileSchema remarkSchema = .ok remarkModel ∧ Unbundled remarkSchema remarkSchema ∧
      remarkModel.published = [("$schema", .str vocabulary), ("type", .str "object"),
        ("properties", .obj
          [("remark", .obj
            [("default", .null), ("type", .arr [.str "string", .str "null"])])])] ∧
      ¬ ∃ m', compileSchema remarkModel.published = .ok m' := by
  refine ⟨rfl, unbundled_of_within 1 rfl, rfl, fun ⟨m', hm'⟩ => ?_⟩
  have hrefused : compileSchema remarkModel.published =
      .error (.unsupported (.arr [.str "string", .str "null"])
        [("default", .null), ("type", .arr [.str "string", .str "null"])]) := rfl
  rw [hrefused] at hm'
  cases hm'

end JsonModel
