-- The shape of what the compiler gives: inside every type, each model extends nothing, is not
-- overridden, and names no field twice.
import JsonModel.Proofs.Compile.Expansion

namespace JsonModel

/-! ## Kinds and models everywhere -/

mutual

/-- Every semantic kind inside a type satisfies `kind`, and every model inside satisfies `model`. -/
def TypeDescriptor.Every (kind : Semantic → Prop) (model : Definition → Prop) :
    TypeDescriptor → Prop
  | .semantic k => kind k
  | .listOf items => items.Every kind model
  | .union variants => TypeDescriptor.EveryOf kind model variants
  | .intersection members => TypeDescriptor.EveryOf kind model members
  | .composite d => model d ∧ d.Every kind model
  | _ => True

/-- Type by type. -/
def TypeDescriptor.EveryOf (kind : Semantic → Prop) (model : Definition → Prop) :
    List TypeDescriptor → Prop
  | [] => True
  | t :: ts => t.Every kind model ∧ TypeDescriptor.EveryOf kind model ts

/-- Field by field. -/
def Field.EveryOf (kind : Semantic → Prop) (model : Definition → Prop) : List Field → Prop
  | [] => True
  | ⟨_, type, _, _, _, _, _⟩ :: fields => type.Every kind model ∧ Field.EveryOf kind model fields

/-- The types of a model, those of what it extends included. -/
def Definition.Every (kind : Semantic → Prop) (model : Definition → Prop) : Definition → Prop
  | ⟨_, base, fields, _⟩ => Field.EveryOf kind model base ∧ Field.EveryOf kind model fields

end

section

variable {kind kind' : Semantic → Prop} {model model' : Definition → Prop}

theorem TypeDescriptor.everyOf_iff {ts : List TypeDescriptor} :
    TypeDescriptor.EveryOf kind model ts ↔ ∀ t ∈ ts, t.Every kind model := by
  induction ts with
  | nil => simp [TypeDescriptor.EveryOf]
  | cons t ts ih => simp [TypeDescriptor.EveryOf, ih]

theorem Field.everyOf_iff {fields : List Field} :
    Field.EveryOf kind model fields ↔ ∀ f ∈ fields, f.type.Every kind model := by
  induction fields with
  | nil => simp [Field.EveryOf]
  | cons f fields ih =>
    obtain ⟨_, _, _, _, _, _, _⟩ := f
    simp [Field.EveryOf, ih]

section

variable {kind'' : Semantic → Prop} {model'' : Definition → Prop}

mutual

theorem TypeDescriptor.Every.zip (hkind : ∀ k, kind k → kind' k → kind'' k)
    (hmodel : ∀ d, model d → model' d → model'' d) : ∀ {t : TypeDescriptor},
      t.Every kind model → t.Every kind' model' → t.Every kind'' model''
  | .primitive _, _, _ | .mapping, _, _ | .anyList, _, _ => trivial
  | .semantic k, h, h' => hkind k h h'
  | .listOf items, h, h' => TypeDescriptor.Every.zip hkind hmodel (t := items) h h'
  | .union _, h, h' => TypeDescriptor.EveryOf.zip hkind hmodel h h'
  | .intersection _, h, h' => TypeDescriptor.EveryOf.zip hkind hmodel h h'
  | .composite d, h, h' => ⟨hmodel d h.1 h'.1, Definition.Every.zip hkind hmodel h.2 h'.2⟩

theorem TypeDescriptor.EveryOf.zip (hkind : ∀ k, kind k → kind' k → kind'' k)
    (hmodel : ∀ d, model d → model' d → model'' d) : ∀ {ts : List TypeDescriptor},
      TypeDescriptor.EveryOf kind model ts → TypeDescriptor.EveryOf kind' model' ts →
        TypeDescriptor.EveryOf kind'' model'' ts
  | [], _, _ => trivial
  | _ :: _, h, h' =>
    ⟨TypeDescriptor.Every.zip hkind hmodel h.1 h'.1,
      TypeDescriptor.EveryOf.zip hkind hmodel h.2 h'.2⟩

theorem Field.EveryOf.zip (hkind : ∀ k, kind k → kind' k → kind'' k)
    (hmodel : ∀ d, model d → model' d → model'' d) : ∀ {fields : List Field},
      Field.EveryOf kind model fields → Field.EveryOf kind' model' fields →
        Field.EveryOf kind'' model'' fields
  | [], _, _ => trivial
  | ⟨_, _, _, _, _, _, _⟩ :: _, h, h' =>
    ⟨TypeDescriptor.Every.zip hkind hmodel h.1 h'.1, Field.EveryOf.zip hkind hmodel h.2 h'.2⟩

/-- Two properties of all kinds and models inside make a third together. -/
theorem Definition.Every.zip (hkind : ∀ k, kind k → kind' k → kind'' k)
    (hmodel : ∀ d, model d → model' d → model'' d) : ∀ {d : Definition},
      d.Every kind model → d.Every kind' model' → d.Every kind'' model''
  | ⟨_, _, _, _⟩, h, h' =>
    ⟨Field.EveryOf.zip hkind hmodel h.1 h'.1, Field.EveryOf.zip hkind hmodel h.2 h'.2⟩

end

end

/-- Accepting null brings in nothing but null. -/
theorem TypeDescriptor.Every.nullable {t : TypeDescriptor} (h : t.Every kind model) :
    t.nullable.Every kind model := by
  unfold TypeDescriptor.nullable
  split
  · exact h
  · split
    · exact h
    · unfold TypeDescriptor.Every at h ⊢
      rw [TypeDescriptor.everyOf_iff] at h ⊢
      intro t ht
      rcases List.mem_append.mp ht with ht | ht
      · exact h t ht
      · rw [List.mem_singleton.mp ht]
        trivial
  · exact ⟨h, trivial, trivial⟩

end

/-! ## Models as they are built -/

/-- A model as the compiler builds it, with the overrides that it is given. -/
structure Definition.Built (overrides : Overrides) (d : Definition) : Prop where
  no_base : d.base = []
  overrides_eq : d.overrides = overrides
  names_nodup : (d.fields.map Field.name).Nodup
  /-- A field has a default unless it is required. -/
  default_iff : ∀ f ∈ d.fields, f.defaultsToNull = !f.required

/-- Every model inside a type is built without overrides. -/
abbrev TypeDescriptor.Compiled (t : TypeDescriptor) : Prop :=
  t.Every (fun _ => True) (Definition.Built {})

theorem compiled_narrow (format : StringFormat) (node : Members Json) :
    (format.narrow node).1.Compiled := by
  unfold StringFormat.narrow
  split
  · trivial
  · split <;> trivial
  · split <;> trivial
  · cases format <;> trivial

theorem compiled_refine {t : TypeDescriptor} (h : t.Compiled) (node : Members Json) :
    (refine t node).1.Compiled := by
  unfold refine
  split
  · exact h
  · split
    · split
      · exact compiled_narrow _ _
      · exact h
    · exact h

theorem compiled_fieldOf {t : TypeDescriptor} (h : t.Compiled) (requiredNames : List String)
    (name : String) (node : Members Json) :
    (fieldOf requiredNames name node t).type.Compiled := by
  unfold fieldOf
  simp only
  split
  · exact compiled_refine h node
  · exact (compiled_refine h node).nullable

/-- The fields of a node are compiled, and have the names of its properties. -/
structure CompiledFields (properties : Members Json) (fields : List Field) : Prop where
  names : fields.map Field.name = Members.names properties
  types : ∀ f ∈ fields, f.type.Compiled
  default_iff : ∀ f ∈ fields, f.defaultsToNull = !f.required

theorem names_of_fieldsFrom {typing : Typing} {requiredNames : List String}
    {properties : Members Json} {fields : List Field}
    (h : List.Forall₂ (FieldFrom typing requiredNames) properties fields) :
    fields.map Field.name = Members.names properties := by
  unfold Members.names
  induction h with
  | nil => rfl
  | cons hfield _ ih =>
    obtain ⟨child, base, -, -, rfl⟩ := hfield
    rw [List.map_cons, List.map_cons, ih]
    rfl

theorem compiledFields_of {typing : Typing} {requiredNames : List String}
    {properties : Members Json} {fields : List Field}
    (h : List.Forall₂ (FieldFrom typing requiredNames) properties fields)
    (htyping : ∀ hint child t, (∃ name, (name, Json.obj child) ∈ properties) →
      typing hint child t → t.Compiled) : CompiledFields properties fields := by
  have hall : ∀ f ∈ fields, f.type.Compiled ∧ f.defaultsToNull = !f.required := by
    intro f hf
    obtain ⟨⟨name, value⟩, hproperty, child, base, hvalue, hbase, rfl⟩ :=
      exists_of_forall₂ h.flip hf
    cases hvalue
    exact ⟨compiled_fieldOf (htyping _ child base ⟨name, hproperty⟩ hbase) _ _ _, rfl⟩
  exact ⟨names_of_fieldsFrom h, fun f hf => (hall f hf).1, fun f hf => (hall f hf).2⟩

theorem properties_nodup {node : Members Json} (h : (Json.obj node).Distinct) :
    (Members.names (propertiesOf node)).Nodup := by
  unfold propertiesOf
  split
  · rename_i properties hproperties
    exact (Json.every_obj.mp (Json.hereditary_every.found h hproperties)).1
  · exact List.nodup_nil

/-- The type of a node has such models only, if no object of the node names a member twice. -/
abbrev CompiledIfDistinct : Typing := fun _ node t => (Json.obj node).Distinct → t.Compiled

theorem compiledFields_of_distinct {node : Members Json} {requiredNames : List String}
    {fields : List Field} (hnode : (Json.obj node).Distinct)
    (h : List.Forall₂ (FieldFrom CompiledIfDistinct requiredNames) (propertiesOf node) fields) :
    CompiledFields (propertiesOf node) fields := by
  apply compiledFields_of h
  rintro hint child t ⟨name, hmem⟩ ht
  exact ht ((inside_property hmem).inherits Json.hereditary_every hnode)

theorem compiled_typed {node : Members Json} {hint : Option String} {t : TypeDescriptor}
    (hnode : (Json.obj node).Distinct) (h : TypedAs node CompiledIfDistinct hint t) :
    t.Compiled := by
  cases h with
  | any _ => trivial
  | scalar _ _ => trivial
  | anyList _ _ => trivial
  | mapping _ _ => trivial
  | listOf _ hitems _ ht => exact ht (Json.hereditary_every.found hnode hitems)
  | composite _ _ hfields =>
    have hall := compiledFields_of_distinct hnode hfields
    refine ⟨⟨rfl, rfl, ?_, hall.default_iff⟩, trivial, Field.everyOf_iff.mpr hall.types⟩
    rw [hall.names]
    exact properties_nodup hnode

theorem compiled_step {root node : Members Json} {hint : Option String} {t : TypeDescriptor}
    (hroot : (Json.obj root).Distinct) (hnode : (Json.obj node).Distinct)
    (h : StepsTo root node CompiledIfDistinct hint t) : t.Compiled := by
  have hlist : ∀ {nodes : List (Members Json)} {types : List TypeDescriptor},
      List.Forall₂ (CompiledIfDistinct none) nodes types →
        (∀ child ∈ nodes, (Json.obj child).Distinct) →
          TypeDescriptor.EveryOf (fun _ => True) (Definition.Built {}) types := by
    intro nodes types htypes hnodes
    rw [TypeDescriptor.everyOf_iff]
    intro t ht
    obtain ⟨child, hchild, hcompiled⟩ := exists_of_forall₂ htypes.flip ht
    exact hcompiled (hnodes child hchild)
  have hentry : ∀ {child : Members Json} {keyword : String},
      Json.obj child ∈ listUnder node keyword → (Json.obj child).Distinct :=
    fun hmem => (inside_entry hmem).inherits Json.hereditary_every hnode
  cases h with
  | reference _ htarget ht => exact ht (Json.hereditary_every.target hroot htarget)
  | @union nodes _ _ hentries _ htypes =>
    refine hlist htypes fun child hchild => ?_
    have hmem : Json.obj child ∈ listUnder node "anyOf" ++ listUnder node "oneOf" := by
      rw [hentries]
      exact List.mem_map_of_mem hchild
    rcases List.mem_append.mp hmem with hmem | hmem
    · exact hentry hmem
    · exact hentry hmem
  | @only child _ _ _ hparts ht =>
    have hmem : Json.obj child ∈ listUnder node "allOf" := by
      rw [hparts]
      exact List.mem_cons_self
    exact ht (hentry hmem)
  | @intersection nodes _ _ _ hparts _ htypes =>
    refine hlist htypes fun child hchild => ?_
    have hmem : Json.obj child ∈ listUnder node "allOf" := by
      rw [hparts]
      exact List.mem_map_of_mem hchild
    exact hentry hmem
  | typed _ _ _ ht => exact compiled_typed hnode ht

theorem compiled_resolveType {root node : Members Json} (hfinite : FiniteFrom root node)
    (hroot : (Json.obj root).Distinct) (hnode : (Json.obj node).Distinct) {hint : Option String}
    {t : TypeDescriptor} (h : resolveType node root hint = .ok t) : t.Compiled :=
  typing_of_steps CompiledIfDistinct (fun hstep hnode => compiled_step hroot hnode hstep) hfinite h
    hnode

/-- A schema compiles to a model that is built with the overrides given, and whose types have models
built without any. -/
theorem built_of_compile {schema : Members Json} {root : Option (Members Json)}
    {overrides : Overrides} {d : Definition} (h : compileSchema schema root overrides = .ok d)
    (hschema : (Json.obj schema).Distinct) (hroot : ∀ r ∈ root, (Json.obj r).Distinct) :
    d.Built overrides ∧ d.Every (fun _ => True) (Definition.Built {}) := by
  unfold compileSchema at h
  have hfinite := finite_of_built h
  rw [buildDefinition_eq hfinite, buildDefinitionWith_ok_iff] at h
  obtain ⟨fields, hfields, rfl⟩ := h
  have hdocument : (Json.obj (root.getD schema)).Distinct := by
    cases root with
    | none => exact hschema
    | some r => exact hroot r rfl
  have hall : CompiledFields (propertiesOf schema) fields := by
    apply compiledFields_of hfields
    rintro hint child t ⟨name, hmem⟩ ht
    exact compiled_resolveType (hfinite child (mem_propertyStops.mpr ⟨name, hmem⟩)) hdocument
      ((inside_property hmem).inherits Json.hereditary_every hschema) ht
  refine ⟨⟨rfl, rfl, ?_, hall.default_iff⟩, trivial, Field.everyOf_iff.mpr hall.types⟩
  rw [hall.names]
  exact properties_nodup hschema

end JsonModel
