-- What the fields of a model take over from its documents. A field is made from a node that stands in the
-- schema or in the root, so that what all parts of the two have, the limits and examples of every field
-- have, at any depth.
import JsonModel.Proofs.Compile.WellFormed
import JsonModel.Proofs.Record

namespace JsonModel

/-! ## Fields of nodes -/

/-- A property of a field, and of nothing else. -/
def Piece.FieldHas (Q : Field → Prop) : Piece → Prop
  | .field f => Q f
  | _ => True

theorem fieldHas_leaves (Q : Field → Prop) : Piece.OfLeaves (Piece.FieldHas Q) :=
  ⟨fun _ => trivial, fun _ => trivial, trivial⟩

/-- What holds of a part of a document passes on to the field that is made from it. -/
structure PassesToFields (P : Json → Prop) (Q : Field → Prop) : Prop where
  hereditary : Hereditary P
  field : ∀ requiredNames name node base, P (.obj node) → Q (fieldOf requiredNames name node base)

variable {P : Json → Prop} {Q : Field → Prop} {root : Members Json}

/-- The node has the property, and so has every field in its type. -/
def TypedWith (P : Json → Prop) (Q : Field → Prop) : Typing := fun _ node t =>
  P (.obj node) ∧ ∀ p, Piece.Contains (.type t) p → p.FieldHas Q

theorem fieldHas_fields (h : PassesToFields P Q) {requiredNames : List String}
    {properties : Members Json} {fields : List Field}
    (hfields : List.Forall₂ (FieldFrom (TypedWith P Q) requiredNames) properties fields) :
    ∀ f ∈ fields, ∀ p, Piece.Contains (.field f) p → p.FieldHas Q := by
  intro f hf
  obtain ⟨⟨name, value⟩, -, child, base, -, ⟨hchild, hbase⟩, rfl⟩ := exists_of_forall₂ hfields.flip hf
  exact pieces_field (fieldHas_leaves Q) hbase (h.field _ _ _ _ hchild) trivial

theorem fieldHas_typed (h : PassesToFields P Q) {node : Members Json} {hint : Option String}
    {t : TypeDescriptor} (ht : TypedAs node (TypedWith P Q) hint t) :
    ∀ p, Piece.Contains (.type t) p → p.FieldHas Q := by
  cases ht with
  | any | scalar | anyList | mapping => exact pieces_leaf trivial fun _ hq => nomatch hq
  | listOf _ _ _ hitems =>
    refine Piece.forall_contains_iff.mpr ⟨trivial, ?_⟩
    rintro _ ⟨⟩
    exact hitems.2
  | composite _ _ hfields =>
    refine Piece.forall_contains_iff.mpr ⟨trivial, ?_⟩
    rintro _ ⟨⟩
    exact pieces_model trivial rfl (fieldHas_fields h hfields)

theorem fieldHas_step (h : PassesToFields P Q) {node : Members Json} {hint : Option String}
    {t : TypeDescriptor} (ht : StepsTo root node (TypedWith P Q) hint t) :
    ∀ p, Piece.Contains (.type t) p → p.FieldHas Q := by
  have hall : ∀ {nodes : List (Members Json)} {types : List TypeDescriptor},
      List.Forall₂ (TypedWith P Q none) nodes types →
        ∀ u ∈ types, ∀ p, Piece.Contains (.type u) p → p.FieldHas Q := by
    intro nodes types htypes u hu
    obtain ⟨_, -, -, hpieces⟩ := exists_of_forall₂ htypes.flip hu
    exact hpieces
  cases ht with
  | reference _ _ htarget => exact htarget.2
  | only _ _ _ hchild => exact hchild.2
  | typed _ _ _ htyped => exact fieldHas_typed h htyped
  | union _ _ _ htypes => exact pieces_union trivial (hall htypes)
  | intersection _ _ _ _ htypes => exact pieces_intersection trivial (hall htypes)

/-- Every way from a node leads to nodes that have the property too. -/
theorem Hereditary.visited (hP : Hereditary P) (hroot : P (.obj root)) {node child : Members Json}
    (hnode : P (.obj node)) (hv : Visits root node child) : P (.obj child) := by
  rcases hv.cases with ⟨ref, -, htarget⟩ | ⟨-, hinside⟩
  · exact hP.target hroot htarget
  · exact hinside.inherits hP hnode

/-- Every field in the type of a node has what the node and the root pass on. -/
theorem fieldHas_of_settled (h : PassesToFields P Q) (hroot : P (.obj root)) {node : Members Json}
    {hint : Option String} {t : TypeDescriptor} (ht : Settled root hint node t)
    (hnode : P (.obj node)) : ∀ p, Piece.Contains (.type t) p → p.FieldHas Q := by
  have htyping := typing_of_steps
    (fun _ node t => P (.obj node) → ∀ p, Piece.Contains (.type t) p → p.FieldHas Q) ?_
    ht.finite ht.found
  · exact htyping hnode
  · intro node hint t hstep hnode
    refine fieldHas_step h (hstep.imp fun hint child t hv hpieces => ?_)
    have hchild := h.hereditary.visited hroot hnode hv
    exact ⟨hchild, hpieces hchild⟩

/-- Every field of a compiled model has what the schema and the root pass on, at any depth. -/
theorem fieldHas_of_compile (h : PassesToFields P Q) {schema : Members Json}
    {root : Option (Members Json)} {overrides : Overrides} {d : Definition}
    (hd : compileSchema schema root overrides = .ok d) (hschema : P (.obj schema))
    (hroot : ∀ r ∈ root, P (.obj r)) :
    ∀ f ∈ d.fields, ∀ p, Piece.Contains (.field f) p → p.FieldHas Q := by
  have hstart : P (.obj (root.getD schema)) := by
    cases root with
    | none => exact hschema
    | some r => exact hroot r rfl
  unfold compileSchema at hd
  obtain ⟨fields, hfields, rfl⟩ := buildDefinition_ok_iff.mp hd
  refine fieldHas_fields h (fields_imp hfields fun hint child t hstop ht => ?_)
  obtain ⟨name, hmem⟩ := mem_propertyStops.mp hstop
  have hchild := (inside_property hmem).inherits h.hereditary hschema
  exact ⟨hchild, fieldHas_of_settled h hstart ht hchild⟩

/-! ## Fields that are told -/

variable {node : Members Json}

theorem told_numberAt (hnode : (Json.obj node).Told) {keyword : String} {n : Number}
    (h : numberAt node keyword = some n) : n.Told := by
  unfold numberAt at h
  obtain ⟨value, hvalue, hn⟩ := Option.bind_eq_some_iff.mp h
  have htold := Json.hereditary_every.found hnode hvalue
  cases value with
  | num m =>
    cases hn
    exact htold
  | _ => simp [Json.num?] at hn

theorem told_examplesOf (hnode : (Json.obj node).Told) : ∀ j ∈ examplesOf node, j.Told := by
  intro j hj
  unfold examplesOf at hj
  cases hvalue : node.get? "examples" with
  | none => simp [hvalue] at hj
  | some value =>
    have htold := Json.hereditary_every.found hnode hvalue
    cases value with
    | arr items =>
      rw [hvalue] at hj
      exact Json.every_arr.mp htold j hj
    | _ => simp [hvalue, Json.items?] at hj

theorem bounds_narrow (format : StringFormat) (node : Members Json) :
    (format.narrow node).2.bounds = List.replicate 7 none := by
  unfold StringFormat.narrow
  split
  · rfl
  · split <;> rfl
  · split <;> rfl
  · rfl

/-- A bound that a field sets stands under a keyword of its node. -/
theorem bounds_refine {base : TypeDescriptor} {n : Number}
    (h : some n ∈ (refine base node).2.bounds) : ∃ keyword, numberAt node keyword = some n := by
  unfold refine at h
  split at h
  · simp only [Limits.bounds, numberLimits, List.mem_cons, List.not_mem_nil, or_false] at h
    rcases h with h | h | h | h | h | h | h
    all_goals first | exact ⟨_, h.symm⟩ | simp at h
  · split at h
    · split at h
      · rw [bounds_narrow] at h
        simp at h
      · simp only [Limits.bounds, lengthLimits, List.mem_cons, List.not_mem_nil, or_false] at h
        rcases h with h | h | h | h | h | h | h
        all_goals first | exact ⟨_, h.symm⟩ | simp at h
    · simp [Limits.bounds] at h

theorem told_passesToFields : PassesToFields Json.Told Field.Told where
  hereditary := Json.hereditary_every
  field _ _ _ base hnode := by
    refine ⟨fun n hn => ?_, told_examplesOf hnode⟩
    obtain ⟨keyword, hkeyword⟩ := bounds_refine hn
    exact told_numberAt hnode hkeyword

/-- Where the schema and the root are told by a text, all pieces of the compiled fields are. -/
theorem told_of_compile {schema : Members Json} {root : Option (Members Json)}
    {overrides : Overrides} {d : Definition} (h : compileSchema schema root overrides = .ok d)
    (hschema : (Json.obj schema).Told) (hroot : ∀ r ∈ root, (Json.obj r).Told) :
    ∀ f ∈ d.fields, ∀ p, Piece.Contains (.field f) p → p.Told := by
  intro f hf p hp
  have hwell := (compiled_of_compile h).fields f hf p hp
  have hfield := fieldHas_of_compile told_passesToFields h hschema hroot f hf p hp
  cases p with
  | field g => exact hfield
  | model m => trivial
  | type t =>
    cases t with
    | composite m => exact hwell.2
    | _ => trivial

end JsonModel
