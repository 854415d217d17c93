-- Schemas without several parts that must all hold, and without a property of the reserved name. What
-- they compile to has no intersection, and every model inside it checks some field.
import JsonModel.Proofs.Check.Checked
import JsonModel.Proofs.Compile.WellFormed

namespace JsonModel

/-! ## Pieces that stand alone -/

/-- The piece is no intersection, and no union or model without parts. A model inside another one
extends nothing. -/
def Piece.Unbundled : Piece → Prop
  | .type (.union ts) => ts ≠ []
  | .type (.intersection _) => False
  | .type (.composite d) => d.base = [] ∧ d.checked ≠ []
  | _ => True

/-- All pieces of a type are unbundled. -/
def TypeDescriptor.Unbundled (t : TypeDescriptor) : Prop :=
  ∀ p, Piece.Contains (.type t) p → p.Unbundled

theorem unbundled_leaves : Piece.OfLeaves Piece.Unbundled where
  primitive _ := trivial
  semantic _ := trivial
  hosts := by simp [Piece.Unbundled]

theorem unbundled_nullable {t : TypeDescriptor} (h : (Piece.type t).Unbundled) :
    (Piece.type t.nullable).Unbundled := by
  unfold TypeDescriptor.nullable
  split
  · exact h
  · split
    · exact h
    · simp [Piece.Unbundled]
  · simp [Piece.Unbundled]

namespace TypeDescriptor.Unbundled

theorem items {t : TypeDescriptor} (h : (TypeDescriptor.listOf t).Unbundled) : t.Unbundled :=
  (Piece.forall_contains_iff.mp h).2 _ .items

theorem variant {t : TypeDescriptor} {ts : List TypeDescriptor}
    (h : (TypeDescriptor.union ts).Unbundled) (ht : t ∈ ts) : t.Unbundled :=
  (Piece.forall_contains_iff.mp h).2 _ (.variant ht)

theorem field {d : Definition} {f : Field} (h : (TypeDescriptor.composite d).Unbundled)
    (hf : f ∈ d.base ++ d.fields) : f.type.Unbundled := by
  have hmodel := (Piece.forall_contains_iff.mp h).2 _ .composite
  rcases List.mem_append.mp hf with hf | hf
  · exact fun p hp => hmodel p (.head (.base hf) (.head .fieldType hp))
  · exact fun p hp => hmodel p (.head (.field hf) (.head .fieldType hp))

end TypeDescriptor.Unbundled

/-! ## Schemas that bundle nothing -/

/-- No node on the way from here has several parts that must all hold, or a property of the reserved
name. -/
def UnbundledFrom (root node : Members Json) : Prop :=
  ∀ reached, Relation.ReflTransGen (Visits root) node reached →
    (listUnder reached "allOf").length ≤ 1 ∧
      reservedName ∉ Members.names (propertiesOf reached)

/-- No node that a visit of the schema comes to bundles anything. -/
def Unbundled (root schema : Members Json) : Prop :=
  ∀ child, Stop.enter child ∈ propertyStops schema → UnbundledFrom root child

/-- Every way from some stops comes to its end after so many nodes, none of which bundles anything. -/
def unbundledWithin (root : Members Json) : Nat → List Stop → Bool
  | 0, ss => ss.all fun stop => stop.node?.isNone
  | depth + 1, ss =>
    ss.all fun stop =>
      match stop.node? with
      | some node =>
        (listUnder node "allOf").length ≤ 1
          && !(Members.names (propertiesOf node)).contains reservedName
          && unbundledWithin root depth (stops root node)
      | none => true

theorem unbundled_of_unbundledWithin {root child : Members Json} (depth : Nat) {ss : List Stop}
    (h : unbundledWithin root depth ss = true) (hchild : .enter child ∈ ss) :
    UnbundledFrom root child := by
  induction depth generalizing ss child with
  | zero =>
    unfold unbundledWithin at h
    have hnone := List.all_eq_true.mp h _ hchild
    simp [Stop.node?] at hnone
  | succ depth ih =>
    unfold unbundledWithin at h
    have hall := List.all_eq_true.mp h _ hchild
    simp only [Stop.node?, Bool.and_eq_true, decide_eq_true_eq, Bool.not_eq_true',
      List.contains_eq_mem, decide_eq_false_iff_not] at hall
    obtain ⟨⟨hparts, hnames⟩, hinside⟩ := hall
    intro reached hreached
    rcases Relation.ReflTransGen.cases_head hreached with rfl | ⟨next, hnext, hrest⟩
    · exact ⟨hparts, hnames⟩
    · exact ih hinside hnext reached hrest

theorem unbundled_of_within {schema : Members Json} (depth : Nat)
    (h : unbundledWithin schema depth (propertyStops schema) = true) : Unbundled schema schema :=
  fun _ hchild => unbundled_of_unbundledWithin depth h hchild

/-! ## What the compiler makes -/

theorem unbundled_pieces_fields {requiredNames : List String} {properties : Members Json}
    {fields : List Field}
    (h : List.Forall₂ (FieldFrom (fun _ _ t => t.Unbundled) requiredNames) properties fields) :
    ∀ f ∈ fields, ∀ p, Piece.Contains (.field f) p → p.Unbundled := by
  intro f hf
  obtain ⟨⟨name, value⟩, -, child, base, -, hbase, rfl⟩ := exists_of_forall₂ h.flip hf
  exact pieces_field unbundled_leaves hbase trivial
    (unbundled_nullable (pieces_refine unbundled_leaves hbase child _ .refl))

/-- Fields of properties none of which has the reserved name are checked. -/
theorem checked_of_properties {typing : Typing} {requiredNames : List String}
    {properties : Members Json} {fields : List Field} (hne : properties ≠ [])
    (hnames : reservedName ∉ Members.names properties)
    (h : List.Forall₂ (FieldFrom typing requiredNames) properties fields) (name : String)
    (overrides : Overrides) : (Definition.mk name [] fields overrides).checked ≠ [] := by
  obtain ⟨property, hproperty⟩ := List.exists_mem_of_ne_nil properties hne
  obtain ⟨f, hf, child, base, -, -, rfl⟩ := exists_of_forall₂ h hproperty
  refine checked_ne_nil hf fun heq => hnames ?_
  rw [← heq]
  exact List.mem_map_of_mem hproperty

theorem unbundled_typed {root node : Members Json} {hint : Option String} {t : TypeDescriptor}
    (hfrom : UnbundledFrom root node) (h : TypedAs node (fun _ _ t => t.Unbundled) hint t) :
    t.Unbundled := by
  cases h with
  | any | scalar | anyList | mapping => exact pieces_leaf trivial fun _ hq => nomatch hq
  | listOf _ _ _ ht =>
    refine Piece.forall_contains_iff.mpr ⟨trivial, ?_⟩
    rintro _ ⟨⟩
    exact ht
  | composite _ hne hfields =>
    refine Piece.forall_contains_iff.mpr
      ⟨⟨rfl, checked_of_properties hne (hfrom node .refl).2 hfields _ _⟩, ?_⟩
    rintro _ ⟨⟩
    exact pieces_model trivial rfl (unbundled_pieces_fields hfields)

theorem unbundled_step {root node : Members Json} {hint : Option String} {t : TypeDescriptor}
    (hfrom : UnbundledFrom root node)
    (h : StepsTo root node (fun _ node t => UnbundledFrom root node → t.Unbundled) hint t) :
    t.Unbundled := by
  have hsteps : StepsTo root node (fun _ _ t => t.Unbundled) hint t := by
    refine h.imp fun hint child t hv ht => ht fun reached hreached => ?_
    exact hfrom reached (.head hv hreached)
  cases hsteps with
  | reference _ _ ht => exact ht
  | only _ _ _ ht => exact ht
  | typed _ _ _ ht => exact unbundled_typed hfrom ht
  | union _ _ hne htypes =>
    refine pieces_union ?_ fun u hu => ?_
    · rintro rfl
      exact hne (List.forall₂_nil_right_iff.mp htypes)
    · obtain ⟨_, -, hunbundled⟩ := exists_of_forall₂ htypes.flip hu
      exact hunbundled
  | intersection _ _ hparts hlength =>
    have hone := (hfrom node .refl).1
    rw [hparts, List.length_map] at hone
    omega

/-- What a schema that bundles nothing compiles to is unbundled. -/
theorem unbundled_of_compile {schema : Members Json} {root : Option (Members Json)}
    {overrides : Overrides} {d : Definition} (h : compileSchema schema root overrides = .ok d)
    (hunbundled : Unbundled (root.getD schema) schema) : ∀ f ∈ d.fields, f.type.Unbundled := by
  unfold compileSchema at h
  obtain ⟨fields, hfields, rfl⟩ := buildDefinition_ok_iff.mp h
  intro f hf p hp
  refine unbundled_pieces_fields (fields_imp hfields fun hint child t hstop ht => ?_) f hf p
    (.head .fieldType hp)
  exact typing_of_steps (fun _ node t => UnbundledFrom (root.getD schema) node → t.Unbundled)
    (fun hsteps hfrom => unbundled_step hfrom hsteps) ht.finite ht.found (hunbundled child hstop)

end JsonModel
