-- Where the properties of a schema stand in its model. Whatever the visit of a schema leads to, at any
-- depth, has its type inside the compiled model, and the fields of that type are fields of the model.
import JsonModel.Proofs.Compile.Rewrite
import JsonModel.Proofs.Descriptor

namespace JsonModel

/-! ## Fields inside -/

/-- Every field inside a type stands inside a piece. -/
def Piece.Carries (p : Piece) (t : TypeDescriptor) : Prop :=
  ∀ f, Piece.Contains (.type t) (.field f) → Piece.Contains p (.field f)

theorem carries_of_holds {p : Piece} {t : TypeDescriptor} (h : Piece.Holds p (.type t)) :
    p.Carries t := fun _ hf => .head h hf

/-- A field inside a type stands inside something that the type holds. -/
theorem exists_holds_of_field {t : TypeDescriptor} {f : Field}
    (h : Piece.Contains (.type t) (.field f)) :
    ∃ p, Piece.Holds (.type t) p ∧ Piece.Contains p (.field f) := by
  obtain heq | hhead := Relation.ReflTransGen.cases_head h
  · cases heq
  · exact hhead

/-- Null that is accepted too leaves the fields where they are. -/
theorem carries_nullable (t : TypeDescriptor) : (Piece.type t.nullable).Carries t := by
  intro f hf
  unfold TypeDescriptor.nullable
  split
  · exact hf
  · split
    · exact hf
    · obtain ⟨p, hp, hrest⟩ := exists_holds_of_field hf
      cases hp with
      | variant hmem => exact .head (.variant (List.mem_append_left _ hmem)) hrest
  · exact .head (.variant List.mem_cons_self) hf

/-- A format takes the place of a type without fields. -/
theorem carries_refine (base : TypeDescriptor) (node : Members Json) :
    (Piece.type (refine base node).1).Carries base := by
  intro f hf
  obtain ⟨p, hp, -⟩ := exists_holds_of_field hf
  have hstring : base.isPrimitive [.string] ≠ true := by
    intro hstring
    unfold TypeDescriptor.isPrimitive at hstring
    split at hstring
    · cases hp
    · simp at hstring
  unfold refine
  split
  · exact hf
  · exact hf

theorem carries_fieldOf (requiredNames : List String) (name : String) (node : Members Json)
    (base : TypeDescriptor) : (Piece.field (fieldOf requiredNames name node base)).Carries base := by
  intro f hf
  refine .head .fieldType ?_
  unfold fieldOf
  simp only
  split
  · exact carries_refine base node f hf
  · exact carries_nullable _ f (carries_refine base node f hf)

/-! ## Types inside -/

section

variable {root node child : Members Json} {typing : Typing} {hint : Option String}
  {t : TypeDescriptor}

/-- The typing of nodes by types whose fields stand inside a type. -/
def Typing.Within (typing : Typing) (t : TypeDescriptor) : Typing := fun hint child u =>
  typing hint child u ∧ (Piece.type t).Carries u

theorem TypedAs.within (h : TypedAs node typing hint t) :
    TypedAs node (typing.Within t) hint t := by
  cases h with
  | any htype => exact .any htype
  | scalar htype hkind => exact .scalar htype hkind
  | anyList htype hitems => exact .anyList htype hitems
  | listOf htype hitems hne ht => exact .listOf htype hitems hne ⟨ht, carries_of_holds .items⟩
  | mapping htype hproperties => exact .mapping htype hproperties
  | @composite fields htype hne hfields =>
    refine .composite htype hne (forall₂_and_right hfields (fun _ hf => hf) ?_)
    rintro ⟨name, value⟩ f ⟨child, base, hvalue, hbase, rfl⟩ hf
    refine ⟨child, base, hvalue, ⟨hbase, fun g hg => ?_⟩, rfl⟩
    exact .head .composite (.head (.field hf) (carries_fieldOf _ _ _ _ g hg))

/-- The types of the visited nodes have their fields inside the type of the node. -/
theorem StepsTo.within (h : StepsTo root node typing hint t) :
    StepsTo root node (typing.Within t) hint t := by
  cases h with
  | reference href htarget ht => exact .reference href htarget ⟨ht, fun _ hf => hf⟩
  | union href hentries hne htypes =>
    refine .union href hentries hne (forall₂_and_right htypes (fun u hu => hu) ?_)
    exact fun _ _ ht hu => ⟨ht, carries_of_holds (.variant hu)⟩
  | only href hempty hparts ht => exact .only href hempty hparts ⟨ht, fun _ hf => hf⟩
  | intersection href hempty hparts hlength htypes =>
    refine .intersection href hempty hparts hlength (forall₂_and_right htypes (fun u hu => hu) ?_)
    exact fun _ _ ht hu => ⟨ht, carries_of_holds (.member hu)⟩
  | typed href hempty hparts ht => exact .typed href hempty hparts ht.within

/-- One step: a visited node has a type, and its fields stand inside the type of the node. -/
theorem Settled.visited (h : Settled root hint node t) (hv : Visits root node child) :
    ∃ hint' u, Settled root hint' child u ∧ (Piece.type t).Carries u :=
  (settled_iff.mp h).within.visited hv

/-- A whole way of the visit, by induction on its steps. -/
theorem Settled.reached (h : Settled root hint node t)
    (hway : Relation.ReflTransGen (Visits root) node child) :
    ∃ hint' u, Settled root hint' child u ∧ (Piece.type t).Carries u := by
  induction hway with
  | refl => exact ⟨hint, t, h, fun _ hf => hf⟩
  | tail _ hv ih =>
    obtain ⟨_, u, hu, hcarries⟩ := ih
    obtain ⟨hint', w, hw, hcarries'⟩ := hu.visited hv
    exact ⟨hint', w, hw, fun f hf => hcarries f (hcarries' f hf)⟩

end

/-! ## Properties at any depth -/

/-- A property of a schema, at any depth: one of its own, or one of an object schema that the visit of
these leads to. -/
inductive PropertyAt (root schema : Members Json) (name : String) (site : Members Json) :
    Members Json → Prop
  | own : (name, .obj site) ∈ propertiesOf schema → PropertyAt root schema name site schema
  | nested {child holder : Members Json} : Stop.enter child ∈ propertyStops schema →
      Relation.ReflTransGen (Visits root) child holder → reads holder "properties" = true →
      (name, .obj site) ∈ propertiesOf holder → PropertyAt root schema name site holder

/-- A property that a field is made from, as the compiler makes it. -/
theorem field_of_properties {root holder site : Members Json} {name : String} {fields : List Field}
    (h : List.Forall₂ (FieldFrom (Settled root) (textsOf (holder.get? "required")))
      (propertiesOf holder) fields) (hmem : (name, .obj site) ∈ propertiesOf holder) :
    ∃ f ∈ fields, compileField name site (textsOf (holder.get? "required")) root = .ok f := by
  obtain ⟨f, hf, child, base, hvalue, hbase, rfl⟩ := exists_of_forall₂ h hmem
  cases hvalue
  exact ⟨_, hf, compileField_ok_iff.mpr ⟨base, hbase, rfl⟩⟩

/-- Every property of a schema that compiles, at any depth, gives a field of the model. -/
theorem exists_field_of_property {schema : Members Json} {root : Option (Members Json)}
    {overrides : Overrides} {d : Definition} (hd : compileSchema schema root overrides = .ok d)
    {name : String} {site holder : Members Json}
    (hproperty : PropertyAt (root.getD schema) schema name site holder) :
    ∃ f, compileField name site (textsOf (holder.get? "required")) (root.getD schema) = .ok f ∧
      Piece.Contains (.model d) (.field f) := by
  unfold compileSchema at hd
  obtain ⟨fields, hfields, rfl⟩ := buildDefinition_ok_iff.mp hd
  cases hproperty with
  | own hmem =>
    obtain ⟨f, hf, hcompiled⟩ := field_of_properties hfields hmem
    exact ⟨f, hcompiled, .single (.field hf)⟩
  | nested hstop hway hreads hmem =>
    obtain ⟨first, hfirst⟩ := mem_propertyStops.mp hstop
    obtain ⟨g, hg, _, base, hvalue, hbase, rfl⟩ := exists_of_forall₂ hfields hfirst
    cases hvalue
    obtain ⟨hint, t, ht, hcarries⟩ := hbase.reached hway
    obtain ⟨hreads, htype⟩ := reads_properties.mp hreads
    obtain ⟨inner, hinner, rfl⟩ :=
      (settled_composite_iff hreads htype (List.ne_nil_of_mem hmem)).mp ht
    obtain ⟨f, hf, hcompiled⟩ := field_of_properties hinner hmem
    have hinside := hcarries f (.head .composite (.single (.field hf)))
    exact ⟨f, hcompiled, .head (.field hg) (carries_fieldOf _ _ _ _ f hinside)⟩

end JsonModel
