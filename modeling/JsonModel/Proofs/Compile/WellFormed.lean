-- What holds of every piece of a compiled model. A field that is not required accepts null, limits
-- stand beside a type that they can limit, and no union, intersection or model inside is empty.
import JsonModel.Proofs.Compile.Pieces
import JsonModel.Proofs.Compile.Rewrite

namespace JsonModel

/-! ## Types that limits belong to -/

/-- The type is one of some types, or the union of one of them and null. -/
def TypeDescriptor.OneOf (ts : List TypeDescriptor) (t : TypeDescriptor) : Prop :=
  t ∈ ts ∨ ∃ u ∈ ts, t = .union [u, .primitive .null]

/-- The type is the null type, or a union that has it among its variants. -/
def TypeDescriptor.HasNull (t : TypeDescriptor) : Prop :=
  t = .primitive .null ∨ ∃ ts, t = .union ts ∧ .primitive .null ∈ ts

namespace Limits

/-- Some bound on numbers is set. -/
def setsBounds (limits : Limits) : Bool :=
  limits.atLeast.isSome || limits.above.isSome || limits.atMost.isSome || limits.below.isSome
    || limits.multipleOf.isSome

/-- Some bound on lengths is set. -/
def setsLengths (limits : Limits) : Bool := limits.minLength.isSome || limits.maxLength.isSome

/-- Which groups of limits are set: bounds, lengths, schemes, strictness. -/
def groups (limits : Limits) : List Bool :=
  [limits.setsBounds, limits.setsLengths, limits.schemes.isSome, limits.strict]

/-- Limits belong to a type: numbers are bounded, strings have lengths, links have some schemes, and
exactly the strict bytes are strict. -/
structure Fits (limits : Limits) (t : TypeDescriptor) : Prop where
  bounds : limits.setsBounds = true → t.OneOf [.primitive .integer, .primitive .number]
  lengths : limits.setsLengths = true → t.OneOf [.primitive .string]
  schemes : ∀ names, limits.schemes = some names → names ≠ [] ∧ t.OneOf [.semantic .uri]
  strict : limits.strict = true ↔ t.OneOf [.semantic .strictBytes]
  one_group : limits.groups.count true ≤ 1

end Limits

/-! ## Well-formed pieces -/

/-- A field is null when it is missing exactly if it is not required, and then it accepts null. -/
structure Field.WellFormed (f : Field) : Prop where
  default_iff : f.defaultsToNull = true ↔ f.required = false
  has_null : f.required = false → f.type.HasNull
  limits_fit : f.limits.Fits f.type

/-- What has to hold of a piece inside a compiled model. -/
def Piece.WellFormed : Piece → Prop
  | .type (.union ts) => ts ≠ []
  | .type (.intersection ts) => 2 ≤ ts.length
  | .type (.composite d) => d.fields ≠ [] ∧ d.base = [] ∧ d.overrides = {}
  | .type _ => True
  | .field f => f.WellFormed
  | .model _ => True

/-! ## Accepting null -/

theorem hasNull_nullable (t : TypeDescriptor) : t.nullable.HasNull := by
  unfold TypeDescriptor.nullable
  split
  · exact .inl rfl
  · rename_i ts
    split
    · rename_i hnull
      obtain ⟨u, hu, hisNull⟩ := List.any_eq_true.mp hnull
      refine .inr ⟨ts, rfl, ?_⟩
      unfold TypeDescriptor.isNull TypeDescriptor.isPrimitive at hisNull
      split at hisNull
      · rename_i kind
        cases kind <;> simp_all
      · simp at hisNull
    · exact .inr ⟨_, rfl, by simp⟩
  · exact .inr ⟨_, rfl, by simp⟩

/-- The pair of a type and null is made from that type, or from a union that has it. -/
theorem of_nullable_eq_pair {t u : TypeDescriptor}
    (h : t.nullable = .union [u, .primitive .null]) :
    t = u ∨ ∃ ts, t = .union ts ∧ u ∈ ts := by
  unfold TypeDescriptor.nullable at h
  split at h
  · simp at h
  · rename_i ts
    split at h
    · cases h
      exact .inr ⟨_, rfl, List.mem_cons_self⟩
    · rw [TypeDescriptor.union.injEq] at h
      have hts : ts = [u] := (List.append_inj_left' h rfl)
      exact .inr ⟨ts, rfl, by simp [hts]⟩
  · cases h
    exact .inl rfl

/-! ## Limits of a field -/

/-- Limits belong to a type that does not accept null yet, and no variant of which is strict. -/
structure Limits.FitsPlain (limits : Limits) (t : TypeDescriptor) : Prop where
  bounds : limits.setsBounds = true → t = .primitive .integer ∨ t = .primitive .number
  lengths : limits.setsLengths = true → t = .primitive .string
  schemes : ∀ names, limits.schemes = some names → names ≠ [] ∧ t = .semantic .uri
  strict : limits.strict = true ↔ t = .semantic .strictBytes
  no_strict_variant : ∀ ts, t = .union ts → .semantic .strictBytes ∉ ts
  one_group : limits.groups.count true ≤ 1

/-- Limits that belong to a type belong to the type of its field, required or not. -/
theorem Limits.FitsPlain.fits {limits : Limits} {t : TypeDescriptor} (h : limits.FitsPlain t)
    (required : Bool) : limits.Fits (if required then t else t.nullable) := by
  have hstrict : ∀ u, TypeDescriptor.OneOf [.semantic .strictBytes] u →
      u = t ∨ u = t.nullable → t = .semantic .strictBytes := by
    intro u hu hut
    simp only [TypeDescriptor.OneOf, List.mem_singleton, exists_eq_left] at hu
    rcases hut with rfl | rfl
    · rcases hu with hu | hu
      · exact hu
      · exact absurd List.mem_cons_self (h.no_strict_variant _ hu)
    · rcases hu with hu | hu
      · obtain hnull | ⟨ts, hts, -⟩ := hasNull_nullable t
        · rw [hu] at hnull
          simp at hnull
        · rw [hu] at hts
          simp at hts
      · rcases of_nullable_eq_pair hu with rfl | ⟨ts, hts, hmem⟩
        · rfl
        · exact absurd hmem (h.no_strict_variant ts hts)
  refine ⟨fun hset => ?_, fun hset => ?_, fun names hnames => ?_, ⟨fun hset => ?_, fun hone => ?_⟩,
    h.one_group⟩
  · rcases h.bounds hset with rfl | rfl <;>
      cases required <;> simp [TypeDescriptor.OneOf, TypeDescriptor.nullable]
  · rw [h.lengths hset]
    cases required <;> simp [TypeDescriptor.OneOf, TypeDescriptor.nullable]
  · obtain ⟨hne, rfl⟩ := h.schemes names hnames
    refine ⟨hne, ?_⟩
    cases required <;> simp [TypeDescriptor.OneOf, TypeDescriptor.nullable]
  · rw [h.strict.mp hset]
    cases required <;> simp [TypeDescriptor.OneOf, TypeDescriptor.nullable]
  · apply h.strict.mpr
    apply hstrict _ hone
    cases required <;> simp

/-- No format has a say in the type: it is no semantic type, and none of its variants is one. -/
structure TypeDescriptor.Unformatted (t : TypeDescriptor) : Prop where
  no_semantic : ∀ kind, t ≠ .semantic kind
  no_variant : ∀ ts kind, t = .union ts → .semantic kind ∉ ts

theorem unformatted_primitive (kind : Primitive) :
    (TypeDescriptor.primitive kind).Unformatted := ⟨by simp, by simp⟩

/-- No limits at all belong to every type that is not strict. -/
theorem fitsPlain_none {t : TypeDescriptor} (hne : t ≠ .semantic .strictBytes)
    (hvariant : ∀ ts, t = .union ts → .semantic .strictBytes ∉ ts) :
    Limits.FitsPlain {} t := by
  refine ⟨?_, ?_, ?_, ?_, hvariant, by decide⟩
  · simp [Limits.setsBounds]
  · simp [Limits.setsLengths]
  · simp
  · simpa using hne

theorem fitsPlain_numbers {t : TypeDescriptor} (node : Members Json)
    (h : t = .primitive .integer ∨ t = .primitive .number) : (numberLimits node).FitsPlain t := by
  refine ⟨fun _ => h, ?_, ?_, ?_, ?_, ?_⟩
  · simp [numberLimits, Limits.setsLengths]
  · simp [numberLimits]
  · rcases h with rfl | rfl <;> simp [numberLimits]
  · rcases h with rfl | rfl <;> simp
  · have hothers : (numberLimits node).groups = [(numberLimits node).setsBounds, false, false, false] :=
      rfl
    rw [hothers]
    cases (numberLimits node).setsBounds <;> decide

theorem fitsPlain_lengths (node : Members Json) :
    (lengthLimits node).FitsPlain (.primitive .string) := by
  refine ⟨?_, fun _ => rfl, ?_, ?_, ?_, ?_⟩
  · simp [lengthLimits, Limits.setsBounds]
  · simp [lengthLimits]
  · simp [lengthLimits]
  · simp
  · have hothers :
        (lengthLimits node).groups = [false, (lengthLimits node).setsLengths, false, false] := rfl
    rw [hothers]
    cases (lengthLimits node).setsLengths <;> decide

theorem fitsPlain_narrow (format : StringFormat) (node : Members Json) :
    (format.narrow node).2.FitsPlain (format.narrow node).1 := by
  unfold StringFormat.narrow
  split
  · exact ⟨by simp [Limits.setsBounds], by simp [Limits.setsLengths], by simp,
      by simp [StringFormat.type], by simp [StringFormat.type], by decide⟩
  · split <;> exact fitsPlain_none (by simp [StringFormat.type]) (by simp [StringFormat.type])
  · split
    · exact fitsPlain_none (by simp [StringFormat.type]) (by simp [StringFormat.type])
    · exact fitsPlain_none (by simp) (by simp)
    · exact fitsPlain_none (by simp) (by simp)
    · rename_i schemes hne _ _
      refine ⟨by simp [Limits.setsBounds], by simp [Limits.setsLengths], ?_, ?_, ?_, ?_⟩
      · rintro names heq
        cases heq
        exact ⟨hne, rfl⟩
      · simp [StringFormat.type]
      · simp [StringFormat.type]
      · simp [Limits.groups, Limits.setsBounds, Limits.setsLengths]
  · rename_i hbinary _ _
    apply fitsPlain_none
    · cases format <;> simp_all [StringFormat.type]
    · cases format <;> simp_all [StringFormat.type]

/-- The keywords beside a type give limits that belong to what they make of it. -/
theorem fitsPlain_refine {base : TypeDescriptor} (h : base.Unformatted) (node : Members Json) :
    (refine base node).2.FitsPlain (refine base node).1 := by
  have hnone : Limits.FitsPlain {} base :=
    fitsPlain_none (h.no_semantic _) fun ts hts => h.no_variant ts _ hts
  cases base with
  | primitive kind =>
    cases kind with
    | integer => exact fitsPlain_numbers node (.inl rfl)
    | number => exact fitsPlain_numbers node (.inr rfl)
    | string =>
      unfold refine
      simp only [TypeDescriptor.isPrimitive]
      cases format? node with
      | none => exact fitsPlain_lengths node
      | some format => exact fitsPlain_narrow format node
    | _ => exact hnone
  | _ => exact hnone

theorem wellFormed_fieldOf {base : TypeDescriptor} (h : base.Unformatted)
    (requiredNames : List String) (name : String) (node : Members Json) :
    (fieldOf requiredNames name node base).WellFormed where
  default_iff := by simp [fieldOf]
  has_null := by
    intro hoptional
    simp only [fieldOf] at hoptional ⊢
    rw [hoptional]
    exact hasNull_nullable _
  limits_fit := (fitsPlain_refine h node).fits _

/-! ## Pieces of types -/

/-- A type as nodes have it: no format has a say in it, and all its pieces are well formed. -/
structure TypeDescriptor.Sound (t : TypeDescriptor) : Prop where
  unformatted : t.Unformatted
  pieces : ∀ p, Piece.Contains (.type t) p → p.WellFormed

theorem wellFormed_leaves : Piece.OfLeaves Piece.WellFormed where
  primitive _ := trivial
  semantic _ := trivial
  hosts := by simp [Piece.WellFormed]

theorem wellFormed_nullable {t : TypeDescriptor} (h : (Piece.type t).WellFormed) :
    (Piece.type t.nullable).WellFormed := by
  unfold TypeDescriptor.nullable
  split
  · exact h
  · split
    · exact h
    · simp [Piece.WellFormed]
  · simp [Piece.WellFormed]

theorem wellFormed_pieces_field {base : TypeDescriptor} (h : base.Sound)
    (requiredNames : List String) (name : String) (node : Members Json) :
    ∀ p, Piece.Contains (.field (fieldOf requiredNames name node base)) p → p.WellFormed :=
  pieces_field wellFormed_leaves h.pieces (wellFormed_fieldOf h.unformatted _ _ _)
    (wellFormed_nullable (pieces_refine wellFormed_leaves h.pieces node _ .refl))

/-! ## What the compiler makes -/

/-- The type that a node has is sound. -/
abbrev SoundlyTyped : Typing := fun _ _ t => t.Sound

theorem wellFormed_pieces_fields {requiredNames : List String} {properties : Members Json}
    {fields : List Field}
    (h : List.Forall₂ (FieldFrom SoundlyTyped requiredNames) properties fields) :
    ∀ f ∈ fields, ∀ p, Piece.Contains (.field f) p → p.WellFormed := by
  intro f hf
  obtain ⟨⟨name, value⟩, -, child, base, -, hbase, rfl⟩ := exists_of_forall₂ h.flip hf
  exact wellFormed_pieces_field hbase _ _ _

theorem sound_typed {node : Members Json} {hint : Option String} {t : TypeDescriptor}
    (h : TypedAs node SoundlyTyped hint t) : t.Sound := by
  cases h with
  | any | scalar => exact ⟨unformatted_primitive _, pieces_leaf trivial fun _ hq => nomatch hq⟩
  | anyList | mapping => exact ⟨⟨by simp, by simp⟩, pieces_leaf trivial fun _ hq => nomatch hq⟩
  | listOf _ _ _ ht =>
    refine ⟨⟨by simp, by simp⟩, Piece.forall_contains_iff.mpr ⟨trivial, ?_⟩⟩
    rintro _ ⟨⟩
    exact ht.pieces
  | composite _ hne hfields =>
    refine ⟨⟨by simp, by simp⟩, Piece.forall_contains_iff.mpr ⟨⟨?_, rfl, rfl⟩, ?_⟩⟩
    · intro hnil
      simp only at hnil
      rw [hnil] at hfields
      exact hne (List.forall₂_nil_right_iff.mp hfields)
    · rintro _ ⟨⟩
      exact pieces_model trivial rfl (wellFormed_pieces_fields hfields)

theorem sound_step {root node : Members Json} {hint : Option String} {t : TypeDescriptor}
    (h : StepsTo root node SoundlyTyped hint t) : t.Sound := by
  have hall : ∀ {nodes : List (Members Json)} {types : List TypeDescriptor},
      List.Forall₂ (SoundlyTyped none) nodes types → ∀ u ∈ types, u.Sound := by
    intro nodes types htypes u hu
    obtain ⟨_, -, hsound⟩ := exists_of_forall₂ htypes.flip hu
    exact hsound
  cases h with
  | reference _ _ ht => exact ht
  | only _ _ _ ht => exact ht
  | typed _ _ _ ht => exact sound_typed ht
  | @union nodes types _ _ hne htypes =>
    refine ⟨⟨by simp, ?_⟩, pieces_union ?_ fun u hu => (hall htypes u hu).pieces⟩
    · rintro ts kind heq hmem
      cases heq
      exact (hall htypes _ hmem).unformatted.no_semantic kind rfl
    · intro hnil
      rw [hnil] at htypes
      exact hne (List.forall₂_nil_right_iff.mp htypes)
  | @intersection nodes types _ _ _ hlength htypes =>
    refine ⟨⟨by simp, by simp⟩, pieces_intersection ?_ fun u hu => (hall htypes u hu).pieces⟩
    rw [htypes.length_eq] at hlength
    exact hlength

theorem sound_of_settled {root node : Members Json} {hint : Option String} {t : TypeDescriptor}
    (h : Settled root hint node t) : t.Sound :=
  typing_of_steps SoundlyTyped sound_step h.finite h.found

/-- A compiled model extends nothing, has the overrides it was compiled with, and every piece of its
fields is well formed. -/
structure Definition.Compiled (d : Definition) (overrides : Overrides) : Prop where
  base : d.base = []
  overrides : d.overrides = overrides
  fields : ∀ f ∈ d.fields, ∀ p, Piece.Contains (.field f) p → p.WellFormed

theorem compiled_of_compile {schema : Members Json} {root : Option (Members Json)}
    {overrides : Overrides} {d : Definition} (h : compileSchema schema root overrides = .ok d) :
    d.Compiled overrides := by
  unfold compileSchema at h
  obtain ⟨fields, hfields, rfl⟩ := buildDefinition_ok_iff.mp h
  have hsound : List.Forall₂ (FieldFrom SoundlyTyped (textsOf (schema.get? "required")))
      (propertiesOf schema) fields :=
    fields_imp hfields fun _ _ _ _ ht => sound_of_settled ht
  exact ⟨rfl, rfl, wellFormed_pieces_fields hsound⟩

/-- Whatever a schema compiles to, every piece of it is well formed, at any depth. -/
theorem every_piece_of_a_compiled_model_is_well_formed {schema : Members Json}
    {root : Option (Members Json)} {overrides : Overrides} {d : Definition}
    (h : compileSchema schema root overrides = .ok d) :
    ∀ p, Piece.Contains (.model d) p → p.WellFormed :=
  pieces_model trivial (compiled_of_compile h).base (compiled_of_compile h).fields

/-! ## A model of parcels -/

/-- A parcel has a weight, and perhaps a label, a link to follow it, a seal and some contents. -/
def parcelSchema : Members Json :=
  [("properties", .obj
      [("weight", .obj [("type", .str "integer"), ("minimum", .num (.ofNat 1))]),
        ("label", .obj [("type", .str "string"), ("maxLength", .num (.ofNat 40))]),
        ("link", .obj [("type", .str "string"), ("format", .str "uri"),
          ("scheme", .arr [.str "https", .str "ftp"])]),
        ("seal", .obj [("type", .str "string"), ("format", .str "binary")]),
        ("contents", .obj [("type", .str "array"), ("items", .obj [("$ref", .str "#/$defs/Item")])])]),
    ("required", .arr [.str "weight", .str "seal"]),
    ("$defs", .obj
      [("Item", .obj [("type", .str "object"),
        ("properties", .obj [("name", .obj [("anyOf", .arr
          [.obj [("type", .str "string")], .obj [("type", .str "null")]])])])])])]

def parcelModel : Definition :=
  let item : Definition :=
    ⟨"Contents", [], [⟨"name", .union [.primitive .string, .primitive .null], false, true, none, [], {}⟩],
      {}⟩
  ⟨fallbackName, [],
    [⟨"weight", .primitive .integer, true, false, none, [], { atLeast := some (.ofNat 1) }⟩,
      ⟨"label", .nullable (.primitive .string), false, true, none, [],
        { maxLength := some (.ofNat 40) }⟩,
      ⟨"link", .nullable (.semantic .uri), false, true, none, [],
        { schemes := some ["https", "ftp"] }⟩,
      ⟨"seal", .semantic .strictBytes, true, false, none, [], { strict := true }⟩,
      ⟨"contents", .nullable (.listOf (.composite item)), false, true, none, [], {}⟩], {}⟩

theorem every_piece_of_a_parcel_is_well_formed :
    compileSchema parcelSchema = .ok parcelModel ∧
      ∀ p, Piece.Contains (.model parcelModel) p → p.WellFormed := by
  have hcompile : compileSchema parcelSchema = .ok parcelModel := rfl
  exact ⟨hcompile, every_piece_of_a_compiled_model_is_well_formed hcompile⟩

end JsonModel
