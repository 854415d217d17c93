-- What is published of fields and models. A field is published as its type is, but for its default and
-- its description, and a model as an object that has a property for each field it checks.
import JsonModel.Proofs.Outline.Names

namespace JsonModel

/-! ## Keywords that stand aside -/

/-- Outlines that agree on all but some keywords do so in their shorter words too, if alternatives and
parts are not among these keywords. -/
theorem get?_settle_congr {outline outline' : Outline} {aside : List String}
    (hany : "anyOf" ∉ aside) (hall : "allOf" ∉ aside)
    (h : ∀ k, k ∉ aside → outline'.get? k = outline.get? k) {k : String} (hk : k ∉ aside) :
    outline'.settle.get? k = outline.settle.get? k := by
  have hreplaced : ∀ (keyword : String) (words : Outline),
      Members.get? k (Members.erase keyword outline' ++ words) =
        Members.get? k (Members.erase keyword outline ++ words) := by
    intro keyword words
    rw [Members.get?_append, Members.get?_append, Members.get?_erase, Members.get?_erase, h k hk]
  unfold Outline.settle
  rw [h "anyOf" hany, h "allOf" hall]
  split
  · split
    · exact hreplaced _ _
    · exact h k hk
  · split
    · exact hreplaced _ _
    · exact h k hk
  · exact h k hk

/-- What stands before or behind an outline under other keywords hides nothing in it. -/
theorem get?_between {before outline after : Outline} {aside : List String}
    (hbefore : Members.names before ⊆ aside) (hafter : Members.names after ⊆ aside) {k : String}
    (hk : k ∉ aside) : Members.get? k (before ++ outline ++ after) = Members.get? k outline := by
  rw [Members.get?_append, Members.get?_append, get?_of_names hbefore hk, get?_of_names hafter hk,
    Option.none_or, Option.or_none]

/-! ## Fields -/

namespace Field

/-- What a field says of the value under its name. -/
def outline (f : Field) : Outline :=
  (if f.defaultsToNull && !f.type.transforms then [("default", .null)] else [])
    ++ conjoin (f.type.outlines f.limits)
    ++ optionalMember "description" ((f.description.filter (· != "")).map .str)

/-- What is read from the text of that. -/
def published (f : Field) : Members Json := Json.rereadMembers f.outline.settle

/-- The keywords of a field that its type does not have. -/
def ownKeywords : List String := ["default", "description"]

end Field

theorem outlines_eq_map (fields : List Field) :
    Field.outlines fields = fields.map fun f => (f.name, f.defaultsToNull, f.outline) := by
  induction fields with
  | nil => rfl
  | cons f fields ih =>
    obtain ⟨_, _, _, _, _, _, _⟩ := f
    rw [Field.outlines, ih]
    rfl

/-- But for its own keywords a field is published as its type is. -/
theorem get?_published (f : Field) {k : String} (hk : k ∉ Field.ownKeywords) :
    f.published.get? k = (f.type.published f.limits).get? k := by
  have hdefault : Members.names (if f.defaultsToNull && !f.type.transforms
      then [("default", Json.null)] else []) ⊆ Field.ownKeywords := by
    split <;> simp [Members.names, Field.ownKeywords]
  have hdescription := List.Subset.trans
    (names_optional "description" ((f.description.filter (· != "")).map .str))
    (by decide : ["description"] ⊆ Field.ownKeywords)
  unfold Field.published TypeDescriptor.published TypeDescriptor.outline
  rw [Json.get?_rereadMembers, Json.get?_rereadMembers]
  congr 1
  exact get?_settle_congr (by decide) (by decide)
    (fun _ => get?_between hdefault hdescription) hk

theorem settled_published_iff {root : Members Json} {hint : Option String} {f : Field}
    {t : TypeDescriptor} : Settled root hint f.published t ↔
      Settled root hint (f.type.published f.limits) t := by
  have hown : ∀ k ∈ typeKeywords, k ∉ Field.ownKeywords := by decide
  exact settled_congr fun k hk => get?_published f (hown k hk)

theorem refine_published (base : TypeDescriptor) (f : Field) :
    refine base f.published = refine base (f.type.published f.limits) := by
  have hown : ∀ k ∈ refiningKeywords, k ∉ Field.ownKeywords := by decide
  exact refine_congr base fun k hk => get?_published f (hown k hk)

/-! ## Models -/

/-- The object that a model says its data is, but for what other keys may hold. -/
def Definition.described (d : Definition) (additional : Option Json) : ObjectOutline where
  properties := d.checked.map fun m => (m.1, .obj m.2.outline.settle)
  required := Members.names (d.checked.filter fun m => !m.2.defaultsToNull)
  additional

theorem outline_eq_described (d : Definition) :
    ∃ additional, d.outline = (d.described additional).outline := by
  have hdeclared := checked_map d fun f => (f.defaultsToNull, f.outline)
  obtain ⟨name, base, fields, overrides⟩ := d
  rw [Definition.outline, outlines_eq_map, outlines_eq_map, ← List.map_append]
  unfold fieldsOutline Definition.described Members.names
  simp only at hdeclared
  simp only [hdeclared, List.map_map, List.filter_map, Function.comp_def]
  exact ⟨_, rfl⟩

theorem textsOf_strs (texts : List String) : textsOf (some (.arr (texts.map .str))) = texts := by
  have hread : ∀ text : String, (Json.str text).str? = some text := fun _ => rfl
  simp only [textsOf, List.filterMap_map, Function.comp_def, hread, List.filterMap_some]

/-- What an object requires is read back. -/
theorem textsOf_required (o : ObjectOutline) :
    textsOf (Members.get? "required" (Json.rereadMembers o.outline)) = o.required := by
  have hfound : o.outline.get? "required" =
      if o.required.isEmpty then none else some (.arr (o.required.map .str)) := by
    unfold ObjectOutline.outline
    cases o.required.isEmpty <;> cases o.additional <;> rfl
  rw [Json.get?_rereadMembers, hfound]
  split
  · rename_i hempty
    rw [List.isEmpty_iff.mp hempty]
    rfl
  · have hsame : o.required.map (Json.reread ∘ Json.str) = o.required.map Json.str :=
      List.map_congr_left fun text _ => Json.reread_str text
    rw [Option.map_some, Json.reread_arr, List.map_map, hsame, textsOf_strs]

/-- A node has a property for each field that a model checks, and requires those that have no
default. -/
structure Definition.DescribedBy (d : Definition) (node : Members Json) : Prop where
  properties : node.get? "properties" =
    some (.obj (d.checked.map fun m => (m.1, .obj m.2.published)))
  required : textsOf (node.get? "required") =
    Members.names (d.checked.filter fun m => !m.2.defaultsToNull)

theorem describedBy_outline (d : Definition) : d.DescribedBy (Json.rereadMembers d.outline) := by
  obtain ⟨additional, houtline⟩ := outline_eq_described d
  rw [houtline]
  refine ⟨?_, textsOf_required _⟩
  have hfound : (d.described additional).outline.get? "properties" =
      some (.obj (d.described additional).properties) := rfl
  have hproperties : Json.rereadMembers (d.described additional).properties =
      d.checked.map fun m => (m.1, .obj m.2.published) := by
    rw [Json.rereadMembers_eq_map, Definition.described, List.map_map]
    refine List.map_congr_left fun m _ => ?_
    simp only [Function.comp_apply, Json.reread_obj]
    rfl
  rw [Json.get?_rereadMembers, hfound, Option.map_some, Json.reread_obj, hproperties]

/-- The properties of what a model says of its data are read. -/
theorem reads_outline (d : Definition) :
    reads (Json.rereadMembers d.outline) "properties" = true := by
  have hnames : Members.names d.outline ⊆ ObjectOutline.keywords := by
    obtain ⟨_, _, _, _⟩ := d
    exact names_fieldsOutline _ _
  have htype : d.outline.get? "type" = some (.str "object") := by
    obtain ⟨additional, houtline⟩ := outline_eq_described d
    rw [houtline]
    rfl
  refine reads_properties.mpr ⟨readsType_of_absent fun k hk => ?_, ?_⟩
  · have habsent : ∀ k ∈ ["$ref", "anyOf", "oneOf", "allOf"], k ∉ ObjectOutline.keywords := by
      decide
    rw [Json.get?_rereadMembers, get?_of_names hnames (habsent k hk)]
    rfl
  · rw [Json.get?_rereadMembers, htype, Option.map_some, Json.reread_str]

/-- What is published of a model: the members of its document, as they are read from its text. -/
def Definition.published (d : Definition) : Members Json :=
  (d.document.reread.members?).getD []

/-- The document says of the data what the model does. -/
theorem describedBy_published (d : Definition) : d.DescribedBy d.published := by
  have hsame : ∀ k, k ∉ ["$schema", "readOnly"] →
      d.published.get? k = Members.get? k (Json.rereadMembers d.outline) := by
    intro k hk
    have hpublished : d.published = Json.rereadMembers ([("$schema", Json.str vocabulary)]
        ++ optionalMember "readOnly" (if d.overrides.frozen then some (.bool true) else none)
        ++ d.outline) := by
      unfold Definition.published Definition.document
      rw [Json.reread_obj]
      rfl
    have hfirst : Members.names ([("$schema", Json.str vocabulary)]
        ++ optionalMember "readOnly" (if d.overrides.frozen then some (.bool true) else none)) ⊆
          ["$schema", "readOnly"] :=
      names_append (by simp [Members.names])
        (List.Subset.trans (names_optional _ _) (by decide))
    rw [hpublished, Json.get?_rereadMembers, Json.get?_rereadMembers, Members.get?_append,
      get?_of_names hfirst hk, Option.none_or]
  obtain ⟨hproperties, hrequired⟩ := describedBy_outline d
  exact ⟨(hsame _ (by decide)).trans hproperties,
    (congrArg textsOf (hsame _ (by decide))).trans hrequired⟩

/-- A checked field is required exactly if it has no default. -/
theorem Definition.DescribedBy.contains_required {d : Definition} {node : Members Json}
    (h : d.DescribedBy node) {m : String × Field} (hm : m ∈ d.checked) :
    (textsOf (node.get? "required")).contains m.1 = !m.2.defaultsToNull := by
  rw [h.required, Bool.eq_iff_iff, List.contains_iff_mem]
  unfold Members.names
  rw [List.mem_map]
  constructor
  · rintro ⟨m', hm', hname⟩
    obtain ⟨hm', hrequired⟩ := List.mem_filter.mp hm'
    obtain rfl : m' = m := List.inj_on_of_nodup_map (nodup_checked d) hm' hm hname
    exact hrequired
  · exact fun hrequired => ⟨m, List.mem_filter.mpr ⟨hm, hrequired⟩, rfl⟩

end JsonModel
