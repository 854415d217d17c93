-- The names of nested models. A property passes its name on, through references and the items of lists, to
-- the object schema at the end of the way, which takes it for a title if it has none of its own. What
-- counts as a title is another thing to the model that is built of the schema: it has to be a text, and
-- not an empty one.
import JsonModel.Proofs.Compile.Inside
import JsonModel.Proofs.Compile.Site

namespace JsonModel

/-! ## Ways to an object schema -/

/-- A node leads to another one through references and the items of so many lists. -/
inductive LeadsThrough (root : Members Json) : Nat → Members Json → Members Json → Prop
  | here {node : Members Json} : LeadsThrough root 0 node node
  | reference {depth : Nat} {node target last : Members Json} : Refers root node target →
      LeadsThrough root depth target last → LeadsThrough root depth node last
  | items {depth : Nat} {node items last : Members Json} : reads node "items" = true →
      node.get? "items" = some (.obj items) → items ≠ [] → LeadsThrough root depth items last →
      LeadsThrough root (depth + 1) node last

/-- A node describes a model: its type counts, and is an object with properties. -/
structure DescribesModel (node : Members Json) : Prop where
  reads_properties : reads node "properties" = true
  has_properties : propertiesOf node ≠ []

/-- A type within so many lists. -/
def TypeDescriptor.listed (t : TypeDescriptor) : Nat → TypeDescriptor
  | 0 => t
  | depth + 1 => .listOf (t.listed depth)

/-- The hint comes along the whole way, by induction on it. -/
theorem LeadsThrough.settled {root node last : Members Json} {depth : Nat} {hint : Option String}
    {t : TypeDescriptor} (h : LeadsThrough root depth node last) (ht : Settled root hint node t) :
    ∃ u, Settled root hint last u ∧ t = u.listed depth := by
  induction h generalizing t with
  | here => exact ⟨t, ht, rfl⟩
  | reference hrefers _ ih => exact ih (hrefers.settled_iff.mp ht)
  | items hreads hitems hne _ ih =>
    obtain ⟨hreads, htype⟩ := reads_items.mp hreads
    obtain ⟨inner, hinner, rfl⟩ := (settled_listOf_iff hreads htype hitems hne).mp ht
    obtain ⟨u, hu, rfl⟩ := ih hinner
    exact ⟨u, hu, rfl⟩

theorem DescribesModel.composite {root node : Members Json} {hint : Option String}
    {t : TypeDescriptor} (h : DescribesModel node) (ht : Settled root hint node t) :
    ∃ m : Definition, t = .composite m ∧ m.name = modelName (withTitle hint node) := by
  obtain ⟨hreads, htype⟩ := JsonModel.reads_properties.mp h.reads_properties
  obtain ⟨fields, -, rfl⟩ := (settled_composite_iff hreads htype h.has_properties).mp ht
  exact ⟨_, rfl, rfl⟩

/-! ## Title case -/

theorem upperCase_ne_nil (c : Char) : upperCase c ≠ [] := by
  unfold upperCase
  split
  · rename_i text htext
    obtain ⟨before, after, heq, -⟩ := List.lookup_eq_some_iff.mp htext
    have hfilled : ∀ entry ∈ upperTexts, entry.2 ≠ [] := by decide
    simpa using hfilled (c.toNat, text) (by rw [heq]; simp)
  · split <;> simp

theorem titleFrom_ne_nil {word cs : List Char} (h : word ≠ [] ∨ cs ≠ []) :
    titleFrom word cs ≠ [] := by
  induction cs generalizing word with
  | nil =>
    have hword : word.reverse ≠ [] := by simpa using h
    unfold titleFrom
    cases hreverse : word.reverse with
    | nil => exact absurd hreverse hword
    | cons c rest => simp [titleWord, upperCase_ne_nil]
  | cons c cs ih =>
    unfold titleFrom
    split
    · exact ih (.inl (List.cons_ne_nil _ _))
    · simp

theorem titleCase_eq_empty_iff {name : String} : titleCase name = "" ↔ name = "" := by
  unfold titleCase
  constructor
  · intro h
    by_contra hname
    have hcs : name.toList ≠ [] := by simpa using hname
    exact titleFrom_ne_nil (.inr hcs) (by simpa using h)
  · rintro rfl
    rfl

/-! ## Names -/

/-- The name for the model of a node that is reached from a property: its title, or else the name of
the property in title case. -/
def nestedName (property : String) (node : Members Json) : String :=
  match node.get? "title" with
  | some (.str title) => if title = "" then titleCase property else title
  | _ => titleCase property

/-- A node has a title of its own, or none at all and the name of the property serves as one. -/
def Nameable (property : String) (node : Members Json) : Prop :=
  (∃ title, node.get? "title" = some (.str title) ∧ title ≠ "") ∨
    (node.get? "title" = none ∨ node.get? "title" = some .null) ∧ property ≠ ""

theorem modelName_of_title {node : Members Json} {title : String}
    (h : node.get? "title" = some (.str title)) :
    modelName node = if title = "" then fallbackName else title := by
  unfold modelName
  rw [h]

theorem modelName_withTitle_of_none {node : Members Json} {hint : String}
    (h : node.get? "title" = none ∨ node.get? "title" = some .null) :
    modelName (withTitle (some hint) node) = if hint = "" then fallbackName else hint := by
  have hput : withTitle (some hint) node = node.put "title" (.str hint) := by
    unfold withTitle
    rcases h with h | h
    · rw [h]
    · rw [h]
  rw [hput, modelName_of_title]
  rw [Members.get?_put, if_pos rfl]

/-- A title of any kind stays what it is, unless it is null. -/
theorem withTitle_of_some {node : Members Json} {hint : Option String} {title : Json}
    (h : node.get? "title" = some title) (hne : title ≠ .null) : withTitle hint node = node := by
  unfold withTitle
  rw [h]
  cases hint <;> cases title <;> simp_all

theorem modelName_of_other {node : Members Json} {title : Json}
    (h : node.get? "title" = some title) (hother : ∀ text, title ≠ .str text) :
    modelName node = fallbackName := by
  unfold modelName
  rw [h]
  cases title <;> simp_all

/-- A model that is nested under a property has the name that is meant for it exactly where there is
one, and the fallback name elsewhere. -/
theorem modelName_withTitle (property : String) (node : Members Json) :
    (Nameable property node → modelName (withTitle (some (titleCase property)) node) =
        nestedName property node) ∧
      (¬ Nameable property node → modelName (withTitle (some (titleCase property)) node) =
        fallbackName) := by
  by_cases hnone : node.get? "title" = none ∨ node.get? "title" = some .null
  · have hnested : nestedName property node = titleCase property := by
      unfold nestedName
      rcases hnone with h | h <;> rw [h]
    have hnameable : Nameable property node ↔ property ≠ "" := by
      unfold Nameable
      rcases hnone with h | h <;> simp [h]
    rw [modelName_withTitle_of_none hnone, hnested, hnameable]
    simp only [titleCase_eq_empty_iff]
    exact ⟨fun hne => if_neg hne, fun he => if_pos (not_not.mp he)⟩
  · obtain ⟨hsome, hnull⟩ := not_or.mp hnone
    obtain ⟨title, htitle⟩ := Option.ne_none_iff_exists'.mp hsome
    have hne : title ≠ .null := fun he => hnull (he ▸ htitle)
    rw [withTitle_of_some htitle hne]
    cases title with
    | str text =>
      have hnameable : Nameable property node ↔ text ≠ "" := by simp [Nameable, htitle]
      have hnested : nestedName property node = if text = "" then titleCase property else text := by
        unfold nestedName
        rw [htitle]
      rw [modelName_of_title htitle, hnested, hnameable]
      exact ⟨fun htext => by rw [if_neg htext, if_neg htext], fun htext => if_pos (not_not.mp htext)⟩
    | null => exact absurd rfl hne
    | _ =>
      have hnameable : ¬ Nameable property node := by simp [Nameable, htitle]
      exact ⟨fun h => absurd h hnameable, fun _ => modelName_of_other htitle (by simp)⟩

/-! ## The field of a nested model -/

/-- Limits and formats are none of a model's, nor of a list's. -/
theorem fieldOf_listed (requiredNames : List String) (name : String) (node : Members Json)
    (m : Definition) (depth : Nat) :
    (fieldOf requiredNames name node ((TypeDescriptor.composite m).listed depth)).type =
        (TypeDescriptor.composite m).listed depth ∨
      (fieldOf requiredNames name node ((TypeDescriptor.composite m).listed depth)).type =
        .union [(TypeDescriptor.composite m).listed depth, .primitive .null] := by
  have hrefine : (refine ((TypeDescriptor.composite m).listed depth) node).1 =
      (TypeDescriptor.composite m).listed depth := by
    cases depth <;> rfl
  have hnullable : ((TypeDescriptor.composite m).listed depth).nullable =
      .union [(TypeDescriptor.composite m).listed depth, .primitive .null] := by
    cases depth <;> rfl
  unfold fieldOf
  simp only [hrefine, hnullable]
  split
  · exact .inl rfl
  · exact .inr rfl

/-- A property, at any depth, that leads to an object schema through references and the items of lists
gives a field whose model, within so many lists, has the title of that schema for its name, or else the
name of the property in title case. What is no title to a model and yet stands in the place of one, and
a property without a name, leave it with the fallback name. -/
theorem a_nested_model_is_named_by_its_title_or_its_property {schema : Members Json}
    {root : Option (Members Json)} {overrides : Overrides} {d : Definition}
    (hd : compileSchema schema root overrides = .ok d) {name : String}
    {site holder last : Members Json} {depth : Nat}
    (hproperty : PropertyAt (root.getD schema) schema name site holder)
    (hway : LeadsThrough (root.getD schema) depth site last) (hlast : DescribesModel last) :
    ∃ f m, compileField name site (textsOf (holder.get? "required")) (root.getD schema) = .ok f ∧
      Piece.Contains (.model d) (.field f) ∧
      (f.type = (TypeDescriptor.composite m).listed depth ∨
        f.type = .union [(TypeDescriptor.composite m).listed depth, .primitive .null]) ∧
      (Nameable name last → m.name = nestedName name last) ∧
      (¬ Nameable name last → m.name = fallbackName) := by
  obtain ⟨f, hf, hinside⟩ := exists_field_of_property hd hproperty
  obtain ⟨base, hbase, rfl⟩ := compileField_ok_iff.mp hf
  obtain ⟨u, hu, rfl⟩ := hway.settled hbase
  obtain ⟨m, rfl, hname⟩ := hlast.composite hu
  refine ⟨_, m, hf, hinside, fieldOf_listed _ _ _ m depth, ?_⟩
  rw [hname]
  exact modelName_withTitle name last

/-- A part of a machine. -/
def partNode : Members Json :=
  [("type", .str "object"), ("title", .null),
    ("properties", .obj [("weight", .obj [("type", .str "number")])])]

/-- Parts in a list, by reference. -/
def partsNode : Members Json :=
  [("type", .str "array"), ("items", .obj [("$ref", .str "#/$defs/Part")])]

/-- A machine with the parts that may be put into it. -/
def machineNode : Members Json :=
  [("type", .str "object"), ("title", .str "Machine"),
    ("properties", .obj [("spare_parts", .obj [("$ref", .str "#/$defs/Parts")])])]

def workshopSchema : Members Json :=
  [("properties", .obj [("engine", .obj [("anyOf", .arr [.obj machineNode])])]),
    ("$defs", .obj [("Part", .obj partNode), ("Parts", .obj partsNode)])]

theorem the_spare_parts_of_an_engine_are_named :
    ∃ d f m, compileSchema workshopSchema = .ok d ∧ Piece.Contains (.model d) (.field f) ∧
      f.name = "spare_parts" ∧ f.type = .union [.listOf (.composite m), .primitive .null] ∧
      m.name = "Spare_Parts" := by
  obtain ⟨d, hd⟩ : ∃ d, compileSchema workshopSchema = .ok d := ⟨_, rfl⟩
  have hengine : Visits workshopSchema [("anyOf", .arr [.obj machineNode])] machineNode :=
    visits_alternative rfl List.mem_cons_self
  have hproperty : PropertyAt workshopSchema workshopSchema "spare_parts"
      [("$ref", .str "#/$defs/Parts")] machineNode :=
    .nested (mem_propertyStops.mpr ⟨"engine", List.mem_cons_self⟩) (.single hengine) rfl
      List.mem_cons_self
  have hway : LeadsThrough workshopSchema 1 [("$ref", .str "#/$defs/Parts")] partNode :=
    .reference ⟨_, rfl, rfl⟩
      (.items rfl rfl (List.cons_ne_nil _ _) (.reference ⟨_, rfl, rfl⟩ .here))
  have hpart : DescribesModel partNode := ⟨rfl, List.cons_ne_nil _ _⟩
  obtain ⟨f, m, hf, hinside, htype, hname, -⟩ :=
    a_nested_model_is_named_by_its_title_or_its_property hd hproperty hway hpart
  refine ⟨d, f, m, hd, hinside, ?_, ?_, hname (.inr ⟨.inr rfl, by decide⟩)⟩
  · cases hf
    rfl
  · cases hf
    cases htype with
    | inl hplain => cases hplain
    | inr hunion => exact hunion

/-- Someone whose title is the empty text. -/
def untitledNode : Members Json :=
  [("type", .str "object"), ("title", .str ""),
    ("properties", .obj [("age", .obj [("type", .str "integer")])])]

/-- Something that has such an owner. -/
def ownedSchema : Members Json :=
  [("properties", .obj [("owner", .obj untitledNode)]), ("required", .arr [.str "owner"])]

/-- The empty title of an owner keeps the name of the property away from the model, and is no name
itself. -/
theorem an_owner_with_an_empty_title_has_the_fallback_name :
    PropertyAt ownedSchema ownedSchema "owner" untitledNode ownedSchema ∧
      LeadsThrough ownedSchema 0 untitledNode untitledNode ∧ DescribesModel untitledNode ∧
      nestedName "owner" untitledNode = "Owner" ∧
      ∃ d f m, compileSchema ownedSchema = .ok d ∧ d.fields = [f] ∧ f.name = "owner" ∧
        f.type = .composite m ∧ m.name = "DynamicModel" := by
  refine ⟨.own List.mem_cons_self, .here, ⟨rfl, List.cons_ne_nil _ _⟩, rfl, ?_⟩
  exact ⟨_, _, _, rfl, rfl, rfl, rfl, rfl⟩

end JsonModel
