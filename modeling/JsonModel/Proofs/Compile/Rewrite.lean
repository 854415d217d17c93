-- What becomes of a type when one keyword of its node gets another value. A keyword that is not
-- read changes nothing. One that is read passes on what becomes of the types behind it, and types
-- that come apart there come apart here as well.
import JsonModel.Proofs.Compile.Expansion

namespace JsonModel

/-! ## Settled types -/

/-- A node has a type, and every way of its visit has an end. -/
structure Settled (root : Members Json) (hint : Option String) (node : Members Json)
    (t : TypeDescriptor) : Prop where
  finite : FiniteFrom root node
  found : resolveType node root hint = .ok t

/-- A type is settled exactly when it is one step away from settled types. -/
theorem settled_iff {root node : Members Json} {hint : Option String} {t : TypeDescriptor} :
    Settled root hint node t ↔ StepsTo root node (Settled root) hint t := by
  constructor
  · rintro ⟨hfinite, hfound⟩
    rw [resolveType_eq hfinite, resolveOnce_ok_iff] at hfound
    exact hfound.imp fun hint child t hv ht => ⟨hfinite.inv hv, ht⟩
  · intro h
    have hfinite : FiniteFrom root node := by
      refine .intro node fun child hv => ?_
      obtain ⟨hint, t, ht⟩ := h.visited hv
      exact ht.finite
    refine ⟨hfinite, ?_⟩
    rw [resolveType_eq hfinite, resolveOnce_ok_iff]
    exact h.imp fun hint child t _ ht => ht.found

theorem settled_of_resolveType {root node : Members Json} {hint : Option String}
    {t : TypeDescriptor} (h : resolveType node root hint = .ok t) : Settled root hint node t :=
  ⟨finite_of_resolved h, h⟩

/-- A node that refers to another one has the types of that one. -/
theorem settled_target_iff {root node target : Members Json} {hint : Option String}
    {t : TypeDescriptor} {ref : String} (href : reference? node = some ref)
    (htarget : resolveRef ref root = .ok (.obj target)) :
    Settled root hint node t ↔ Settled root hint target t := by
  rw [settled_iff]
  constructor
  · intro h
    cases h with
    | reference hsome hresolved ht =>
      rw [href] at hsome
      cases hsome
      rw [htarget] at hresolved
      cases hresolved
      exact ht
    | union hnone => simp [href] at hnone
    | only hnone => simp [href] at hnone
    | intersection hnone => simp [href] at hnone
    | typed hnone => simp [href] at hnone
  · exact .reference href htarget

/-- A property compiles exactly when its node has a type, and to the field that this type gives. -/
theorem compileField_ok_iff {root node : Members Json} {name : String} {requiredNames : List String}
    {f : Field} : compileField name node requiredNames root = .ok f ↔
      ∃ base, Settled root (some (titleCase name)) node base ∧
        f = fieldOf requiredNames name node base := by
  unfold compileField
  rw [compileFieldWith_eq, map_ok_iff]
  constructor
  · rintro ⟨base, hbase, rfl⟩
    exact ⟨base, settled_of_resolveType hbase, rfl⟩
  · rintro ⟨base, hbase, rfl⟩
    exact ⟨base, hbase.found, rfl⟩

/-- A schema compiles exactly when its properties give fields with settled types. -/
theorem buildDefinition_ok_iff {root schema : Members Json} {overrides : Overrides}
    {d : Definition} : buildDefinition schema root overrides = .ok d ↔
      ∃ fields, List.Forall₂ (FieldFrom (Settled root) (textsOf (schema.get? "required")))
          (propertiesOf schema) fields ∧
        d = { name := modelName schema, base := [], fields, overrides } := by
  constructor
  · intro h
    have hfinite := finite_of_built h
    rw [buildDefinition_eq hfinite, buildDefinitionWith_ok_iff] at h
    obtain ⟨fields, hfields, hd⟩ := h
    exact ⟨fields, fields_imp hfields fun hint child t hstop ht => ⟨hfinite child hstop, ht⟩, hd⟩
  · rintro ⟨fields, hfields, hd⟩
    have hfinite : FiniteExpansion root schema := by
      intro child hchild
      obtain ⟨name, hmem⟩ := mem_propertyStops.mp hchild
      obtain ⟨field, -, child', base, hvalue, hbase, -⟩ := exists_of_forall₂ hfields hmem
      cases hvalue
      exact hbase.finite
    rw [buildDefinition_eq hfinite, buildDefinitionWith_ok_iff]
    exact ⟨fields, fields_imp hfields fun hint child t _ ht => ht.found, hd⟩

theorem Settled.unique {root node : Members Json} {hint : Option String} {t t' : TypeDescriptor}
    (h : Settled root hint node t) (h' : Settled root hint node t') : t = t' :=
  Except.ok.inj (h.found.symm.trans h'.found)

/-! ## Rewriting a keyword -/

/-- Two nodes differ in the value of one keyword at most. -/
structure Rewrites (keyword : String) (old new : Json) (node node' : Members Json) : Prop where
  before : node.get? keyword = some old
  after : node'.get? keyword = some new
  others : ∀ k, k ≠ keyword → node'.get? k = node.get? k

theorem Rewrites.symm {keyword : String} {old new : Json} {node node' : Members Json}
    (h : Rewrites keyword old new node node') : Rewrites keyword new old node' node where
  before := h.after
  after := h.before
  others k hk := (h.others k hk).symm

theorem rewrites_put {keyword : String} {old new : Json} {node : Members Json}
    (h : node.get? keyword = some old) :
    Rewrites keyword old new node (node.put keyword new) where
  before := h
  after := by rw [Members.get?_put, if_pos rfl]
  others k hk := by rw [Members.get?_put, if_neg hk]

/-- A node has no reference, no alternatives and no parts that must all hold: its type counts. -/
def readsType (node : Members Json) : Bool :=
  (reference? node).isNone && (listUnder node "anyOf" ++ listUnder node "oneOf").isEmpty &&
    (listUnder node "allOf").isEmpty

/-- Whether the nodes under a keyword are looked at when the type of a node is found. Definitions are
looked up from the root alone. -/
def reads (node : Members Json) : String → Bool
  | "anyOf" | "oneOf" => (reference? node).isNone
  | "allOf" =>
    (reference? node).isNone && (listUnder node "anyOf" ++ listUnder node "oneOf").isEmpty
  | "items" => readsType node && (node.get? "type").bind Json.str? == some "array"
  | "properties" => readsType node && (node.get? "type").bind Json.str? == some "object"
  | _ => false

/-- The keywords that a node has nodes under. -/
def nodeKeywords : List String :=
  ["anyOf", "oneOf", "allOf", "items", "properties", "$defs"]

section

variable {root node node' : Members Json} {typing : Typing} {hint : Option String}
  {t : TypeDescriptor} {keyword : String}

/-- What holds no nodes is left alone. -/
theorem kept_of_others (hkeyword : keyword ∈ nodeKeywords)
    (hothers : ∀ k, k ≠ keyword → node'.get? k = node.get? k) {k : String}
    (hk : k ∉ nodeKeywords) : node'.get? k = node.get? k := by
  apply hothers
  rintro rfl
  exact hk hkeyword

theorem reference?_congr (h : node'.get? "$ref" = node.get? "$ref") :
    reference? node' = reference? node := by
  unfold reference?
  rw [h]

theorem listUnder_congr (h : node'.get? keyword = node.get? keyword) :
    listUnder node' keyword = listUnder node keyword := by
  unfold listUnder
  rw [h]

theorem propertiesOf_congr (h : node'.get? "properties" = node.get? "properties") :
    propertiesOf node' = propertiesOf node := by
  unfold propertiesOf
  rw [h]

theorem modelName_congr (h : node'.get? "title" = node.get? "title") :
    modelName node' = modelName node := by
  unfold modelName
  rw [h]

theorem get?_title_withTitle (hint : Option String)
    (h : node'.get? "title" = node.get? "title") :
    (withTitle hint node').get? "title" = (withTitle hint node).get? "title" := by
  unfold withTitle
  rw [h]
  split
  · rw [Members.get?_put, Members.get?_put, if_pos rfl, if_pos rfl]
  · rw [Members.get?_put, Members.get?_put, if_pos rfl, if_pos rfl]
  · exact h

/-- Nodes that agree on what the type keyword looks at are typed alike. -/
theorem TypedAs.congr (htype : node'.get? "type" = node.get? "type")
    (hitems : node.get? "type" = some (.str "array") → node'.get? "items" = node.get? "items")
    (hproperties : node.get? "type" = some (.str "object") →
      node'.get? "properties" = node.get? "properties")
    (htitle : node'.get? "title" = node.get? "title")
    (hrequired : node'.get? "required" = node.get? "required")
    (h : TypedAs node typing hint t) : TypedAs node' typing hint t := by
  cases h with
  | any ht => exact .any (htype.trans ht)
  | scalar ht hkind => exact .scalar (htype.trans ht) hkind
  | anyList ht hnone => exact .anyList (htype.trans ht) (by rwa [hitems ht])
  | listOf ht hsome hne htyping =>
    exact .listOf (htype.trans ht) ((hitems ht).trans hsome) hne htyping
  | mapping ht hnone => exact .mapping (htype.trans ht) (by rwa [hproperties ht])
  | composite ht hne hfields =>
    have hsame := propertiesOf_congr (hproperties ht)
    rw [← modelName_congr (get?_title_withTitle hint htitle)]
    refine .composite (htype.trans ht) (by rwa [hsame]) ?_
    rwa [hsame, hrequired]

theorem reads_alternatives (hnone : reference? node = none) :
    reads node "anyOf" = true ∧ reads node "oneOf" = true := by
  simp [reads, hnone]

theorem reads_parts (hnone : reference? node = none)
    (hempty : listUnder node "anyOf" ++ listUnder node "oneOf" = []) :
    reads node "allOf" = true := by
  simp [reads, hnone, hempty]

theorem typeName_eq_some {name : String} :
    (node.get? "type").bind Json.str? = some name ↔ node.get? "type" = some (.str name) := by
  rw [Option.bind_eq_some_iff]
  constructor
  · rintro ⟨j, hj, hname⟩
    cases j with
    | str s =>
      cases hname
      exact hj
    | _ => simp [Json.str?] at hname
  · intro h
    exact ⟨_, h, rfl⟩

theorem readsType_iff : readsType node = true ↔ reference? node = none ∧
    listUnder node "anyOf" ++ listUnder node "oneOf" = [] ∧ listUnder node "allOf" = [] := by
  unfold readsType
  simp only [Bool.and_eq_true, Option.isNone_iff_eq_none, List.isEmpty_iff, and_assoc]

theorem reads_items : reads node "items" = true ↔
    readsType node = true ∧ node.get? "type" = some (.str "array") := by
  simp only [reads, Bool.and_eq_true, beq_iff_eq, typeName_eq_some]

theorem reads_properties : reads node "properties" = true ↔
    readsType node = true ∧ node.get? "type" = some (.str "object") := by
  simp only [reads, Bool.and_eq_true, beq_iff_eq, typeName_eq_some]

theorem Rewrites.readsType_eq {old new : Json} (h : Rewrites keyword old new node node')
    (hkeyword : keyword ∉ ["$ref", "anyOf", "oneOf", "allOf"]) :
    readsType node' = readsType node := by
  have hsame : ∀ k ∈ ["$ref", "anyOf", "oneOf", "allOf"], node'.get? k = node.get? k := by
    intro k hk
    apply h.others
    rintro rfl
    exact hkeyword hk
  unfold readsType
  rw [reference?_congr (hsame _ (by decide)), listUnder_congr (hsame "anyOf" (by decide)),
    listUnder_congr (hsame "oneOf" (by decide)), listUnder_congr (hsame "allOf" (by decide))]

/-- Whether a keyword is read does not depend on its value. -/
theorem Rewrites.reads_eq {old new : Json} (h : Rewrites keyword old new node node')
    (hkeyword : keyword ∈ nodeKeywords) : reads node' keyword = reads node keyword := by
  have href : reference? node' = reference? node := by
    apply reference?_congr
    apply kept_of_others hkeyword h.others
    decide
  have htype : node'.get? "type" = node.get? "type" := by
    apply kept_of_others hkeyword h.others
    decide
  simp only [nodeKeywords, List.mem_cons, List.not_mem_nil, or_false] at hkeyword
  rcases hkeyword with rfl | rfl | rfl | rfl | rfl | rfl
  · simp only [reads, href]
  · simp only [reads, href]
  · simp only [reads, href, listUnder_congr (h.others "anyOf" (by decide)),
      listUnder_congr (h.others "oneOf" (by decide))]
  · simp only [reads, h.readsType_eq (by decide), htype]
  · simp only [reads, h.readsType_eq (by decide), htype]
  · rfl

/-- Where the type counts, a step is what the type keyword makes of the node. -/
theorem stepsTo_iff_typed (h : readsType node = true) :
    StepsTo root node typing hint t ↔ TypedAs node typing hint t := by
  obtain ⟨hnone, hempty, hparts⟩ := readsType_iff.mp h
  constructor
  · intro hsteps
    cases hsteps with
    | reference hsome => simp [hnone] at hsome
    | union _ hentries hne =>
      rw [hempty] at hentries
      exact absurd (List.map_eq_nil_iff.mp hentries.symm) hne
    | only _ _ hpart => simp [hparts] at hpart
    | intersection _ _ hall hlength =>
      rw [hparts] at hall
      rw [List.map_eq_nil_iff.mp hall.symm] at hlength
      simp at hlength
    | typed _ _ _ ht => exact ht
  · exact .typed hnone hempty hparts

theorem settled_typed (hreads : readsType node = true) :
    Settled root hint node t ↔ TypedAs node (Settled root) hint t := by
  rw [settled_iff, stepsTo_iff_typed hreads]

theorem settled_scalar {name : String} {kind : Primitive} (hreads : readsType node = true)
    (htype : node.get? "type" = some (.str name)) (hkind : scalarKind? name = some kind) :
    Settled root hint node (.primitive kind) :=
  (settled_typed hreads).mpr (.scalar htype hkind)

theorem settled_listOf_iff {items : Members Json} (hreads : readsType node = true)
    (htype : node.get? "type" = some (.str "array"))
    (hitems : node.get? "items" = some (.obj items)) (hne : items ≠ []) {hint : Option String}
    {u : TypeDescriptor} :
    Settled root hint node u ↔ ∃ t', Settled root hint items t' ∧ u = .listOf t' := by
  rw [settled_typed hreads]
  constructor
  · intro h
    cases h with
    | listOf _ hitems' _ ht =>
      rw [hitems] at hitems'
      cases hitems'
      exact ⟨_, ht, rfl⟩
    | any hnone => simp [htype] at hnone
    | scalar hname hkind =>
      rw [htype] at hname
      cases hname
      simp [scalarKind?] at hkind
    | anyList _ hnone =>
      rw [hitems, filledObject?_eq_some.mpr ⟨rfl, hne⟩] at hnone
      simp at hnone
    | mapping hname => simp [htype] at hname
    | composite hname => simp [htype] at hname
  · rintro ⟨t', ht', rfl⟩
    exact .listOf htype hitems hne ht'

theorem settled_composite_iff (hreads : readsType node = true)
    (htype : node.get? "type" = some (.str "object")) (hne : propertiesOf node ≠ []) :
    Settled root hint node t ↔ ∃ fields,
      List.Forall₂ (FieldFrom (Settled root) (textsOf (node.get? "required"))) (propertiesOf node)
        fields ∧
      t = .composite { name := modelName (withTitle hint node), base := [], fields, overrides := {} } := by
  rw [settled_typed hreads]
  constructor
  · intro h
    cases h with
    | composite _ _ hfields => exact ⟨_, hfields, rfl⟩
    | any hnone => simp [htype] at hnone
    | scalar hname hkind =>
      rw [htype] at hname
      cases hname
      simp [scalarKind?] at hkind
    | anyList hname => simp [htype] at hname
    | listOf hname => simp [htype] at hname
    | mapping _ hnone => exact absurd (filledObject?_properties_eq_none.mp hnone) hne
  · rintro ⟨fields, hfields, rfl⟩
    exact .composite htype hne hfields

/-- A keyword that is not read may hold anything. -/
theorem StepsTo.unread (hkeyword : keyword ∈ nodeKeywords) (hreads : reads node keyword = false)
    (hothers : ∀ k, k ≠ keyword → node'.get? k = node.get? k)
    (h : StepsTo root node typing hint t) : StepsTo root node' typing hint t := by
  have hkept : ∀ k, k ∉ nodeKeywords → node'.get? k = node.get? k :=
    fun _ => kept_of_others hkeyword hothers
  have href : reference? node' = reference? node := reference?_congr (hkept _ (by decide))
  -- whatever is read stands under another keyword
  have hread : ∀ k, reads node k = true → node'.get? k = node.get? k := by
    intro k hk
    apply hothers
    rintro rfl
    rw [hk] at hreads
    simp at hreads
  have halternatives : reference? node = none →
      listUnder node' "anyOf" ++ listUnder node' "oneOf" =
        listUnder node "anyOf" ++ listUnder node "oneOf" := by
    intro hnone
    obtain ⟨hany, hone⟩ := reads_alternatives hnone
    rw [listUnder_congr (hread _ hany), listUnder_congr (hread _ hone)]
  have hparts' : reference? node = none →
      listUnder node "anyOf" ++ listUnder node "oneOf" = [] →
        listUnder node' "allOf" = listUnder node "allOf" :=
    fun hnone hempty => listUnder_congr (hread _ (reads_parts hnone hempty))
  cases h with
  | reference hsome htarget ht => exact .reference (href.trans hsome) htarget ht
  | union hnone hentries hne htypes =>
    exact .union (href.trans hnone) ((halternatives hnone).trans hentries) hne htypes
  | only hnone hempty hparts ht =>
    exact .only (href.trans hnone) ((halternatives hnone).trans hempty)
      ((hparts' hnone hempty).trans hparts) ht
  | intersection hnone hempty hparts hlength htypes =>
    exact .intersection (href.trans hnone) ((halternatives hnone).trans hempty)
      ((hparts' hnone hempty).trans hparts) hlength htypes
  | typed hnone hempty hparts ht =>
    have htyped : readsType node = true := readsType_iff.mpr ⟨hnone, hempty, hparts⟩
    refine .typed (href.trans hnone) ((halternatives hnone).trans hempty)
      ((hparts' hnone hempty).trans hparts) (ht.congr (hkept _ (by decide)) ?_ ?_
        (hkept _ (by decide)) (hkept _ (by decide)))
    · intro harray
      exact hread _ (reads_items.mpr ⟨htyped, harray⟩)
    · intro hobject
      exact hread _ (reads_properties.mpr ⟨htyped, hobject⟩)

/-- The keywords that the type of a node is found by where it refers to nothing. -/
def structureKeywords : List String :=
  ["anyOf", "oneOf", "allOf", "type", "items", "properties", "title", "required"]

/-- Nodes that refer alike and agree on these keywords make the same of the types behind them. -/
theorem StepsTo.congr_structure (href : reference? node' = reference? node)
    (hsame : ∀ k ∈ structureKeywords, node'.get? k = node.get? k)
    (h : StepsTo root node typing hint t) : StepsTo root node' typing hint t := by
  have hparts' := listUnder_congr (hsame "allOf" (by decide))
  have halternatives : listUnder node' "anyOf" ++ listUnder node' "oneOf" =
      listUnder node "anyOf" ++ listUnder node "oneOf" := by
    rw [listUnder_congr (hsame "anyOf" (by decide)), listUnder_congr (hsame "oneOf" (by decide))]
  cases h with
  | reference hsome htarget ht => exact .reference (href.trans hsome) htarget ht
  | union hnone hentries hne htypes =>
    exact .union (href.trans hnone) (halternatives.trans hentries) hne htypes
  | only hnone hempty hparts ht =>
    exact .only (href.trans hnone) (halternatives.trans hempty) (hparts'.trans hparts) ht
  | intersection hnone hempty hparts hlength htypes =>
    exact .intersection (href.trans hnone) (halternatives.trans hempty) (hparts'.trans hparts)
      hlength htypes
  | typed hnone hempty hparts ht =>
    exact .typed (href.trans hnone) (halternatives.trans hempty) (hparts'.trans hparts)
      (ht.congr (hsame _ (by decide)) (fun _ => hsame _ (by decide)) (fun _ => hsame _ (by decide))
        (hsame _ (by decide)) (hsame _ (by decide)))

/-- Such nodes have the same types. -/
theorem settled_congr_structure (href : reference? node' = reference? node)
    (hsame : ∀ k ∈ structureKeywords, node'.get? k = node.get? k) :
    Settled root hint node' t ↔ Settled root hint node t := by
  rw [settled_iff, settled_iff]
  exact ⟨StepsTo.congr_structure href.symm fun k hk => (hsame k hk).symm,
    StepsTo.congr_structure href hsame⟩

/-- The keywords that the type of a node is found by. -/
def typeKeywords : List String :=
  ["$ref", "anyOf", "oneOf", "allOf", "type", "items", "properties", "title", "required"]

/-- Nodes that agree on these keywords have the same types. -/
theorem settled_congr (hsame : ∀ k ∈ typeKeywords, node'.get? k = node.get? k) :
    Settled root hint node' t ↔ Settled root hint node t :=
  settled_congr_structure (reference?_congr (hsame "$ref" (by decide)))
    fun k hk => hsame k (List.mem_cons_of_mem _ hk)

end

/-! ## Types that come apart -/

/-- Two types are different, and stay so when null is accepted too. -/
structure Apart (t t' : TypeDescriptor) : Prop where
  ne : t ≠ t'
  nullable_ne : t.nullable ≠ t'.nullable
  left : ∀ kind, t ≠ .primitive kind
  right : ∀ kind, t' ≠ .primitive kind

/-- What is made of types keeps those apart that are. -/
def Separates (frame : TypeDescriptor → TypeDescriptor) : Prop :=
  ∀ t t', Apart t t' → Apart (frame t) (frame t')

theorem separates_listOf : Separates .listOf := by
  intro t t' h
  have hne := h.ne
  exact ⟨by simpa, by simpa [TypeDescriptor.nullable], by simp, by simp⟩

theorem apart_composite {d d' : Definition} (h : d ≠ d') :
    Apart (.composite d) (.composite d') :=
  ⟨by simpa, by simpa [TypeDescriptor.nullable], by simp, by simp⟩

theorem Apart.isNull_eq {t t' : TypeDescriptor} (h : Apart t t') : t.isNull = t'.isNull := by
  have hfalse : ∀ {u : TypeDescriptor}, (∀ kind, u ≠ .primitive kind) → u.isNull = false := by
    intro u hu
    cases u with
    | primitive kind => exact absurd rfl (hu kind)
    | _ => rfl
  rw [hfalse h.left, hfalse h.right]

theorem separates_union (before after : List TypeDescriptor) :
    Separates fun t => .union (before ++ t :: after) := by
  intro t t' h
  have hne := h.ne
  refine ⟨by simpa, ?_, by simp, by simp⟩
  have hany : (before ++ t :: after).any TypeDescriptor.isNull =
      (before ++ t' :: after).any TypeDescriptor.isNull := by
    simp only [List.any_append, List.any_cons, h.isNull_eq]
  unfold TypeDescriptor.nullable
  simp only
  rw [hany]
  split
  · simpa
  · simpa

theorem separates_intersection (before after : List TypeDescriptor) :
    Separates fun t => .intersection (before ++ t :: after) := by
  intro t t' h
  have hne := h.ne
  exact ⟨by simpa, by simpa [TypeDescriptor.nullable], by simp, by simp⟩

/-! ## Keywords that are read -/

section

variable {root node node' child child' : Members Json} {typing : Typing} {hint : Option String}
  {t : TypeDescriptor} {keyword : String}

/-- The type of a node comes from the type of one node behind it, and would come from another type
in the same way if the node behind it had another one. -/
def ComesFrom (root child child' node' : Members Json) (typing : Typing)
    (hint hint' : Option String) (t : TypeDescriptor) : Prop :=
  ∃ frame inner, Separates frame ∧ t = frame inner ∧ typing hint' child inner ∧
    ∀ inner', typing hint' child' inner' → StepsTo root node' typing hint (frame inner')

theorem comesFrom_items (hchild' : child' ≠ [])
    (hrewrites : Rewrites "items" (.obj child) (.obj child') node node')
    (hreads : reads node "items" = true) (hchild : child ≠ [])
    (h : StepsTo root node typing hint t) : ComesFrom root child child' node' typing hint hint t := by
  obtain ⟨htyped, htype⟩ := reads_items.mp hreads
  have htyped' : readsType node' = true := by
    rw [hrewrites.readsType_eq (by decide)]
    exact htyped
  have htype' : node'.get? "type" = some (.str "array") :=
    (hrewrites.others _ (by decide)).trans htype
  rw [stepsTo_iff_typed htyped] at h
  have hfilled : filledObject? (node.get? "items") = some child :=
    filledObject?_eq_some.mpr ⟨hrewrites.before, hchild⟩
  cases h with
  | any ht => simp [ht] at htype
  | scalar ht hkind =>
    rw [ht] at htype
    cases htype
    simp [scalarKind?] at hkind
  | anyList _ hnone => simp [hfilled] at hnone
  | mapping ht => simp [ht] at htype
  | composite ht => simp [ht] at htype
  | @listOf items inner _ hitems _ hinner =>
    rw [hrewrites.before] at hitems
    cases hitems
    refine ⟨.listOf, inner, separates_listOf, rfl, hinner, fun inner' hinner' => ?_⟩
    rw [stepsTo_iff_typed htyped']
    exact .listOf htype' hrewrites.after hchild' hinner'

theorem map_obj_replace {before after : List Json} {nodes : List (Members Json)}
    (h : before ++ .obj child :: after = nodes.map .obj) : ∃ before' after',
      nodes = before' ++ child :: after' ∧
        ∀ child', before ++ .obj child' :: after = (before' ++ child' :: after').map .obj := by
  obtain ⟨before', rest, rfl, hbefore, hrest⟩ := List.map_eq_append_iff.mp h.symm
  obtain ⟨child', after', rfl, hchild, hafter⟩ := List.map_eq_cons_iff.mp hrest
  cases hchild
  refine ⟨before', after', rfl, fun child' => ?_⟩
  rw [List.map_append, List.map_cons, hbefore, hafter]

theorem comesFrom_alternatives {before after : List Json} (hnone : reference? node = none)
    (hnone' : reference? node' = none)
    (hbefore : listUnder node "anyOf" ++ listUnder node "oneOf" = before ++ .obj child :: after)
    (hafter : listUnder node' "anyOf" ++ listUnder node' "oneOf" =
      before ++ .obj child' :: after)
    (h : StepsTo root node typing hint t) : ComesFrom root child child' node' typing hint none t := by
  cases h with
  | reference hsome => simp [hnone] at hsome
  | union _ hentries _ htypes =>
    rw [hbefore] at hentries
    obtain ⟨before', after', rfl, hreplace⟩ := map_obj_replace hentries
    obtain ⟨types, inner, types', rfl, hinner, htypes'⟩ := forall₂_replace htypes
    refine ⟨_, inner, separates_union types types', rfl, hinner, fun inner' hinner' => ?_⟩
    exact .union hnone' (hafter.trans (hreplace child')) (by simp) ((htypes' child' inner').mpr hinner')
  | only _ hempty => simp [hbefore] at hempty
  | intersection _ hempty => simp [hbefore] at hempty
  | typed _ hempty => simp [hbefore] at hempty

theorem separates_id : Separates id := fun _ _ h => h

theorem comesFrom_parts {before after : List Json} (hnone : reference? node = none)
    (hnone' : reference? node' = none)
    (hempty : listUnder node "anyOf" ++ listUnder node "oneOf" = [])
    (hempty' : listUnder node' "anyOf" ++ listUnder node' "oneOf" = [])
    (hbefore : listUnder node "allOf" = before ++ .obj child :: after)
    (hafter : listUnder node' "allOf" = before ++ .obj child' :: after)
    (h : StepsTo root node typing hint t) : ComesFrom root child child' node' typing hint none t := by
  cases h with
  | reference hsome => simp [hnone] at hsome
  | union _ hentries hne =>
    rw [hempty] at hentries
    exact absurd (List.map_eq_nil_iff.mp hentries.symm) hne
  | @only single t _ _ hpart ht =>
    rw [hbefore] at hpart
    obtain ⟨before', after', hsingle, hreplace⟩ :=
      @map_obj_replace child before after [single] hpart
    obtain ⟨rfl, hrest⟩ | ⟨rest, rfl, hrest⟩ := List.cons_eq_append_iff.mp hsingle
    · cases hrest
      refine ⟨id, t, separates_id, rfl, ht, fun inner' hinner' => ?_⟩
      exact .only hnone' hempty' (hafter.trans (hreplace child')) hinner'
    · simp at hrest
  | intersection _ _ hparts hlength htypes =>
    rw [hbefore] at hparts
    obtain ⟨before', after', rfl, hreplace⟩ := map_obj_replace hparts
    obtain ⟨types, inner, types', rfl, hinner, htypes'⟩ := forall₂_replace htypes
    refine ⟨_, inner, separates_intersection types types', rfl, hinner,
      fun inner' hinner' => ?_⟩
    exact .intersection hnone' hempty' (hafter.trans (hreplace child')) (by simpa using hlength)
      ((htypes' child' inner').mpr hinner')
  | typed _ _ hparts => simp [hbefore] at hparts

theorem listUnder_of_get? {entries : List Json} (h : node.get? keyword = some (.arr entries)) :
    listUnder node keyword = entries := by
  unfold listUnder
  rw [h]

theorem comesFrom_entry {before after : List Json}
    (hkeyword : keyword ∈ ["anyOf", "oneOf", "allOf"])
    (hrewrites : Rewrites keyword (.arr (before ++ .obj child :: after))
      (.arr (before ++ .obj child' :: after)) node node')
    (hreads : reads node keyword = true) (h : StepsTo root node typing hint t) :
    ComesFrom root child child' node' typing hint none t := by
  have hother : ∀ k, k ≠ keyword → listUnder node' k = listUnder node k :=
    fun k hk => listUnder_congr (hrewrites.others k hk)
  have hbefore := listUnder_of_get? hrewrites.before
  have hafter := listUnder_of_get? hrewrites.after
  have href : reference? node' = reference? node := by
    apply reference?_congr
    apply hrewrites.others
    rintro rfl
    simp at hkeyword
  simp only [List.mem_cons, List.not_mem_nil, or_false] at hkeyword
  rcases hkeyword with rfl | rfl | rfl
  · have hnone : reference? node = none := by simpa [reads] using hreads
    have hentries : listUnder node "anyOf" ++ listUnder node "oneOf" =
        before ++ .obj child :: (after ++ listUnder node "oneOf") := by
      rw [hbefore, List.append_assoc, List.cons_append]
    refine comesFrom_alternatives hnone (href.trans hnone) hentries ?_ h
    rw [hafter, hother _ (by decide), List.append_assoc, List.cons_append]
  · have hnone : reference? node = none := by simpa [reads] using hreads
    have hentries : listUnder node "anyOf" ++ listUnder node "oneOf" =
        (listUnder node "anyOf" ++ before) ++ .obj child :: after := by
      rw [hbefore, List.append_assoc]
    refine comesFrom_alternatives hnone (href.trans hnone) hentries ?_ h
    rw [hafter, hother _ (by decide), List.append_assoc]
  · have hboth : reference? node = none ∧
        listUnder node "anyOf" ++ listUnder node "oneOf" = [] := by
      simpa [reads] using hreads
    obtain ⟨hnone, hempty⟩ := hboth
    refine comesFrom_parts hnone (href.trans hnone) hempty ?_ hbefore hafter h
    rw [hother _ (by decide), hother _ (by decide), hempty]

end

end JsonModel
