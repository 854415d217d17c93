-- Writing the target of a reference in its place. The type of a property comes from the target, but
-- the keywords beside the type are those of the property itself, so that the two ways to write it
-- compile alike exactly when the target has no such keyword that counts.
import JsonModel.Proofs.Compile.Rewrite

namespace JsonModel

/-! ## Keywords beside a type -/

/-- A node with a reference and nothing else. -/
def referenceNode (ref : String) : Members Json := [("$ref", .str ref)]

/-- A node has nothing beside its type that counts for a field: no text on it, no bounds on its
numbers, and no form or length for its texts. -/
structure Bare (base : TypeDescriptor) (node : Members Json) : Prop where
  description : description? node = none
  examples : examplesOf node = []
  bounds : base.isPrimitive [.integer, .number] = true → numberLimits node = {}
  format : base.isPrimitive [.string] = true → format? node = none
  lengths : base.isPrimitive [.string] = true → lengthLimits node = {}

theorem refine_of_bare {base : TypeDescriptor} {node : Members Json} (h : Bare base node) :
    refine base node = (base, {}) := by
  unfold refine
  split
  · rename_i hnumber
    rw [h.bounds hnumber]
  · split
    · rename_i hstring
      rw [h.format hstring, h.lengths hstring]
    · rfl

theorem bare_referenceNode (base : TypeDescriptor) (ref : String) :
    Bare base (referenceNode ref) :=
  ⟨rfl, rfl, fun _ => rfl, fun _ => rfl, fun _ => rfl⟩

theorem isPrimitive_string {base : TypeDescriptor} (h : base.isPrimitive [.string] = true) :
    base = .primitive .string := by
  unfold TypeDescriptor.isPrimitive at h
  split at h
  · rename_i kind
    cases kind <;> simp_all
  · simp at h

/-- The type of a field: null is accepted too, unless the field is required. -/
def fieldType (required : Bool) (t : TypeDescriptor) : TypeDescriptor :=
  if required then t else t.nullable

/-- What a format stands for is never a primitive type. -/
theorem fieldType_narrow_ne (required : Bool) (format : StringFormat) (node : Members Json)
    (kind : Primitive) :
    fieldType required (format.narrow node).1 ≠ fieldType required (.primitive kind) := by
  have hne : (format.narrow node).1 ≠ .primitive kind ∧
      (format.narrow node).1.nullable ≠ (TypeDescriptor.primitive kind).nullable := by
    unfold StringFormat.narrow
    split
    · cases kind <;> simp [StringFormat.type, TypeDescriptor.nullable]
    · split <;> cases kind <;> simp [StringFormat.type, TypeDescriptor.nullable]
    · split <;> cases kind <;> simp [StringFormat.type, TypeDescriptor.nullable]
    · cases format <;> cases kind <;> simp [StringFormat.type, TypeDescriptor.nullable,
        TypeDescriptor.isNull, TypeDescriptor.isPrimitive]
  obtain ⟨hplain, hnullable⟩ := hne
  cases required with
  | true => exact hplain
  | false => exact hnullable

/-- A field is the one of a plain reference exactly if its node is bare and the types agree. The
reference has the type of the node, or it stands for any value. -/
theorem fieldOf_eq_iff {requiredNames : List String} {name ref : String}
    {base base' : TypeDescriptor} {node : Members Json}
    (hbase : base' = base ∨ base = .primitive .any) :
    fieldOf requiredNames name node base' =
        fieldOf requiredNames name (referenceNode ref) base ↔
      Bare base' node ∧ fieldType (requiredNames.contains name) base' =
        fieldType (requiredNames.contains name) base := by
  have hplain := refine_of_bare (bare_referenceNode base ref)
  unfold fieldOf
  rw [hplain]
  constructor
  · intro h
    rw [Field.mk.injEq] at h
    obtain ⟨-, htype, -, -, hdescription, hexamples, hlimits⟩ := h
    have hbounds : base'.isPrimitive [.integer, .number] = true → numberLimits node = {} := by
      intro hnumber
      unfold refine at hlimits
      rw [if_pos hnumber] at hlimits
      exact hlimits
    have htext : base'.isPrimitive [.string] = true →
        format? node = none ∧ lengthLimits node = {} := by
      intro hstring
      obtain rfl := isPrimitive_string hstring
      cases hformat : format? node with
      | none =>
        have hrefine : refine (.primitive .string) node =
            (.primitive .string, lengthLimits node) := by
          simp [refine, TypeDescriptor.isPrimitive, hformat]
        rw [hrefine] at hlimits
        exact ⟨rfl, hlimits⟩
      | some format =>
        have hrefine : refine (.primitive .string) node = format.narrow node := by
          simp [refine, TypeDescriptor.isPrimitive, hformat]
        rw [hrefine] at htype
        rcases hbase with rfl | rfl
        · exact absurd htype (fieldType_narrow_ne _ format node .string)
        · exact absurd htype (fieldType_narrow_ne _ format node .any)
    have hbare : Bare base' node :=
      ⟨hdescription, hexamples, hbounds, fun h => (htext h).1, fun h => (htext h).2⟩
    rw [refine_of_bare hbare] at htype
    exact ⟨hbare, htype⟩
  · rintro ⟨hbare, htype⟩
    rw [refine_of_bare hbare, hbare.description, hbare.examples, Field.mk.injEq]
    exact ⟨rfl, htype, rfl, rfl, rfl, rfl, rfl⟩

/-! ## Places of a property -/

/-- One node is replaced by another under a keyword: a property, the items of a list, an entry of a
list of nodes, or a definition. -/
inductive Replaces (child child' : Members Json) :
    String → Members Json → Members Json → Prop
  | property {name : String} {before after : Members Json} {node node' : Members Json} :
      Rewrites "properties" (.obj (before ++ (name, .obj child) :: after))
        (.obj (before ++ (name, .obj child') :: after)) node node' →
      Replaces child child' "properties" node node'
  | items {node node' : Members Json} :
      Rewrites "items" (.obj child) (.obj child') node node' →
      Replaces child child' "items" node node'
  | entry {keyword : String} {before after : List Json} {node node' : Members Json} :
      keyword ∈ ["anyOf", "oneOf", "allOf"] →
      Rewrites keyword (.arr (before ++ .obj child :: after))
        (.arr (before ++ .obj child' :: after)) node node' →
      Replaces child child' keyword node node'
  | definition {name : String} {before after : Members Json} {node node' : Members Json} :
      Rewrites "$defs" (.obj (before ++ (name, .obj child) :: after))
        (.obj (before ++ (name, .obj child') :: after)) node node' →
      Replaces child child' "$defs" node node'

/-- Whether the nodes under a keyword are looked at: of a whole schema, the properties alone. -/
def looksAt (whole : Bool) (node : Members Json) (keyword : String) : Bool :=
  if whole then keyword == "properties" else reads node keyword

/-- At one place of a node, at any depth, the property `name`, required or not, is a plain
reference, and the target of the reference is written there instead. The place is `seen` if all
keywords on the way to it are looked at. -/
inductive Inlines (name ref : String) (required : Bool) (target : Members Json) :
    Bool → Bool → Members Json → Members Json → Prop
  | here {whole : Bool} {before after : Members Json} {node node' : Members Json} :
      (textsOf (node.get? "required")).contains name = required →
      Rewrites "properties" (.obj (before ++ (name, .obj (referenceNode ref)) :: after))
        (.obj (before ++ (name, .obj target) :: after)) node node' →
      Inlines name ref required target whole (looksAt whole node "properties") node node'
  | inside {whole seen : Bool} {keyword : String} {child child' node node' : Members Json} :
      Inlines name ref required target false seen child child' →
      Replaces child child' keyword node node' →
      Inlines name ref required target whole (looksAt whole node keyword && seen) node node'

variable {name ref : String} {required : Bool} {target : Members Json} {whole seen : Bool}

theorem Replaces.keyword_mem {child child' node node' : Members Json} {keyword : String}
    (h : Replaces child child' keyword node node') : keyword ∈ nodeKeywords := by
  cases h with
  | property | items | definition => decide
  | entry hkeyword =>
    simp only [List.mem_cons, List.not_mem_nil, or_false] at hkeyword
    rcases hkeyword with rfl | rfl | rfl <;> decide

theorem Replaces.others {child child' node node' : Members Json} {keyword : String}
    (h : Replaces child child' keyword node node') {k : String} (hk : k ≠ keyword) :
    node'.get? k = node.get? k := by
  cases h with
  | property hrewrites | items hrewrites | entry _ hrewrites | definition hrewrites =>
    exact hrewrites.others k hk

/-- Keywords that hold no nodes are left alone. -/
theorem Inlines.keeps {node node' : Members Json}
    (h : Inlines name ref required target whole seen node node') {k : String} (hk : k ∉ nodeKeywords) :
    node'.get? k = node.get? k := by
  cases h with
  | here _ hrewrites => exact kept_of_others (by decide) hrewrites.others hk
  | inside _ hreplaces =>
    exact kept_of_others hreplaces.keyword_mem (fun _ => hreplaces.others) hk

theorem Inlines.ne_nil {node node' : Members Json}
    (h : Inlines name ref required target whole seen node node') : node ≠ [] ∧ node' ≠ [] := by
  have hne : ∀ {ms : Members Json} {k : String} {j : Json}, ms.get? k = some j → ms ≠ [] := by
    rintro _ k j hget rfl
    simp at hget
  cases h with
  | here _ hrewrites => exact ⟨hne hrewrites.before, hne hrewrites.after⟩
  | inside _ hreplaces =>
    cases hreplaces with
    | property hrewrites | items hrewrites | entry _ hrewrites | definition hrewrites =>
      exact ⟨hne hrewrites.before, hne hrewrites.after⟩

/-! ## What becomes of fields -/

theorem numberAt_congr {node node' : Members Json} {keyword : String}
    (h : node'.get? keyword = node.get? keyword) :
    numberAt node' keyword = numberAt node keyword := by
  unfold numberAt
  rw [h]

/-- The keywords beside a type that refine it. -/
def refiningKeywords : List String :=
  ["minimum", "exclusiveMinimum", "maximum", "exclusiveMaximum", "multipleOf", "minLength",
    "maxLength", "format", "writeOnly", "scheme"]

theorem narrow_congr (format : StringFormat) {node node' : Members Json}
    (h : ∀ k ∈ refiningKeywords, node'.get? k = node.get? k) :
    format.narrow node' = format.narrow node := by
  unfold StringFormat.narrow
  rw [h "writeOnly" (by decide), h "scheme" (by decide)]

/-- A type is refined alike by nodes that agree on the keywords that refine it. -/
theorem refine_congr (base : TypeDescriptor) {node node' : Members Json}
    (h : ∀ k ∈ refiningKeywords, node'.get? k = node.get? k) :
    refine base node' = refine base node := by
  have hformat : format? node' = format? node := by
    unfold format?
    rw [h "format" (by decide)]
  have hnarrow : ∀ format : StringFormat, format.narrow node' = format.narrow node :=
    fun format => narrow_congr format h
  have hnumbers : numberLimits node' = numberLimits node := by
    unfold numberLimits
    rw [numberAt_congr (h "minimum" (by decide)), numberAt_congr (h "exclusiveMinimum" (by decide)),
      numberAt_congr (h "maximum" (by decide)), numberAt_congr (h "exclusiveMaximum" (by decide)),
      numberAt_congr (h "multipleOf" (by decide))]
  have hlengths : lengthLimits node' = lengthLimits node := by
    unfold lengthLimits
    rw [numberAt_congr (h "minLength" (by decide)), numberAt_congr (h "maxLength" (by decide))]
  unfold refine
  rw [hformat, hnumbers, hlengths]
  simp only [hnarrow]

/-- Where none of these keywords is there, the type stays as it is. -/
theorem refine_of_absent (base : TypeDescriptor) {node : Members Json}
    (h : ∀ k ∈ refiningKeywords, node.get? k = none) : refine base node = (base, {}) := by
  have hempty : refine base [] = (base, {}) := by
    cases base with
    | primitive kind => cases kind <;> rfl
    | _ => rfl
  rw [← hempty]
  exact refine_congr base fun k hk => h k hk

/-- The keywords that are read beside the type of a property. -/
def besideKeywords : List String := refiningKeywords ++ ["description", "examples"]

/-- Nodes that have the same beside their type give the same field. -/
theorem fieldOf_congr (requiredNames : List String) (name : String) (base : TypeDescriptor)
    {node node' : Members Json} (h : ∀ k ∈ besideKeywords, node'.get? k = node.get? k) :
    fieldOf requiredNames name node' base = fieldOf requiredNames name node base := by
  unfold fieldOf description? examplesOf
  rw [refine_congr base fun k hk => h k (List.mem_append_left _ hk), h "description" (by decide),
    h "examples" (by decide)]

/-- None of these keywords holds nodes. -/
theorem besideKeywords_not_mem : ∀ k ∈ besideKeywords, k ∉ nodeKeywords := by decide

theorem refine_of_noPrimitive {base : TypeDescriptor} (h : ∀ kind, base ≠ .primitive kind)
    (node : Members Json) : refine base node = (base, {}) := by
  cases base with
  | primitive kind => exact absurd rfl (h kind)
  | _ => rfl

theorem fieldOf_ne {base base' : TypeDescriptor} (h : Apart base base')
    (requiredNames : List String) (name : String) (node : Members Json) :
    fieldOf requiredNames name node base ≠ fieldOf requiredNames name node base' := by
  unfold fieldOf
  rw [refine_of_noPrimitive h.left, refine_of_noPrimitive h.right]
  intro heq
  rw [Field.mk.injEq] at heq
  obtain ⟨-, htype, -⟩ := heq
  split at htype
  · exact h.ne htype
  · exact h.nullable_ne htype

/-- The target of a reference has nothing beside its type that counts. The empty reference is not
followed and stands for any value, and then its target has to do so too. -/
def BareTarget (root : Members Json) (name ref : String) (required : Bool)
    (target : Members Json) : Prop :=
  ∃ base, resolveType target root (some (titleCase name)) = .ok base ∧ Bare base target ∧
    (ref = "" → fieldType required base = fieldType required (.primitive .any))

variable {root : Members Json} {requiredNames : List String} {P Q : Prop}

/-- The type of a reference is that of its target. The empty reference has any value. -/
theorem settled_reference (htarget : resolveRef ref root = .ok (.obj target))
    {hint : Option String} {base : TypeDescriptor}
    (h : Settled root hint (referenceNode ref) base) :
    (ref ≠ "" ∧ Settled root hint target base) ∨ (ref = "" ∧ base = .primitive .any) := by
  by_cases hempty : ref = ""
  · right
    refine ⟨hempty, ?_⟩
    subst hempty
    rw [settled_iff, stepsTo_iff_typed rfl] at h
    cases h with
    | any => rfl
    | scalar htype | anyList htype | listOf htype | mapping htype | composite htype =>
      cases htype
  · left
    refine ⟨hempty, ?_⟩
    have hreference : reference? (referenceNode ref) = some ref := by
      simp [reference?, referenceNode, Members.get?_cons, hempty]
    exact (settled_target_iff hreference htarget).mp h

theorem field_here (htarget : resolveRef ref root = .ok (.obj target))
    (hrequired : requiredNames.contains name = required) :
    Passes (FieldFrom (Settled root) requiredNames) (BareTarget root name ref required target)
      (ref ≠ "") (name, .obj (referenceNode ref)) (name, .obj target) := by
  rintro field ⟨child, base, hchild, hbase, rfl⟩
  cases hchild
  have hreference := settled_reference htarget hbase
  have hfield : ∀ base', Settled root (some (titleCase name)) target base' →
      (fieldOf requiredNames name target base' =
          fieldOf requiredNames name (referenceNode ref) base ↔
        Bare base' target ∧
          (ref = "" → fieldType required base' = fieldType required (.primitive .any))) := by
    intro base' hbase'
    rcases hreference with ⟨hne, hfollowed⟩ | ⟨hempty, rfl⟩
    · obtain rfl := hfollowed.unique hbase'
      rw [fieldOf_eq_iff (.inl rfl)]
      simp [hne]
    · rw [fieldOf_eq_iff (.inr rfl), hrequired]
      simp [hempty]
  constructor
  · constructor
    · rintro ⟨child, base', hchild, hbase', heq⟩
      cases hchild
      exact ⟨base', hbase'.found, (hfield base' hbase').mp heq.symm⟩
    · rintro ⟨base', hfound, hbare⟩
      have hbase' := settled_of_resolveType hfound
      exact ⟨target, base', rfl, hbase', ((hfield base' hbase').mpr hbare).symm⟩
  · intro hne
    rcases hreference with ⟨-, hfollowed⟩ | ⟨hempty, -⟩
    · exact ⟨_, target, base, rfl, hfollowed, rfl⟩
    · exact absurd hempty hne

/-- How the type of a node becomes that of another: it stays exactly if `P` holds, and otherwise the
types come apart. There is one if `Q` holds. -/
def Becomes (root : Members Json) (P Q : Prop) (node node' : Members Json) : Prop :=
  ∀ hint t, Settled root hint node t →
    (P → Settled root hint node' t) ∧
      (¬P → ∀ t', Settled root hint node' t' → Apart t t') ∧
      (Q → ∃ t', Settled root hint node' t')

theorem field_inside {node node' : Members Json}
    (h : Inlines name ref required target whole seen node node')
    (hbecomes : Becomes root P Q node node') (key : String) :
    Passes (FieldFrom (Settled root) requiredNames) P Q (key, .obj node) (key, .obj node') := by
  rintro field ⟨child, base, hchild, hbase, rfl⟩
  cases hchild
  obtain ⟨hsame, hapart, hexists⟩ := hbecomes _ _ hbase
  have hfield : ∀ base', fieldOf requiredNames key node' base' =
      fieldOf requiredNames key node base' :=
    fun base' => fieldOf_congr _ _ base' fun k hk => h.keeps (besideKeywords_not_mem k hk)
  constructor
  · constructor
    · rintro ⟨child, base', hchild, hbase', heq⟩
      cases hchild
      by_contra hP
      rw [hfield] at heq
      exact fieldOf_ne (hapart hP base' hbase') _ _ _ heq
    · intro hP
      exact ⟨node', base, rfl, hsame hP, (hfield base).symm⟩
  · intro hQ
    obtain ⟨base', hbase'⟩ := hexists hQ
    exact ⟨_, node', base', rfl, hbase', rfl⟩

/-! ## What becomes of types -/

theorem propertiesOf_of_get? {node properties : Members Json}
    (h : node.get? "properties" = some (.obj properties)) : propertiesOf node = properties := by
  unfold propertiesOf
  rw [h]

/-- Where the properties of a node are read, its types are those of its fields. -/
theorem settled_properties {node properties : Members Json}
    (hreads : reads node "properties" = true)
    (hproperties : node.get? "properties" = some (.obj properties)) (hne : properties ≠ [])
    {hint : Option String} {t : TypeDescriptor} :
    Settled root hint node t ↔
      ∃ fields, List.Forall₂ (FieldFrom (Settled root) (textsOf (node.get? "required")))
          properties fields ∧
        t = .composite
          { name := modelName (withTitle hint node), base := [], fields, overrides := {} } := by
  obtain ⟨htyped, htype⟩ := reads_properties.mp hreads
  have hof := propertiesOf_of_get? hproperties
  rw [settled_iff, stepsTo_iff_typed htyped]
  constructor
  · intro h
    cases h with
    | any ht => simp [ht] at htype
    | scalar ht hkind =>
      rw [ht] at htype
      cases htype
      simp [scalarKind?] at hkind
    | anyList ht => simp [ht] at htype
    | listOf ht => simp [ht] at htype
    | mapping _ hnone =>
      rw [filledObject?_properties.mpr ⟨hof, hne⟩] at hnone
      simp at hnone
    | composite _ _ hfields =>
      rw [hof] at hfields
      exact ⟨_, hfields, rfl⟩
  · rintro ⟨fields, hfields, rfl⟩
    refine .composite htype (by rwa [hof]) ?_
    rwa [hof]

theorem becomes_properties {before after : Members Json} {key : String} {value value' : Json}
    {node node' : Members Json}
    (hrewrites : Rewrites "properties" (.obj (before ++ (key, value) :: after))
      (.obj (before ++ (key, value') :: after)) node node')
    (hreads : reads node "properties" = true)
    (hfield : Passes (FieldFrom (Settled root) (textsOf (node.get? "required"))) P Q
      (key, value) (key, value')) : Becomes root P Q node node' := by
  intro hint t h
  have hreads' : reads node' "properties" = true := by
    rw [hrewrites.reads_eq (by decide)]
    exact hreads
  have hrequired : node'.get? "required" = node.get? "required" :=
    hrewrites.others _ (by decide)
  obtain ⟨fields, hfields, rfl⟩ :=
    (settled_properties hreads hrewrites.before (by simp)).mp h
  have hsettled : ∀ {t' : TypeDescriptor}, Settled root hint node' t' ↔ _ :=
    settled_properties hreads' hrewrites.after (by simp)
  rw [hrequired,
    modelName_congr (get?_title_withTitle hint (hrewrites.others "title" (by decide)))] at hsettled
  obtain ⟨hiff, hexists⟩ := hfield.list before after fields hfields
  refine ⟨fun hP => hsettled.mpr ⟨fields, hiff.mpr hP, rfl⟩, fun hP t' ht' => ?_, fun hQ => ?_⟩
  · obtain ⟨fields', hfields', rfl⟩ := hsettled.mp ht'
    apply apart_composite
    intro heq
    rw [Definition.mk.injEq] at heq
    obtain ⟨-, -, rfl, -⟩ := heq
    exact hP (hiff.mp hfields')
  · obtain ⟨fields', hfields'⟩ := hexists hQ
    exact ⟨_, hsettled.mpr ⟨fields', hfields', rfl⟩⟩

/-- What becomes of a node behind another one becomes of that one, if the types of both come from
the nodes behind them. -/
theorem Becomes.of_comesFrom {child child' node node' : Members Json}
    (hchild : Becomes root P Q child child')
    (h : ∀ hint, ∃ hint',
      (∀ t, Settled root hint node t →
        ComesFrom root child child' node' (Settled root) hint hint' t) ∧
      ∀ t, Settled root hint node' t →
        ComesFrom root child' child node (Settled root) hint hint' t) :
    Becomes root P Q node node' := by
  intro hint t ht
  obtain ⟨hint', hforth, hback⟩ := h hint
  obtain ⟨frame, inner, hseparates, rfl, hinner, hframe⟩ := hforth t ht
  obtain ⟨hsame, hapart, hexists⟩ := hchild hint' inner hinner
  refine ⟨fun hP => settled_iff.mpr (hframe inner (hsame hP)), fun hP t' ht' => ?_, fun hQ => ?_⟩
  · obtain ⟨-, inner', -, -, hinner', -⟩ := hback t' ht'
    obtain rfl := ht'.unique (settled_iff.mpr (hframe inner' hinner'))
    exact hseparates _ _ (hapart hP inner' hinner')
  · obtain ⟨inner', hinner'⟩ := hexists hQ
    exact ⟨_, settled_iff.mpr (hframe inner' hinner')⟩

theorem Becomes.of_unread {node node' : Members Json} {keyword : String} (hP : P)
    (hkeyword : keyword ∈ nodeKeywords) (hreads : reads node keyword = false)
    (hothers : ∀ k, k ≠ keyword → node'.get? k = node.get? k) : Becomes root P Q node node' := by
  intro hint t h
  have hsame : Settled root hint node' t :=
    settled_iff.mpr ((settled_iff.mp h).unread hkeyword hreads hothers)
  exact ⟨fun _ => hsame, fun hno => absurd hP hno, fun _ => ⟨t, hsame⟩⟩

theorem becomes_replaces {child child' node node' : Members Json} {keyword : String}
    (hinside : Inlines name ref required target whole seen child child')
    (hreplaces : Replaces child child' keyword node node') (hreads : reads node keyword = true)
    (hchild : Becomes root P Q child child') : Becomes root P Q node node' := by
  obtain ⟨hne, hne'⟩ := hinside.ne_nil
  cases hreplaces with
  | property hrewrites =>
    exact becomes_properties hrewrites hreads (field_inside hinside hchild _)
  | items hrewrites =>
    have hreads' := (hrewrites.reads_eq (by decide)).trans hreads
    refine hchild.of_comesFrom fun hint => ⟨hint, fun _ h => ?_, fun _ h => ?_⟩
    · exact comesFrom_items hne' hrewrites hreads hne (settled_iff.mp h)
    · exact comesFrom_items hne hrewrites.symm hreads' hne' (settled_iff.mp h)
  | entry hkeyword hrewrites =>
    have hmem : keyword ∈ nodeKeywords := (Replaces.entry hkeyword hrewrites).keyword_mem
    have hreads' := (hrewrites.reads_eq hmem).trans hreads
    refine hchild.of_comesFrom fun hint => ⟨none, fun _ h => ?_, fun _ h => ?_⟩
    · exact comesFrom_entry hkeyword hrewrites hreads (settled_iff.mp h)
    · exact comesFrom_entry hkeyword hrewrites.symm hreads' (settled_iff.mp h)
  | definition => simp [reads] at hreads

/-- The type of a node stays as it is exactly if the place is not seen or the target is bare. -/
theorem Inlines.becomes {node node' : Members Json}
    (h : Inlines name ref required target false seen node node')
    (htarget : resolveRef ref root = .ok (.obj target)) :
    Becomes root (seen = true → BareTarget root name ref required target) (ref ≠ "")
      node node' := by
  generalize hwhole : false = whole at h
  induction h with
  | @here whole before after node node' hrequired hrewrites =>
    subst hwhole
    cases hreads : reads node "properties" with
    | false =>
      have hunseen : looksAt false node "properties" = false := hreads
      exact .of_unread (by simp [hunseen]) (by decide) hreads hrewrites.others
    | true =>
      have hseen : looksAt false node "properties" = true := hreads
      simp only [hseen, forall_const]
      exact becomes_properties hrewrites hreads (field_here htarget hrequired)
  | @inside whole seen keyword child child' node node' hinside hreplaces ih =>
    subst hwhole
    cases hreads : reads node keyword with
    | false =>
      have hunseen : looksAt false node keyword = false := hreads
      exact .of_unread (by simp [hunseen]) hreplaces.keyword_mem hreads fun _ => hreplaces.others
    | true =>
      have hseen : looksAt false node keyword = true := hreads
      simp only [hseen, Bool.true_and]
      exact becomes_replaces hinside hreplaces hreads (ih rfl)

/-! ## An account -/

/-- A person, by name. -/
def personNode : Members Json :=
  [("title", .str "Person"), ("type", .str "object"),
    ("properties", .obj [("name", .obj [("type", .str "string")])])]

/-- The text of a mail address. -/
def mailNode : Members Json := [("type", .str "string"), ("format", .str "email")]

/-- An account with an owner and a mail address, each described by some node. -/
def accountSchema (owner mail : Members Json) : Members Json :=
  [("properties", .obj [("owner", .obj owner), ("mail", .obj mail)]),
    ("$defs", .obj [("Person", .obj personNode), ("Mail", .obj mailNode)])]

def referringSchema : Members Json :=
  accountSchema (referenceNode "#/$defs/Person") (referenceNode "#/$defs/Mail")

def accountModel : Definition :=
  let person : Definition :=
    ⟨"Person", [], [⟨"name", .nullable (.primitive .string), false, true, none, [], {}⟩], {}⟩
  ⟨fallbackName, [],
    [⟨"owner", .nullable (.composite person), false, true, none, [], {}⟩,
      ⟨"mail", .nullable (.primitive .string), false, true, none, [], {}⟩], {}⟩

/-! ## What becomes of a schema -/

/-- A schema gives a definition against some root. -/
abbrev Builds (root : Members Json) (overrides : Overrides) (schema : Members Json)
    (d : Definition) : Prop :=
  buildDefinition schema root overrides = .ok d

theorem built_replace {before after : Members Json} {key : String} {value value' : Json}
    {schema schema' : Members Json} (overrides : Overrides)
    (hrewrites : Rewrites "properties" (.obj (before ++ (key, value) :: after))
      (.obj (before ++ (key, value') :: after)) schema schema')
    (hfield : Passes (FieldFrom (Settled root) (textsOf (schema.get? "required"))) P Q
      (key, value) (key, value')) : Passes (Builds root overrides) P Q schema schema' := by
  have hname : modelName schema' = modelName schema :=
    modelName_congr (hrewrites.others _ (by decide))
  have hrequired : schema'.get? "required" = schema.get? "required" :=
    hrewrites.others _ (by decide)
  intro d h
  obtain ⟨fields, hfields, rfl⟩ := buildDefinition_ok_iff.mp h
  rw [propertiesOf_of_get? hrewrites.before] at hfields
  obtain ⟨hiff, hexists⟩ := hfield.list before after fields hfields
  rw [← propertiesOf_of_get? hrewrites.after, ← hrequired] at hiff hexists
  constructor
  · rw [← hiff]
    constructor
    · intro h'
      obtain ⟨fields', hfields', heq⟩ := buildDefinition_ok_iff.mp h'
      rw [Definition.mk.injEq] at heq
      obtain ⟨-, -, rfl, -⟩ := heq
      exact hfields'
    · intro hfields'
      exact buildDefinition_ok_iff.mpr ⟨fields, hfields', by rw [hname]⟩
  · intro hQ
    obtain ⟨fields', hfields'⟩ := hexists hQ
    exact ⟨_, buildDefinition_ok_iff.mpr ⟨fields', hfields', rfl⟩⟩

theorem built_unread {keyword : String} {schema schema' : Members Json} (overrides : Overrides)
    (hP : P) (hkeyword : keyword ∈ nodeKeywords) (hne : "properties" ≠ keyword)
    (hothers : ∀ k, k ≠ keyword → schema'.get? k = schema.get? k) :
    Passes (Builds root overrides) P Q schema schema' := by
  have hkept : ∀ k, k ∉ nodeKeywords → schema'.get? k = schema.get? k :=
    fun _ => kept_of_others hkeyword hothers
  intro d h
  obtain ⟨fields, hfields, rfl⟩ := buildDefinition_ok_iff.mp h
  have hbuilt : Builds root overrides schema' ⟨modelName schema, [], fields, overrides⟩ := by
    refine buildDefinition_ok_iff.mpr ⟨fields, ?_, ?_⟩
    · rwa [propertiesOf_congr (hothers _ hne), hkept "required" (by decide)]
    · rw [modelName_congr (hkept "title" (by decide))]
  exact ⟨⟨fun _ => hP, fun _ => hbuilt⟩, fun _ => ⟨_, hbuilt⟩⟩

/-- What a schema compiles to stays as it is exactly if the place is not seen or the target is
bare. -/
theorem Inlines.passes {schema schema' : Members Json} (overrides : Overrides)
    (h : Inlines name ref required target true seen schema schema')
    (htarget : resolveRef ref root = .ok (.obj target)) :
    Passes (Builds root overrides) (seen = true → BareTarget root name ref required target)
      (ref ≠ "") schema schema' := by
  cases h with
  | here hrequired hrewrites =>
    have hseen : looksAt true schema "properties" = true := rfl
    simp only [hseen, forall_const]
    exact built_replace overrides hrewrites (field_here htarget hrequired)
  | @inside _ seen keyword child child' _ _ hinside hreplaces =>
    by_cases hkeyword : keyword = "properties"
    · cases hreplaces with
      | property hrewrites =>
        have hseen : looksAt true schema "properties" = true := rfl
        have hchild := hinside.becomes htarget
        simp only [hseen, Bool.true_and]
        exact built_replace overrides hrewrites (field_inside hinside hchild _)
      | entry hentry =>
        subst hkeyword
        simp at hentry
      | items | definition => simp at hkeyword
    · have hunseen : looksAt true schema keyword = false := beq_eq_false_iff_ne.mpr hkeyword
      have hothers : ∀ k, k ≠ keyword → schema'.get? k = schema.get? k :=
        fun _ => hreplaces.others
      exact built_unread overrides (by simp [hunseen]) hreplaces.keyword_mem (Ne.symm hkeyword)
        hothers

/-- Writing the target of a reference in the place of a property that is nothing but the reference:
what the schema compiles to stays as it is exactly if the place is not seen, or the target has
nothing beside its type that counts. It compiles to something in any case, unless the reference is
empty. -/
theorem inlining_changes_nothing_iff_the_target_is_bare {schema schema' : Members Json}
    {document : Option (Members Json)} {overrides : Overrides} {d : Definition}
    (hcompile : compileSchema schema document overrides = .ok d)
    (hinlines : Inlines name ref required target true seen schema schema')
    (htarget : resolveRef ref (document.getD schema) = .ok (.obj target)) :
    (compileSchema schema' (some (document.getD schema)) overrides = .ok d ↔
        (seen = true → BareTarget (document.getD schema) name ref required target)) ∧
      (ref ≠ "" →
        ∃ d', compileSchema schema' (some (document.getD schema)) overrides = .ok d') := by
  unfold compileSchema at hcompile ⊢
  rw [Option.getD_some]
  exact hinlines.passes overrides htarget d hcompile

theorem inlining_a_person_changes_nothing :
    compileSchema referringSchema = .ok accountModel ∧
      compileSchema (accountSchema personNode (referenceNode "#/$defs/Mail"))
        (some referringSchema) = .ok accountModel := by
  have hcompile : compileSchema referringSchema = .ok accountModel := rfl
  have hinlines : Inlines "owner" "#/$defs/Person" false personNode true true referringSchema
      (accountSchema personNode (referenceNode "#/$defs/Mail")) :=
    @Inlines.here _ _ _ _ true [] _ _ _ rfl (rewrites_put rfl)
  obtain ⟨hiff, -⟩ := inlining_changes_nothing_iff_the_target_is_bare hcompile hinlines rfl
  refine ⟨hcompile, hiff.mpr fun _ => ⟨_, rfl, ?_, nofun⟩⟩
  exact ⟨rfl, rfl, nofun, nofun, nofun⟩

theorem a_format_is_lost_behind_a_reference :
    Inlines "mail" "#/$defs/Mail" false mailNode true true referringSchema
        (accountSchema (referenceNode "#/$defs/Person") mailNode) ∧
      resolveRef "#/$defs/Mail" referringSchema = .ok (.obj mailNode) ∧
      compileSchema referringSchema = .ok accountModel ∧
      compileSchema (accountSchema (referenceNode "#/$defs/Person") mailNode)
        (some referringSchema) ≠ .ok accountModel := by
  refine ⟨?_, rfl, rfl, ?_⟩
  · exact @Inlines.here _ _ _ _ true [("owner", .obj (referenceNode "#/$defs/Person"))] _ _ _ rfl
      (rewrites_put rfl)
  · rintro ⟨⟩

end JsonModel
