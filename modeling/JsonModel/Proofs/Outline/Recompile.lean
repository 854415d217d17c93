-- What is published of a type is compiled again, unless a list of type names is published somewhere
-- in it, and what comes back takes no less.
import JsonModel.Proofs.Outline.Fields

namespace JsonModel

/-! ## Nodes that are published -/

theorem published_union {ts : List TypeDescriptor} {limits : Limits} (hne : ts ≠ [])
    (h : ∀ t ∈ ts, t.NamedBy limits) : (TypeDescriptor.union ts).published limits =
      match TypeDescriptor.allBareNames? ts limits with
      | some names => Json.rereadMembers (typesOutline (names.flatten.eraseDups.map .str))
      | none => [("anyOf", .arr (ts.map fun t => Json.obj (t.published limits)))] := by
  unfold TypeDescriptor.published
  rw [outline_union hne h]
  cases TypeDescriptor.allBareNames? ts limits with
  | some names => rfl
  | none =>
    simp only [anyOfOutline, Json.rereadMembers, Json.reread_arr, List.map_map]
    rfl

theorem published_listOf (items : TypeDescriptor) (limits : Limits) :
    (TypeDescriptor.listOf items).published limits =
      [("type", .str "array"), ("items", .obj (items.published {}))] := by
  unfold TypeDescriptor.published
  rw [outline_listOf]
  simp only [Json.rereadMembers, Json.reread_str, Json.reread_obj]

/-! ## Types that come back -/

/-- What is published of a type is compiled to a looser type, or not at all if it lists type names
somewhere. -/
structure TypeDescriptor.Returns (root : Members Json) (t : TypeDescriptor) (limits : Limits) :
    Prop where
  looser : t.listsNames limits = false → ∀ hint,
    ∃ t', Settled root hint (t.published limits) t' ∧ t.Looser limits t' {}
  fails : t.listsNames limits = true → ∀ hint t', ¬ Settled root hint (t.published limits) t'

variable {root : Members Json} {t : TypeDescriptor} {limits : Limits}

theorem returns_of_settled (hlists : t.listsNames limits = false) (t' : TypeDescriptor)
    (h : ∀ hint, Settled root hint (t.published limits) t') (hlooser : t.Looser limits t' {}) :
    t.Returns root limits where
  looser _ hint := ⟨t', h hint, hlooser⟩
  fails hlisted := by
    rw [hlists] at hlisted
    simp at hlisted

theorem returns_primitive (kind : Primitive) :
    (TypeDescriptor.primitive kind).Returns root limits := by
  refine returns_of_settled rfl (.primitive kind) (fun hint => ?_) (looser_unlimited kind limits)
  unfold TypeDescriptor.published
  rw [outline_primitive]
  exact settled_primitive root hint kind limits

theorem returns_semantic (kind : Semantic) :
    (TypeDescriptor.semantic kind).Returns root limits := by
  refine returns_of_settled rfl kind.unformed (fun hint => ?_) (looser_unformed kind limits)
  unfold TypeDescriptor.published
  rw [outline_semantic]
  exact settled_semantic root hint kind

theorem returns_mapping : TypeDescriptor.mapping.Returns root limits := by
  refine returns_of_settled rfl .mapping (fun hint => ?_) ⟨fun places v => ?_, fun _ _ h => h⟩
  · exact (settled_typed rfl).mpr (.mapping rfl rfl)
  · cases v <;> exact ⟨_, rfl⟩

theorem returns_anyList : TypeDescriptor.anyList.Returns root limits := by
  refine returns_of_settled rfl .anyList (fun hint => ?_) ⟨fun places v => ?_, fun _ _ h => h⟩
  · exact (settled_typed rfl).mpr (.anyList rfl rfl)
  · cases v <;> exact ⟨_, rfl⟩

theorem returns_listOf (h : t.Returns root {}) : (TypeDescriptor.listOf t).Returns root limits := by
  have hnode := published_listOf t limits
  by_cases hempty : t.published {} = []
  · -- Items of any kind are published as nothing, and a list of them comes back without items.
    have hany : ∀ hint, Settled root hint (t.published {}) (.primitive .any) := by
      intro hint
      rw [hempty]
      exact (settled_typed rfl).mpr (.any rfl)
    have hlists : t.listsNames {} = false := by
      by_contra hlisted
      exact h.fails (by simpa using hlisted) none _ (hany none)
    refine returns_of_settled hlists .anyList (fun hint => ?_) looser_anyList
    rw [hnode, hempty]
    exact (settled_typed rfl).mpr (.anyList rfl rfl)
  · have hsettled : ∀ {hint : Option String} {u : TypeDescriptor},
        Settled root hint ((TypeDescriptor.listOf t).published limits) u ↔
          ∃ t', Settled root hint (t.published {}) t' ∧ u = .listOf t' := by
      intro hint u
      rw [hnode]
      exact settled_listOf_iff rfl rfl rfl hempty
    refine ⟨fun hlists hint => ?_, fun hlisted hint u hu => ?_⟩
    · obtain ⟨t', ht', hlooser⟩ := h.looser hlists hint
      exact ⟨.listOf t', hsettled.mpr ⟨t', ht', rfl⟩, looser_listOf hlooser⟩
    · obtain ⟨t', ht', -⟩ := hsettled.mp hu
      exact h.fails hlisted hint t' ht'

/-! ## Unions that come back -/

/-- The type names are those of types without parts, and one of these takes each value that the type
takes. -/
structure TypeDescriptor.TakenBy (t : TypeDescriptor) (limits : Limits) (names : List String) :
    Prop where
  ne_nil : names ≠ []
  scalar : ∀ name ∈ names, ∃ kind, scalarKind? name = some kind
  takes : ∀ places v, accepting (t.check places limits v) = true → ∃ name ∈ names, ∃ kind,
    scalarKind? name = some kind ∧
      accepting ((TypeDescriptor.primitive kind).check places {} v) = true

theorem takenBy_one {name : String} {kind : Primitive} (hkind : scalarKind? name = some kind)
    (h : t.Looser limits (.primitive kind) {}) : t.TakenBy limits [name] where
  ne_nil := by simp
  scalar other hother := by
    rw [List.mem_singleton.mp hother]
    exact ⟨kind, hkind⟩
  takes places v haccepts :=
    ⟨name, List.mem_singleton_self _, kind, hkind, h.accepts places v haccepts⟩

theorem allBareNames?_forall₂ {ts : List TypeDescriptor} {names : List (List String)}
    (h : TypeDescriptor.allBareNames? ts limits = some names) :
    List.Forall₂ (fun t own => t.bareNames? limits = some own) ts names := by
  induction ts generalizing names with
  | nil =>
    cases h
    exact .nil
  | cons t ts ih =>
    obtain ⟨own, others, hown, hothers, rfl⟩ := allBareNames?_cons_eq_some.mp h
    exact .cons hown (ih hothers)

theorem scalarKind?_of_bare {kind : Primitive} {name : String}
    (h : bareName? (kind.outline limits) = some name) : scalarKind? name = some kind := by
  have htype : (kind.outline limits).get? "type" = some (.str name) := by
    rw [bareName?_eq_some h]
    rfl
  cases kind <;> cases htype <;> rfl

/-- What is published as type names alone is taken by types of these names. -/
theorem takenBy_of_bareNames {t : TypeDescriptor} (ht : t.Unbundled) {limits : Limits}
    {names : List String} (h : t.bareNames? limits = some names) : t.TakenBy limits names := by
  induction t using TypeDescriptor.induction generalizing limits names with
  | primitive kind =>
    obtain ⟨name, hname, rfl⟩ := Option.map_eq_some_iff.mp h
    exact takenBy_one (scalarKind?_of_bare hname) (looser_unlimited kind limits)
  | semantic kind =>
    obtain ⟨name, hname, rfl⟩ := Option.map_eq_some_iff.mp h
    have hlooser := looser_unformed kind limits
    cases kind with
    | directoryPath | filePath | jsonString | secretString | secretBytes =>
      cases hname
      exact takenBy_one rfl hlooser
    | _ => cases hname
  | mapping | anyList | listOf | composite => cases h
  | intersection ts => exact (ht _ .refl).elim
  | union ts ih =>
    obtain ⟨all, hall, rfl⟩ := Option.map_eq_some_iff.mp h
    have hown := allBareNames?_forall₂ hall
    have hmem : ∀ {own : List String} {name : String}, own ∈ all → name ∈ own →
        name ∈ all.flatten.eraseDups :=
      fun hown hname => List.mem_eraseDups.mpr (List.mem_flatten.mpr ⟨_, hown, hname⟩)
    refine ⟨?_, fun name hname => ?_, fun places v haccepts => ?_⟩
    · obtain ⟨t, hts⟩ := List.exists_mem_of_ne_nil ts (ht _ .refl)
      obtain ⟨own, howns, hnames⟩ := exists_of_forall₂ hown hts
      obtain ⟨name, hname⟩ := List.exists_mem_of_ne_nil own (ih t hts (ht.variant hts) hnames).ne_nil
      exact List.ne_nil_of_mem (hmem howns hname)
    · obtain ⟨own, howns, hname⟩ := List.mem_flatten.mp (List.mem_eraseDups.mp hname)
      obtain ⟨t, hts, hnames⟩ := exists_of_forall₂ hown.flip howns
      exact (ih t hts (ht.variant hts) hnames).scalar name hname
    · obtain ⟨t, hts, haccepts⟩ := accepting_variant haccepts
      obtain ⟨own, howns, hnames⟩ := exists_of_forall₂ hown hts
      obtain ⟨name, hname, hkind⟩ := (ih t hts (ht.variant hts) hnames).takes places v haccepts
      exact ⟨name, hmem howns hname, hkind⟩

theorem settled_nodes_iff {nodes : List (Members Json)} (hne : nodes ≠ []) {hint : Option String}
    {u : TypeDescriptor} : Settled root hint [("anyOf", .arr (nodes.map .obj))] u ↔
      ∃ types, List.Forall₂ (Settled root none) nodes types ∧ u = .union types := by
  have hentries : listUnder [("anyOf", Json.arr (nodes.map .obj))] "anyOf" ++
      listUnder [("anyOf", Json.arr (nodes.map .obj))] "oneOf" = nodes.map .obj :=
    List.append_nil _
  have hfilled : nodes.map Json.obj ≠ [] := by simpa using hne
  rw [settled_iff]
  constructor
  · intro h
    cases h with
    | union _ hnodes _ htypes =>
      rw [hentries] at hnodes
      have hsame := List.map_injective_iff.mpr (fun _ _ => Json.obj.inj) hnodes
      exact ⟨_, hsame ▸ htypes, rfl⟩
    | reference hsome => cases hsome
    | only _ hempty | intersection _ hempty | typed _ hempty =>
      rw [hentries] at hempty
      exact absurd hempty hfilled
  · rintro ⟨types, htypes, rfl⟩
    exact .union rfl hentries hne htypes

/-- A node of several type names has no type. -/
theorem not_settled_names {names : List Json} {hint : Option String} {u : TypeDescriptor} :
    ¬ Settled root hint [("type", .arr names)] u := by
  rw [settled_typed rfl]
  intro h
  cases h with
  | any htype | scalar htype | anyList htype | listOf htype | mapping htype | composite htype =>
    cases htype

/-- What is published as one type name comes back as the type of that name, and what is published as
several of them does not come back. -/
theorem returns_of_names {names : List String}
    (hnode : t.published limits = Json.rereadMembers (typesOutline (names.map .str)))
    (htaken : t.TakenBy limits names)
    (hlists : t.listsNames limits = decide (1 < names.length)) : t.Returns root limits := by
  match names with
  | [] => exact absurd rfl htaken.ne_nil
  | [name] =>
    obtain ⟨kind, hkind⟩ := htaken.scalar name (List.mem_singleton_self _)
    refine returns_of_settled hlists (.primitive kind) (fun hint => ?_)
      ⟨fun _ _ => ⟨_, rfl⟩, fun places v haccepts => ?_⟩
    · rw [hnode]
      exact settled_scalar rfl rfl hkind
    · obtain ⟨other, hother, kind', hkind', haccepts⟩ := htaken.takes places v haccepts
      rw [List.mem_singleton.mp hother, hkind] at hkind'
      cases hkind'
      exact haccepts
  | first :: second :: rest =>
    refine ⟨fun hlisted => ?_, fun _ hint u hu => ?_⟩
    · rw [hlists] at hlisted
      simp at hlisted
    · rw [hnode] at hu
      exact not_settled_names hu

/-- A union that is published as its alternatives comes back if all of these do. -/
theorem returns_of_alternatives {ts : List TypeDescriptor} (hne : ts ≠ [])
    (hnode : (TypeDescriptor.union ts).published limits =
      [("anyOf", .arr (ts.map fun t => Json.obj (t.published limits)))])
    (hlists : (TypeDescriptor.union ts).listsNames limits = TypeDescriptor.anyListsNames ts limits)
    (h : ∀ t ∈ ts, t.Returns root limits) : (TypeDescriptor.union ts).Returns root limits := by
  have hsettled : ∀ {hint : Option String} {u : TypeDescriptor},
      Settled root hint ((TypeDescriptor.union ts).published limits) u ↔
        ∃ types, List.Forall₂ (fun t u => Settled root none (t.published limits) u) ts types ∧
          u = .union types := by
    intro hint u
    have hnodes := @settled_nodes_iff root (ts.map fun t => t.published limits) (by simpa) hint u
    rw [List.map_map] at hnodes
    simp only [List.forall₂_map_left_iff] at hnodes
    rw [hnode]
    exact hnodes
  refine ⟨fun hlisted hint => ?_, fun hlisted hint u hu => ?_⟩
  · have hnone : ∀ t ∈ ts, t.listsNames limits = false :=
      anyListsNames_eq_false.mp (hlists ▸ hlisted)
    obtain ⟨types, htypes⟩ := exists_forall₂ fun t hts => (h t hts).looser (hnone t hts) none
    exact ⟨.union types, hsettled.mpr ⟨types, htypes.imp fun _ _ hboth => hboth.1, rfl⟩,
      looser_union (htypes.imp fun _ _ hboth => hboth.2)⟩
  · obtain ⟨t, hts, hsome⟩ := anyListsNames_iff.mp (hlists ▸ hlisted)
    obtain ⟨types, htypes, rfl⟩ := hsettled.mp hu
    obtain ⟨u, -, hu⟩ := exists_of_forall₂ htypes hts
    exact (h t hts).fails hsome none u hu

theorem returns_union {ts : List TypeDescriptor} (ht : (TypeDescriptor.union ts).Unbundled)
    (h : ∀ t ∈ ts, t.Returns root limits) : (TypeDescriptor.union ts).Returns root limits := by
  have hne : ts ≠ [] := ht _ .refl
  have hnode := @published_union ts limits hne fun t hts =>
    namedBy_of_unbundled (ht.variant hts) limits
  cases hall : TypeDescriptor.allBareNames? ts limits with
  | some all =>
    simp only [hall] at hnode
    have hnames : (TypeDescriptor.union ts).bareNames? limits = some all.flatten.eraseDups := by
      rw [TypeDescriptor.bareNames?, hall]
      rfl
    refine returns_of_names hnode (takenBy_of_bareNames ht hnames) ?_
    rw [TypeDescriptor.listsNames, hall]
  | none =>
    simp only [hall] at hnode
    refine returns_of_alternatives hne hnode ?_ h
    rw [TypeDescriptor.listsNames, hall]

/-! ## Fields that come back -/

/-- The keywords that types with parts are published under. -/
def partKeywords : List String :=
  ["items", "anyOf", "propertyNames"] ++ ObjectOutline.keywords

theorem names_typesOutline (names : List Json) :
    Members.names (typesOutline names) = ["type"] := by
  unfold typesOutline
  split <;> rfl

/-- A type with parts is published without any keyword that could refine it. -/
theorem names_published {t : TypeDescriptor} (ht : t.Unbundled) {limits : Limits}
    (hprimitive : ∀ kind, t ≠ .primitive kind) (hsemantic : ∀ kind, t ≠ .semantic kind) :
    Members.names (t.published limits) ⊆ partKeywords := by
  rw [TypeDescriptor.published, Json.names_rereadMembers]
  cases t with
  | primitive kind => exact absurd rfl (hprimitive kind)
  | semantic kind => exact absurd rfl (hsemantic kind)
  | mapping => exact (by decide : ["type", "propertyNames", "additionalProperties"] ⊆ partKeywords)
  | anyList | listOf => exact (by decide : ["type", "items"] ⊆ partKeywords)
  | union ts =>
    rw [outline_union (ht _ .refl) fun u hu => namedBy_of_unbundled (ht.variant hu) limits]
    split
    · rw [names_typesOutline]
      decide
    · exact (by decide : ["anyOf"] ⊆ partKeywords)
  | intersection ts => exact (ht _ .refl).elim
  | composite d =>
    rw [outline_composite]
    obtain ⟨_, _, _, _⟩ := d
    exact List.Subset.trans (names_fieldsOutline _ _) (List.subset_append_right _ _)

/-- A type that comes back is not tighter once it is refined by what was published with it. -/
theorem looser_refined {t base : TypeDescriptor} (ht : t.Unbundled) {limits : Limits}
    {hint : Option String} (hbase : Settled root hint (t.published limits) base)
    (h : t.Looser limits base {}) :
    t.Looser limits (refine base (t.published limits)).1 (refine base (t.published limits)).2 := by
  have hparts : Members.names (t.published limits) ⊆ partKeywords →
      t.Looser limits (refine base (t.published limits)).1
        (refine base (t.published limits)).2 := by
    intro hnames
    have hdisjoint : ∀ k ∈ refiningKeywords, k ∉ partKeywords := by decide
    rw [refine_of_absent base fun k hk => get?_of_names hnames (hdisjoint k hk)]
    exact h
  cases t with
  | primitive kind =>
    have hnode : (TypeDescriptor.primitive kind).published limits =
        Json.rereadMembers (kind.outline limits) :=
      congrArg Json.rereadMembers (outline_primitive kind limits)
    rw [hnode] at hbase ⊢
    rw [hbase.unique (settled_primitive root hint kind limits)]
    exact looser_refined_primitive kind limits
  | semantic kind =>
    have hnode : (TypeDescriptor.semantic kind).published limits =
        Json.rereadMembers kind.outline :=
      congrArg Json.rereadMembers (outline_semantic kind limits)
    rw [hnode] at hbase ⊢
    rw [hbase.unique (settled_semantic root hint kind)]
    exact looser_refined_semantic kind limits
  | _ => exact hparts (names_published ht (by simp) (by simp))

/-- A field comes back under its name, with its default and a looser type. -/
theorem field_returns {f : Field} (ht : f.type.Unbundled) (h : f.type.Returns root f.limits)
    (hlists : f.type.listsNames f.limits = false) {requiredNames : List String}
    (hrequired : requiredNames.contains f.name = !f.defaultsToNull) :
    ∃ f', FieldFrom (Settled root) requiredNames (f.name, .obj f.published) f' ∧ f.Looser f' := by
  obtain ⟨base, hbase, hlooser⟩ := h.looser hlists (some (titleCase f.name))
  have hrefined := looser_refined ht hbase hlooser
  rw [← refine_published base f] at hrefined
  refine ⟨fieldOf requiredNames f.name f.published base,
    ⟨f.published, base, rfl, settled_published_iff.mpr hbase, rfl⟩, rfl, ?_, ?_⟩
  · simp only [fieldOf, hrequired, Bool.not_not]
  · unfold fieldOf
    split
    · exact hrefined
    · exact looser_nullable hrefined

variable {d : Definition} {node : Members Json}

/-- The fields of a model come back together from any node that describes the model. -/
theorem fields_return (hnode : d.DescribedBy node)
    (ht : ∀ m ∈ d.checked, m.2.type.Unbundled ∧ m.2.type.Returns root m.2.limits)
    (hlists : d.listsNames = false) :
    ∃ fields, List.Forall₂ (FieldFrom (Settled root) (textsOf (node.get? "required")))
        (propertiesOf node) fields ∧
      List.Forall₂ (fun m f' => m.2.Looser f') d.checked fields := by
  rw [propertiesOf_of_get? hnode.properties]
  simp only [List.forall₂_map_left_iff]
  have hfield : ∀ m ∈ d.checked, ∃ f', FieldFrom (Settled root) (textsOf (node.get? "required"))
      (m.1, .obj m.2.published) f' ∧ m.2.Looser f' := by
    intro m hm
    obtain ⟨hunbundled, hreturns⟩ := ht m hm
    obtain ⟨-, hname, -⟩ := mem_of_mem_checked hm
    have hnone := listsNames_eq_false.mp hlists m hm
    have hrequired := hnode.contains_required hm
    rw [hname] at hrequired ⊢
    exact field_returns hunbundled hreturns hnone hrequired
  obtain ⟨fields, hfields⟩ := exists_forall₂ hfield
  exact ⟨fields, hfields.imp fun _ _ hboth => hboth.1, hfields.imp fun _ _ hboth => hboth.2⟩

/-- They do not if a list of type names is published somewhere in one of them. -/
theorem fields_fail (hnode : d.DescribedBy node)
    (ht : ∀ m ∈ d.checked, m.2.type.Returns root m.2.limits) (hlists : d.listsNames = true)
    {requiredNames : List String} (fields : List Field) :
    ¬ List.Forall₂ (FieldFrom (Settled root) requiredNames) (propertiesOf node) fields := by
  rw [propertiesOf_of_get? hnode.properties, List.forall₂_map_left_iff]
  intro hfields
  obtain ⟨m, hm, hsome⟩ := listsNames_iff.mp hlists
  obtain ⟨f', -, child, base, hchild, hbase, -⟩ := exists_of_forall₂ hfields hm
  cases hchild
  exact (ht m hm).fails hsome _ base (settled_published_iff.mp hbase)

/-- The fields that come back make a looser model. -/
theorem looser_model {fields : List Field}
    (h : List.Forall₂ (fun m f' => m.2.Looser f') d.checked fields) (name : String)
    {limits limits' : Limits} : (TypeDescriptor.composite d).Looser limits
      (.composite { name, base := [], fields, overrides := {} }) limits' := by
  refine looser_composite rfl fun m' hm' => ?_
  obtain ⟨hfield, -⟩ := mem_of_mem_checked hm'
  exact exists_of_forall₂ h.flip hfield

/-! ## Models that come back -/

theorem returns_composite (ht : (TypeDescriptor.composite d).Unbundled) {limits : Limits}
    (h : ∀ f ∈ d.fields, f.type.Returns root f.limits) :
    (TypeDescriptor.composite d).Returns root limits := by
  obtain ⟨hbase, hne⟩ : d.base = [] ∧ d.checked ≠ [] := ht _ .refl
  have hfields : ∀ m ∈ d.checked, m.2.type.Unbundled ∧ m.2.type.Returns root m.2.limits := by
    intro m hm
    obtain ⟨hfield, -⟩ := mem_of_mem_checked hm
    refine ⟨ht.field hfield, h _ ?_⟩
    rwa [hbase, List.nil_append] at hfield
  have hnode : (TypeDescriptor.composite d).published limits = Json.rereadMembers d.outline :=
    congrArg Json.rereadMembers (outline_composite d limits)
  have hdescribed := describedBy_outline d
  rw [← hnode] at hdescribed
  have hreads : reads ((TypeDescriptor.composite d).published limits) "properties" = true := by
    rw [hnode]
    exact reads_outline d
  have hsettled := @settled_properties root _ _ hreads hdescribed.properties (by simpa using hne)
  refine ⟨fun hlists hint => ?_, fun hlisted hint u hu => ?_⟩
  · obtain ⟨fields, hfrom, hlooser⟩ := fields_return hdescribed hfields hlists
    rw [propertiesOf_of_get? hdescribed.properties] at hfrom
    exact ⟨_, hsettled.mpr ⟨fields, hfrom, rfl⟩, looser_model hlooser _⟩
  · obtain ⟨fields, hfrom, -⟩ := hsettled.mp hu
    rw [← propertiesOf_of_get? hdescribed.properties] at hfrom
    exact fields_fail hdescribed (fun m hm => (hfields m hm).2) hlisted fields hfrom

/-- Every type that bundles nothing comes back, unless it lists type names somewhere. -/
theorem returns_of_unbundled (root : Members Json) {t : TypeDescriptor} (ht : t.Unbundled)
    (limits : Limits) : t.Returns root limits := by
  induction t using TypeDescriptor.induction generalizing limits with
  | primitive kind => exact returns_primitive kind
  | semantic kind => exact returns_semantic kind
  | mapping => exact returns_mapping
  | anyList => exact returns_anyList
  | listOf items ih => exact returns_listOf (ih ht.items {})
  | union ts ih => exact returns_union ht fun u hu => ih u hu (ht.variant hu) limits
  | intersection ts => exact (ht _ .refl).elim
  | composite d ih =>
    exact returns_composite ht fun f hf =>
      ih f hf (ht.field (List.mem_append_right _ hf)) f.limits

end JsonModel
