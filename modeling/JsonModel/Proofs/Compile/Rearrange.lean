-- What a schema in another order compiles to: the same types, but for the order of the members of
-- intersections. One step of the compiler takes nodes in another order to such types, whatever the
-- document, as long as references lead to the same nodes in another order.
import JsonModel.Proofs.Compile.Reorder

namespace JsonModel

/-! ## Types in another order -/

/-- Two fields are declared alike, but for their types and what is only shown. -/
structure Field.SameFrame (f f' : Field) : Prop where
  name : f'.name = f.name
  required : f'.required = f.required
  defaultsToNull : f'.defaultsToNull = f.defaultsToNull
  limits : f'.limits = f.limits

/-- Two types are the same up to the order of the members of intersections, at any depth, and up to
what models and fields are only shown with. -/
inductive TypeDescriptor.Reordered : TypeDescriptor → TypeDescriptor → Prop
  | same (t : TypeDescriptor) : Reordered t t
  | listOf {t t' : TypeDescriptor} : Reordered t t' → Reordered (.listOf t) (.listOf t')
  | union {ts us : List TypeDescriptor} : ts.length = us.length →
      (∀ (i : Nat) (t u : TypeDescriptor), ts[i]? = some t → us[i]? = some u → Reordered t u) →
      Reordered (.union ts) (.union us)
  | intersection {ts us vs : List TypeDescriptor} : ts.length = us.length →
      (∀ (i : Nat) (t u : TypeDescriptor), ts[i]? = some t → us[i]? = some u → Reordered t u) →
      us.Perm vs → Reordered (.intersection ts) (.intersection vs)
  | composite {m m' : Definition} : m'.base = m.base → m'.overrides = m.overrides →
      List.Forall₂ Field.SameFrame m.fields m'.fields →
      (∀ (i : Nat) (f f' : Field), m.fields[i]? = some f → m'.fields[i]? = some f' →
        Reordered f.type f'.type) →
      Reordered (.composite m) (.composite m')

/-- Two fields are the same up to the order in their types. -/
structure Field.Reordered (f f' : Field) : Prop extends Field.SameFrame f f' where
  type : f.type.Reordered f'.type

/-- Two models are the same up to the order in the types of their fields. -/
structure Definition.Reordered (m m' : Definition) : Prop where
  base : m'.base = m.base
  overrides : m'.overrides = m.overrides
  fields : List.Forall₂ Field.Reordered m.fields m'.fields

theorem reordered_composite {m m' : Definition} (h : m.Reordered m') :
    (TypeDescriptor.composite m).Reordered (.composite m') :=
  .composite h.base h.overrides (h.fields.imp fun _ _ hf => hf.toSameFrame)
    fun _ _ _ hf hf' => (rel_of_getElem? h.fields hf hf').type

theorem reordered_union {ts us : List TypeDescriptor}
    (h : List.Forall₂ TypeDescriptor.Reordered ts us) :
    (TypeDescriptor.union ts).Reordered (.union us) :=
  .union h.length_eq fun _ _ _ ht hu => rel_of_getElem? h ht hu

theorem reordered_intersection {ts us vs : List TypeDescriptor}
    (h : List.Forall₂ TypeDescriptor.Reordered ts us) (hperm : us.Perm vs) :
    (TypeDescriptor.intersection ts).Reordered (.intersection vs) :=
  .intersection h.length_eq (fun _ _ _ ht hu => rel_of_getElem? h ht hu) hperm

/-! ## Fields -/

theorem reordered_isPrimitive {t t' : TypeDescriptor} (h : t.Reordered t') (kinds : List Primitive) :
    t'.isPrimitive kinds = t.isPrimitive kinds := by
  cases h <;> rfl

theorem reordered_nullable {t t' : TypeDescriptor} (h : t.Reordered t') :
    t.nullable.Reordered t'.nullable := by
  have hnull : (TypeDescriptor.primitive .null).Reordered (.primitive .null) := .same _
  cases h with
  | same => exact .same _
  | @union ts us hlength hall =>
    have hts : List.Forall₂ TypeDescriptor.Reordered ts us := forall₂_of_getElem? hlength hall
    have hany : us.any TypeDescriptor.isNull = ts.any TypeDescriptor.isNull :=
      any_of_forall₂ hts fun _ _ ht => reordered_isPrimitive ht _
    unfold TypeDescriptor.nullable
    simp only [hany]
    split
    · exact reordered_union hts
    · exact reordered_union (List.rel_append hts (.cons hnull .nil))
  | listOf ht => exact reordered_union (.cons (.listOf ht) (.cons hnull .nil))
  | intersection hlength hall hperm =>
    exact reordered_union (.cons (.intersection hlength hall hperm) (.cons hnull .nil))
  | composite hbase hoverrides hframes hall =>
    exact reordered_union (.cons (.composite hbase hoverrides hframes hall) (.cons hnull .nil))

section

variable {node node' : Members Json} {base base' : TypeDescriptor}

theorem reordered_numberLimits (h : Members.Reordered node node') :
    numberLimits node' = numberLimits node := by
  unfold numberLimits
  simp only [reordered_numberAt h]

theorem reordered_lengthLimits (h : Members.Reordered node node') :
    lengthLimits node' = lengthLimits node := by
  unfold lengthLimits
  simp only [reordered_numberAt h]

theorem reordered_refine (h : Members.Reordered node node') (hbase : base.Reordered base') :
    (refine base node).1.Reordered (refine base' node').1 ∧
      (refine base' node').2 = (refine base node).2 := by
  unfold refine
  simp only [reordered_isPrimitive hbase, reordered_format? h]
  split
  · exact ⟨hbase, reordered_numberLimits h⟩
  · split
    · split
      · rw [reordered_narrow h]
        exact ⟨.same _, rfl⟩
      · exact ⟨hbase, reordered_lengthLimits h⟩
    · exact ⟨hbase, rfl⟩

theorem reordered_fieldOf (h : Members.Reordered node node') (hbase : base.Reordered base')
    (requiredNames : List String) (name : String) :
    (fieldOf requiredNames name node base).Reordered (fieldOf requiredNames name node' base') := by
  obtain ⟨htype, hlimits⟩ := reordered_refine h hbase
  refine ⟨⟨rfl, rfl, rfl, hlimits⟩, ?_⟩
  unfold fieldOf
  simp only
  split
  · exact htype
  · exact reordered_nullable htype

end

/-! ## One step -/

/-- Every other order of a node has such a type in another document. -/
def TypedAlike (root' : Members Json) : Typing := fun hint node t =>
  ∀ node', Members.Reordered node node' → ∃ t', Settled root' hint node' t' ∧ t.Reordered t'

section

variable {root' : Members Json} {hint : Option String}

theorem alike_nodes {nodes nodes' : List (Members Json)} {types : List TypeDescriptor}
    (h : List.Forall₂ (TypedAlike root' hint) nodes types)
    (hnodes : List.Forall₂ Members.Reordered nodes nodes') : ∃ types',
      List.Forall₂ (Settled root' hint) nodes' types' ∧
        List.Forall₂ TypeDescriptor.Reordered types types' := by
  induction hnodes generalizing types with
  | nil =>
    cases h
    exact ⟨[], .nil, .nil⟩
  | cons hhead _ ih =>
    obtain ⟨t, rest, ht, hrest, rfl⟩ := List.forall₂_cons_left_iff.mp h
    obtain ⟨t', hsettled, hreordered⟩ := ht _ hhead
    obtain ⟨types', htypes', hall⟩ := ih hrest
    exact ⟨t' :: types', .cons hsettled htypes', .cons hreordered hall⟩

/-- Entries that are nodes stay nodes in another order. -/
theorem reordered_nodes {nodes : List (Members Json)} {entries : List Json}
    (h : List.Forall₂ (Json.Reordered false) (nodes.map .obj) entries) :
    ∃ nodes', entries = nodes'.map .obj ∧ List.Forall₂ Members.Reordered nodes nodes' := by
  rw [List.forall₂_map_left_iff] at h
  induction h with
  | nil => exact ⟨[], rfl, .nil⟩
  | cons hhead _ ih =>
    obtain ⟨node', rfl, hnode⟩ := reordered_obj_iff.mp hhead
    obtain ⟨nodes', rfl, hnodes⟩ := ih
    exact ⟨node' :: nodes', rfl, .cons hnode hnodes⟩

/-- When nodes are shuffled, so are their types. -/
theorem settled_shuffled {nodes : List (Members Json)} {types : List TypeDescriptor}
    {entries : List Json} (h : List.Forall₂ (Settled root' hint) nodes types)
    (hperm : (nodes.map Json.obj).Perm entries) : ∃ nodes' types', entries = nodes'.map .obj ∧
      List.Forall₂ (Settled root' hint) nodes' types' ∧ types.Perm types' := by
  have hentries : List.Forall₂ (fun j t => ∃ node, j = Json.obj node ∧ Settled root' hint node t)
      (nodes.map .obj) types :=
    List.forall₂_map_left_iff.mpr (h.imp fun node t ht => ⟨node, rfl, ht⟩)
  obtain ⟨types', hshuffled, hpermTypes⟩ := List.perm_comp_forall₂ hperm.symm hentries
  obtain ⟨nodes', hnodes'⟩ := exists_forall₂ (R := fun j node => j = Json.obj node) fun j hj => by
    obtain ⟨t, -, node, hnode, -⟩ := exists_of_forall₂ hshuffled hj
    exact ⟨node, hnode⟩
  obtain rfl : entries = nodes'.map .obj := by
    rw [← List.forall₂_eq_eq_eq, List.forall₂_map_right_iff]
    exact hnodes'
  refine ⟨nodes', types', rfl, ?_, hpermTypes.symm⟩
  rw [List.forall₂_map_left_iff] at hshuffled
  refine hshuffled.imp fun node t ht => ?_
  obtain ⟨_, heq, hsettled⟩ := ht
  cases heq
  exact hsettled

theorem alike_fields {requiredNames : List String} {properties properties' : Members Json}
    {fields : List Field}
    (h : List.Forall₂ (FieldFrom (TypedAlike root') requiredNames) properties fields)
    (hproperties : Members.Reordered properties properties') : ∃ fields',
      List.Forall₂ (FieldFrom (Settled root') requiredNames) properties' fields' ∧
        List.Forall₂ Field.Reordered fields fields' := by
  induction hproperties generalizing fields with
  | nil =>
    cases h
    exact ⟨[], .nil, .nil⟩
  | @cons property property' _ _ hhead _ ih =>
    obtain ⟨field, rest, hfield, hrest, rfl⟩ := List.forall₂_cons_left_iff.mp h
    obtain ⟨fields', hfields', hall⟩ := ih hrest
    obtain ⟨child, base, hvalue, hbase, rfl⟩ := hfield
    obtain ⟨hname, hreordered⟩ := hhead
    rw [hvalue] at hreordered
    obtain ⟨child', hvalue', hchild⟩ := reordered_obj_iff.mp hreordered
    rw [hname] at hbase ⊢
    obtain ⟨base', hsettled, hbase'⟩ := hbase child' hchild
    exact ⟨fieldOf requiredNames property'.1 child' base' :: fields',
      .cons ⟨child', base', hvalue', hsettled, rfl⟩ hfields',
      .cons (reordered_fieldOf hchild hbase' _ _) hall⟩

variable {node node' : Members Json} {t : TypeDescriptor}

theorem alike_typed (h : TypedAs node (TypedAlike root') hint t)
    (hnode : Members.Reordered node node') :
    ∃ t', TypedAs node' (Settled root') hint t' ∧ t.Reordered t' := by
  have hkept : ∀ {name : String}, node.get? "type" = some (.str name) →
      node'.get? "type" = some (.str name) := fun htype => hnode.kept htype rfl rfl
  cases h with
  | any htype => exact ⟨_, .any (hnode.kept htype rfl rfl), .same _⟩
  | scalar htype hkind => exact ⟨_, .scalar (hkept htype) hkind, .same _⟩
  | anyList htype hitems =>
    exact ⟨_, .anyList (hkept htype) (reordered_unfilled hnode hitems), .same _⟩
  | mapping htype hproperties =>
    exact ⟨_, .mapping (hkept htype) (reordered_unfilled hnode hproperties), .same _⟩
  | @listOf items t htype hitems hne ht =>
    obtain ⟨_, hitems', hreordered⟩ := hnode.found hitems
    obtain ⟨items', rfl, hall⟩ := reordered_obj_iff.mp hreordered
    obtain ⟨t', hsettled, ht'⟩ := ht items' hall
    refine ⟨_, .listOf (hkept htype) hitems' ?_ hsettled, .listOf ht'⟩
    rintro rfl
    cases hall
    exact hne rfl
  | composite htype hne hfields =>
    have hproperties := reordered_propertiesOf hnode
    obtain ⟨fields', hfields', hall⟩ := alike_fields hfields hproperties
    rw [← reordered_textsOf hnode (by decide)] at hfields'
    refine ⟨_, .composite (hkept htype) ?_ hfields', reordered_composite ⟨rfl, rfl, hall⟩⟩
    intro hempty
    rw [hempty] at hproperties
    exact hne (List.forall₂_nil_right_iff.mp hproperties)

/-- References lead to nodes in another order. -/
def LeadsAlike (refs : List String) (root root' : Members Json) : Prop :=
  ∀ ref ∈ refs, ∀ target, resolveRef ref root = .ok (.obj target) →
    ∃ target', resolveRef ref root' = .ok (.obj target') ∧ Members.Reordered target target'

theorem alike_step {root : Members Json} {refs : List String} (hleads : LeadsAlike refs root root')
    (hrefs : (Json.obj node).refs ⊆ refs) (h : StepsTo root node (TypedAlike root') hint t) :
    TypedAlike root' hint node t := by
  intro node' hnode
  have hreference := reordered_reference? hnode
  have halternatives : List.Forall₂ (Json.Reordered false)
      (listUnder node "anyOf" ++ listUnder node "oneOf")
      (listUnder node' "anyOf" ++ listUnder node' "oneOf") :=
    List.rel_append (reordered_listUnder hnode (by decide)) (reordered_listUnder hnode (by decide))
  obtain ⟨parts, hparts, hperm⟩ := reordered_allOf hnode
  suffices ∃ t', StepsTo root' node' (Settled root') hint t' ∧ t.Reordered t' by
    obtain ⟨t', hsteps, hreordered⟩ := this
    exact ⟨t', settled_iff.mpr hsteps, hreordered⟩
  cases h with
  | reference href htarget ht =>
    obtain ⟨target', htarget', hreordered⟩ :=
      hleads _ (hrefs (Json.reference_mem_refs href)) _ htarget
    obtain ⟨t', hsettled, ht'⟩ := ht target' hreordered
    exact ⟨t', .reference (hreference.trans href) htarget' hsettled, ht'⟩
  | union href hentries hne htypes =>
    rw [hentries] at halternatives
    obtain ⟨nodes', hentries', hnodes⟩ := reordered_nodes halternatives
    obtain ⟨types', hsettled, hall⟩ := alike_nodes htypes hnodes
    refine ⟨_, .union (hreference.trans href) hentries' ?_ hsettled, reordered_union hall⟩
    rintro rfl
    cases hnodes
    exact hne rfl
  | @only child t href hempty hpart ht =>
    rw [hempty, List.forall₂_nil_left_iff] at halternatives
    rw [show listUnder node "allOf" = [child].map .obj from hpart] at hparts
    obtain ⟨nodes', rfl, hnodes⟩ := reordered_nodes hparts
    obtain ⟨child', rest, hchild, hrest, rfl⟩ := List.forall₂_cons_left_iff.mp hnodes
    cases hrest
    obtain ⟨t', hsettled, ht'⟩ := ht child' hchild
    exact ⟨t', .only (hreference.trans href) halternatives (List.singleton_perm.mp hperm).symm
      hsettled, ht'⟩
  | intersection href hempty hall hlength htypes =>
    rw [hempty, List.forall₂_nil_left_iff] at halternatives
    rw [hall] at hparts
    obtain ⟨nodes', rfl, hnodes⟩ := reordered_nodes hparts
    obtain ⟨types', hsettled, hreordered⟩ := alike_nodes htypes hnodes
    obtain ⟨shuffled, types'', hentries, hsettled', hpermTypes⟩ := settled_shuffled hsettled hperm
    refine ⟨_, .intersection (hreference.trans href) halternatives hentries ?_ hsettled',
      reordered_intersection hreordered hpermTypes⟩
    have hsame := hperm.length_eq
    rw [hentries, List.length_map, List.length_map] at hsame
    rwa [← hsame, ← hnodes.length_eq]
  | typed href hempty hnone ht =>
    rw [hempty, List.forall₂_nil_left_iff] at halternatives
    rw [hnone, List.forall₂_nil_left_iff] at hparts
    subst hparts
    obtain ⟨t', htyped, ht'⟩ := alike_typed ht hnode
    exact ⟨t', .typed (hreference.trans href) halternatives (List.nil_perm.mp hperm) htyped, ht'⟩

end

/-! ## Schemas -/

/-- A node has the types of a node in another order, wherever its references lead to such nodes. -/
theorem alike_of_settled {root root' : Members Json} {refs : List String}
    (hleads : LeadsAlike refs root root') (hroot : (Json.obj root).refs ⊆ refs)
    {node : Members Json} (hnode : (Json.obj node).refs ⊆ refs) {hint : Option String}
    {t : TypeDescriptor} (h : Settled root hint node t) : TypedAlike root' hint node t := by
  refine typing_of_steps
    (fun hint node t => (Json.obj node).refs ⊆ refs → TypedAlike root' hint node t)
    (fun hsteps hrefs => ?_) h.finite h.found hnode
  refine alike_step hleads hrefs (hsteps.imp fun hint child t hv ht => ht ?_)
  rcases hv.cases with ⟨ref, -, htarget⟩ | ⟨-, hinside⟩
  · exact (Json.hereditary_refs refs).target hroot htarget
  · exact hinside.inherits (Json.hereditary_refs refs) hrefs

/-- Pointers lead to the same in both documents, up to the order of parts: it is one document, or
no pointer leads into the parts, which may stand in another order then. -/
def SamePlaces (refs : List String) (document document' : Members Json) : Prop :=
  document' = document ∨
    (Members.Reordered document document' ∧ ∀ ref ∈ refs, "allOf" ∉ pointerSegments ref)

theorem leadsAlike_of_samePlaces {refs : List String} {document document' : Members Json}
    (h : SamePlaces refs document document') : LeadsAlike refs document document' := by
  intro ref href target htarget
  rcases h with rfl | ⟨hreordered, houtside⟩
  · exact ⟨target, htarget, .refl target⟩
  · obtain ⟨j, hj, htargets⟩ := reordered_target (houtside ref href) hreordered htarget
    obtain ⟨target', rfl, hall⟩ := reordered_obj_iff.mp htargets
    exact ⟨target', hj, hall⟩

/-- A schema in another order compiles to the same model up to the order in its types. -/
theorem compile_reordered {schema schema' : Members Json} {root root' : Option (Members Json)}
    {overrides : Overrides} {m : Definition} (h : compileSchema schema root overrides = .ok m)
    (hschema : Members.Reordered schema schema')
    (hplaces : SamePlaces ((Json.obj schema).refs ++ (Json.obj (root.getD schema)).refs)
      (root.getD schema) (root'.getD schema')) :
    ∃ m', compileSchema schema' root' overrides = .ok m' ∧ m.Reordered m' := by
  unfold compileSchema at h ⊢
  obtain ⟨fields, hfields, rfl⟩ := buildDefinition_ok_iff.mp h
  have halike : List.Forall₂ (FieldFrom (TypedAlike (root'.getD schema'))
      (textsOf (schema.get? "required"))) (propertiesOf schema) fields := by
    refine fields_imp hfields fun hint child t hstop ht => ?_
    obtain ⟨name, hmem⟩ := mem_propertyStops.mp hstop
    refine alike_of_settled (leadsAlike_of_samePlaces hplaces) (List.subset_append_right _ _) ?_ ht
    exact (inside_property hmem).inherits (Json.hereditary_refs _) (List.subset_append_left _ _)
  obtain ⟨fields', hfields', hall⟩ := alike_fields halike (reordered_propertiesOf hschema)
  rw [← reordered_textsOf hschema (by decide)] at hfields'
  exact ⟨_, buildDefinition_ok_iff.mpr ⟨fields', hfields', rfl⟩, rfl, rfl, hall⟩

end JsonModel
