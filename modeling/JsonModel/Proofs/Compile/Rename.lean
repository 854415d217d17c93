-- Schemas whose properties are called otherwise. The renamed schema compiles too, and its fields are
-- those of the original under their new names, wherever no reference leads into the properties.
import Mathlib.Data.List.Forall2
import Mathlib.Logic.Equiv.Defs
import JsonModel.Proofs.Compile.Shape
import JsonModel.Proofs.Compile.Unnamed

namespace JsonModel

variable (σ : Equiv.Perm String)

/-! ## Renamed keys -/

namespace Members

variable {α : Type _}

/-- The members under other names, in the order of those. -/
def rename (ms : Members α) : Members α := ofList (ms.map fun m => (σ m.1, m.2))

variable {ms : Members α}

theorem names_map_rename (ms : Members α) :
    (ms.map fun m => (σ m.1, m.2)).map Prod.fst = (names ms).map σ := by
  unfold names
  rw [List.map_map, List.map_map]
  rfl

theorem nodup_map_rename (h : (names ms).Nodup) :
    ((ms.map fun m => (σ m.1, m.2)).map Prod.fst).Nodup := by
  rw [names_map_rename]
  exact h.map σ.injective

/-- Renamed members of distinct names are all there. -/
theorem rename_perm (h : (names ms).Nodup) :
    (rename σ ms).Perm (ms.map fun m => (σ m.1, m.2)) := ofList_perm (nodup_map_rename σ h)

theorem get?_rename (h : (names ms).Nodup) (name : String) :
    get? (σ name) (rename σ ms) = get? name ms := by
  unfold rename
  rw [get?_ofList (nodup_map_rename σ h)]
  clear h
  induction ms with
  | nil => rfl
  | cons m ms ih =>
    rw [List.map_cons, get?_cons, get?_cons, ih]
    simp only [σ.apply_eq_iff_eq]

/-- Members are changed by a function that looks at their names. -/
theorem get?_mapWithName {β : Type _} (f : String → α → β) (name : String) (ms : Members α) :
    get? name (ms.map fun m => (m.1, f m.1 m.2)) = (get? name ms).map (f name) := by
  induction ms with
  | nil => rfl
  | cons m ms ih =>
    rw [List.map_cons, get?_cons, get?_cons, ih]
    split
    · rename_i heq
      rw [heq]
      rfl
    · rfl

end Members

/-! ## Renamed schemas -/

/-- A text under another name. -/
def renameText : Json → Json
  | .str s => .str (σ s)
  | other => other

/-- The value of a keyword in the renamed schema: properties get other names, and so do the names
that are required. -/
def renameValue (keyword : String) (value : Json) : Json :=
  match value with
  | .obj properties => if keyword = "properties" then .obj (Members.rename σ properties) else value
  | .arr names => if keyword = "required" then .arr (names.map (renameText σ)) else value
  | _ => value

/-- The schema with other names for its properties. -/
def renameSchema (schema : Members Json) : Members Json :=
  schema.map fun m => (m.1, renameValue σ m.1 m.2)

variable {σ} {schema : Members Json}

theorem renameValue_other {keyword : String} (hproperties : keyword ≠ "properties")
    (hrequired : keyword ≠ "required") (value : Json) : renameValue σ keyword value = value := by
  cases value <;> simp [renameValue, hproperties, hrequired]

theorem get?_renameSchema {keyword : String} (hproperties : keyword ≠ "properties")
    (hrequired : keyword ≠ "required") :
    (renameSchema σ schema).get? keyword = schema.get? keyword := by
  unfold renameSchema
  rw [Members.get?_mapWithName (renameValue σ)]
  cases schema.get? keyword with
  | none => rfl
  | some value => rw [Option.map_some, renameValue_other hproperties hrequired]

theorem propertiesOf_renameSchema :
    propertiesOf (renameSchema σ schema) = Members.rename σ (propertiesOf schema) := by
  unfold propertiesOf renameSchema
  rw [Members.get?_mapWithName (renameValue σ)]
  cases schema.get? "properties" with
  | none => rfl
  | some value =>
    cases value with
    | arr names => simp [renameValue, Members.rename, Members.ofList]
    | obj properties => simp [renameValue]
    | _ => rfl

theorem textsOf_renameSchema :
    textsOf ((renameSchema σ schema).get? "required") =
      (textsOf (schema.get? "required")).map σ := by
  have htexts : ∀ items : List Json, (items.map (renameText σ)).filterMap Json.str? =
      (items.filterMap Json.str?).map σ := by
    intro items
    rw [List.filterMap_map, List.map_filterMap]
    congr 1
    funext item
    cases item <;> rfl
  unfold renameSchema
  rw [Members.get?_mapWithName (renameValue σ)]
  cases schema.get? "required" with
  | none => rfl
  | some value =>
    cases value with
    | arr names => exact htexts names
    | _ => simp [renameValue, textsOf]

/-- A schema without properties stays without. -/
theorem unfilled_renameSchema (h : filledObject? (schema.get? "properties") = none) :
    filledObject? ((renameSchema σ schema).get? "properties") = none := by
  unfold renameSchema
  rw [Members.get?_mapWithName (renameValue σ)]
  cases hvalue : schema.get? "properties" with
  | none => rfl
  | some value =>
    rw [hvalue] at h
    cases value with
    | obj properties =>
      cases properties with
      | nil => rfl
      | cons m ms => simp [filledObject?] at h
    | _ => simp [renameValue, filledObject?]

/-! ## References -/

/-- A reference keeps out of the properties of the document. -/
def OutsideProperties (ref : String) : Prop := (pointerSegments ref)[1]? ≠ some "properties"

/-- The walk from a renamed list of names comes to the same objects. -/
theorem walk_renamed_texts {names : List Json} {segments : List String} {target : Members Json}
    (h : walk (.arr names) segments = .ok (.obj target)) :
    walk (.arr (names.map (renameText σ))) segments = .ok (.obj target) := by
  cases segments with
  | nil => simp [walk] at h
  | cons segment rest =>
    unfold walk step? at h ⊢
    cases hindex : (Number.ofText segment).toIndex? with
    | none => simp [hindex] at h
    | some i =>
      simp only [hindex, Option.bind_some, List.getElem?_map] at h ⊢
      cases hitem : names[i]? with
      | none => simp [hitem] at h
      | some item =>
        rw [hitem] at h
        simp only [Option.map_some] at h ⊢
        cases item with
        | str s =>
          -- a text leads nowhere, and is no object itself
          cases rest <;> simp [walk, step?] at h
        | _ => exact h

/-- What a node has become: it stays as it is, unless it is the whole document. -/
def Counterpart (root root' node node' : Members Json) : Prop :=
  node' = node ∨ (node = root ∧ node' = root')

theorem walk_renamed {segments : List String} {target : Members Json}
    (houtside : segments.head? ≠ some "properties")
    (h : walk (.obj schema) segments = .ok (.obj target)) :
    ∃ target', walk (.obj (renameSchema σ schema)) segments = .ok (.obj target') ∧
      Counterpart schema (renameSchema σ schema) target target' := by
  cases segments with
  | nil =>
    cases h
    exact ⟨_, rfl, .inr ⟨rfl, rfl⟩⟩
  | cons segment rest =>
    have hne : segment ≠ "properties" := by simpa using houtside
    refine ⟨target, ?_, .inl rfl⟩
    unfold walk step? at h ⊢
    simp only at h ⊢
    by_cases hrequired : segment = "required"
    · subst hrequired
      unfold renameSchema
      rw [Members.get?_mapWithName (renameValue σ)]
      cases hvalue : Members.get? "required" schema with
      | none => simp [hvalue] at h
      | some value =>
        rw [hvalue] at h
        simp only [Option.map_some] at h ⊢
        cases value with
        | arr names => exact walk_renamed_texts h
        | obj ms => exact h
        | _ => exact h
    · rw [get?_renameSchema hne hrequired]
      exact h

/-- References lead to counterparts. -/
def LeadsOn (refs : List String) (root root' : Members Json) : Prop :=
  ∀ ref ∈ refs, ∀ target, resolveRef ref root = .ok (.obj target) →
    ∃ target', resolveRef ref root' = .ok (.obj target') ∧ Counterpart root root' target target'

theorem leadsOn_renamed {refs : List String} (h : ∀ ref ∈ refs, OutsideProperties ref) :
    LeadsOn refs schema (renameSchema σ schema) := by
  intro ref href target htarget
  have houtside := h ref href
  unfold OutsideProperties at houtside
  unfold resolveRef at htarget ⊢
  split at htarget
  · rw [get?_renameSchema (by decide) (by decide)]
    exact ⟨target, htarget, .inl rfl⟩
  · rw [mapError_ok_iff] at htarget
    have hhead : (List.drop 1 (pointerSegments ref)).head? ≠ some "properties" := by
      rwa [List.head?_drop]
    obtain ⟨target', hwalk, hcounterpart⟩ := @walk_renamed σ _ _ _ hhead htarget
    exact ⟨target', mapError_ok_iff.mpr hwalk, hcounterpart⟩

theorem leadsOn_refl (refs : List String) (root : Members Json) : LeadsOn refs root root :=
  fun _ _ target htarget => ⟨target, htarget, .inl rfl⟩

/-! ## One step -/

/-- No way leads from here to the whole document, if its properties are looked at there. -/
def Avoids (root node : Members Json) : Prop :=
  reads root "properties" = true → ¬ Relation.ReflTransGen (Visits root) node root

/-- The documents differ in what the properties are called, and in which are required, at most. -/
structure SameElsewhere (root root' : Members Json) : Prop where
  others : ∀ k, k ≠ "properties" → k ≠ "required" → root'.get? k = root.get? k
  unfilled : filledObject? (root.get? "properties") = none →
    filledObject? (root'.get? "properties") = none

theorem sameElsewhere_renamed : SameElsewhere schema (renameSchema σ schema) where
  others _ := get?_renameSchema
  unfilled := unfilled_renameSchema

theorem sameElsewhere_refl (root : Members Json) : SameElsewhere root root :=
  ⟨fun _ _ _ => rfl, id⟩

variable {root root' node node' : Members Json} {hint : Option String} {t : TypeDescriptor}

/-- The counterpart of a node has its types, up to the names of models. -/
def CounterpartTyped (root root' : Members Json) : Typing := fun _ node t =>
  ∀ node', Counterpart root root' node node' → TypedUnnamed root' node' t

theorem unnamed_of_counterparts {nodes : List (Members Json)} {types : List TypeDescriptor}
    (h : List.Forall₂ (CounterpartTyped root root' hint) nodes types) :
    List.Forall₂ (TypedUnnamed root') nodes types := h.imp fun _ _ ht => ht _ (.inl rfl)

theorem unnamed_typed (hroot : SameElsewhere root root')
    (havoids : root' = root ∨ Avoids root node) (hreads : readsType node = true)
    (h : TypedAs node (CounterpartTyped root root') hint t)
    (hnode : Counterpart root root' node node') (hint' : Option String) :
    ∃ t', TypedAs node' (Settled root') hint' t' ∧ t'.unnamed = t.unnamed := by
  have hothers : ∀ k, k ≠ "properties" → k ≠ "required" → node'.get? k = node.get? k := by
    rcases hnode with rfl | ⟨rfl, rfl⟩
    · exact fun _ _ _ => rfl
    · exact hroot.others
  have htype := hothers "type" (by decide) (by decide)
  have hitems := hothers "items" (by decide) (by decide)
  cases h with
  | any ht => exact ⟨_, .any (htype.trans ht), rfl⟩
  | scalar ht hkind => exact ⟨_, .scalar (htype.trans ht) hkind, rfl⟩
  | anyList ht hnone => exact ⟨_, .anyList (htype.trans ht) (by rwa [hitems]), rfl⟩
  | @listOf items t ht hsome hne hbase =>
    obtain ⟨t', hsettled, ht'⟩ := hbase items (.inl rfl) hint'
    refine ⟨_, .listOf (htype.trans ht) (hitems.trans hsome) hne hsettled, ?_⟩
    rw [TypeDescriptor.unnamed, TypeDescriptor.unnamed, ht']
  | mapping ht hnone =>
    refine ⟨_, .mapping (htype.trans ht) ?_, rfl⟩
    rcases hnode with rfl | ⟨rfl, rfl⟩
    · exact hnone
    · exact hroot.unfilled hnone
  | composite ht hne hfields =>
    -- the whole document is no such node: its properties would be on the way to themselves
    obtain rfl : node' = node := by
      rcases hnode with rfl | ⟨rfl, rfl⟩
      · rfl
      · refine havoids.resolve_right fun havoids => ?_
        exact havoids (reads_properties.mpr ⟨hreads, ht⟩) .refl
    have hunnamed : List.Forall₂ (FieldFrom (fun _ => TypedUnnamed root')
        (textsOf (node'.get? "required"))) (propertiesOf node') _ :=
      fields_imp hfields fun _ _ _ _ hbase => hbase _ (.inl rfl)
    obtain ⟨fields', hfields', hall⟩ := unnamed_fields hunnamed
    refine ⟨_, .composite ht hne hfields', ?_⟩
    rw [unnamed_composite, unnamed_composite, hall]

theorem unnamed_step {refs : List String} (hroot : SameElsewhere root root')
    (hleads : LeadsOn refs root root') (hrefs : (Json.obj node).refs ⊆ refs)
    (havoids : root' = root ∨ Avoids root node)
    (h : StepsTo root node (CounterpartTyped root root') hint t) :
    CounterpartTyped root root' hint node t := by
  intro node' hnode hint'
  have hothers : ∀ k, k ≠ "properties" → k ≠ "required" → node'.get? k = node.get? k := by
    rcases hnode with rfl | ⟨rfl, rfl⟩
    · exact fun _ _ _ => rfl
    · exact hroot.others
  have href : reference? node' = reference? node :=
    reference?_congr (hothers _ (by decide) (by decide))
  have hentries' : listUnder node' "anyOf" ++ listUnder node' "oneOf" =
      listUnder node "anyOf" ++ listUnder node "oneOf" := by
    rw [listUnder_congr (hothers "anyOf" (by decide) (by decide)),
      listUnder_congr (hothers "oneOf" (by decide) (by decide))]
  have hparts' : listUnder node' "allOf" = listUnder node "allOf" :=
    listUnder_congr (hothers _ (by decide) (by decide))
  suffices ∃ t', StepsTo root' node' (Settled root') hint' t' ∧ t'.unnamed = t.unnamed by
    obtain ⟨t', hsteps, ht'⟩ := this
    exact ⟨t', settled_iff.mpr hsteps, ht'⟩
  cases h with
  | reference hsome htarget ht =>
    obtain ⟨target', htarget', hcounterpart⟩ :=
      hleads _ (hrefs (Json.reference_mem_refs hsome)) _ htarget
    obtain ⟨t', hsettled, ht'⟩ := ht target' hcounterpart hint'
    exact ⟨t', .reference (href.trans hsome) htarget' hsettled, ht'⟩
  | union hnone hentries hne htypes =>
    obtain ⟨types', hsettled, hall⟩ := unnamed_nodes (unnamed_of_counterparts htypes)
    refine ⟨_, .union (href.trans hnone) (hentries'.trans hentries) hne hsettled, ?_⟩
    rw [unnamed_union, unnamed_union, hall]
  | @only child t hnone hempty hpart ht =>
    obtain ⟨t', hsettled, ht'⟩ := ht child (.inl rfl) none
    exact ⟨t', .only (href.trans hnone) (hentries'.trans hempty) (hparts'.trans hpart) hsettled,
      ht'⟩
  | intersection hnone hempty hall hlength htypes =>
    obtain ⟨types', hsettled, hsame⟩ := unnamed_nodes (unnamed_of_counterparts htypes)
    refine ⟨_, .intersection (href.trans hnone) (hentries'.trans hempty) (hparts'.trans hall)
      hlength hsettled, ?_⟩
    rw [unnamed_intersection, unnamed_intersection, hsame]
  | typed hnone hempty hno ht =>
    obtain ⟨t', htyped, ht'⟩ := unnamed_typed hroot havoids
      (readsType_iff.mpr ⟨hnone, hempty, hno⟩) ht hnode hint'
    exact ⟨t', .typed (href.trans hnone) (hentries'.trans hempty) (hparts'.trans hno) htyped, ht'⟩

/-! ## Schemas -/

theorem Avoids.visit {child : Members Json} (h : Avoids root node) (hv : Visits root node child) :
    Avoids root child := fun hreads hway => h hreads (.head hv hway)

/-- No way leads from a property of a finite document to that document as an object. -/
theorem avoids_of_finite {child : Members Json} (h : Stop.enter child ∈ propertyStops root)
    (hfinite : FiniteFrom root child) : Avoids root child := by
  intro hreads hway
  obtain ⟨htyped, hobject⟩ := reads_properties.mp hreads
  obtain ⟨hnone, hempty, hparts⟩ := readsType_iff.mp htyped
  have hback : Visits root root child := by
    apply visits_typed hnone hempty hparts
    unfold typeStops
    rw [hobject]
    exact h
  exact hfinite.no_circle (.tail' hway hback)

/-- Up to names, a node has the types of its counterpart in the other document. -/
theorem unnamed_of_settled {refs : List String} (hroot : SameElsewhere root root')
    (hleads : LeadsOn refs root root') (hrootRefs : (Json.obj root).refs ⊆ refs)
    (hnodeRefs : (Json.obj node).refs ⊆ refs) (havoids : root' = root ∨ Avoids root node)
    (h : Settled root hint node t) : CounterpartTyped root root' hint node t := by
  refine typing_of_steps (fun hint node t => (Json.obj node).refs ⊆ refs →
      (root' = root ∨ Avoids root node) → CounterpartTyped root root' hint node t)
    (fun hsteps hrefs havoids => ?_) h.finite h.found hnodeRefs havoids
  refine unnamed_step hroot hleads hrefs havoids
    (hsteps.imp fun hint child t hv ht => ht ?_ (havoids.imp_right fun h => h.visit hv))
  rcases hv.cases with ⟨ref, -, htarget⟩ | ⟨-, hinside⟩
  · exact (Json.hereditary_refs refs).target hrootRefs htarget
  · exact hinside.inherits (Json.hereditary_refs refs) hrefs

variable (σ) in
/-- A field under another name. -/
def Field.renamed (f : Field) : Field := { f with name := σ f.name }

variable (σ) in
/-- Up to the names of the models in it, a model has the fields of another one under new names, in
some order. -/
structure Definition.RenamedTo (d d' : Definition) : Prop where
  base : d'.base = d.base
  overrides : d'.overrides = d.overrides
  fields : (d'.fields.map Field.unnamed).Perm (d.fields.map fun f => (f.renamed σ).unnamed)

theorem contains_map_rename (names : List String) (name : String) :
    (names.map σ).contains (σ name) = names.contains name := by
  rw [Bool.eq_iff_iff, List.contains_iff_mem, List.contains_iff_mem,
    List.mem_map_of_injective σ.injective]

/-- A property under another name gives the field under that name. -/
theorem fieldOf_renamed (requiredNames : List String) (name : String) (node : Members Json)
    (base : TypeDescriptor) : (fieldOf (requiredNames.map σ) (σ name) node base).unnamed =
      ((fieldOf requiredNames name node base).renamed σ).unnamed := by
  unfold fieldOf Field.renamed Field.unnamed
  simp only [contains_map_rename]

theorem renamed_fields {requiredNames : List String} {properties : Members Json}
    {fields : List Field}
    (h : List.Forall₂ (FieldFrom (fun _ => TypedUnnamed root') requiredNames) properties fields) :
    ∃ fields', List.Forall₂ (FieldFrom (Settled root') (requiredNames.map σ))
        (properties.map fun m => (σ m.1, m.2)) fields' ∧
      fields'.map Field.unnamed = fields.map fun f => (f.renamed σ).unnamed := by
  induction h with
  | nil => exact ⟨[], .nil, rfl⟩
  | @cons property _ _ _ hhead _ ih =>
    obtain ⟨child, base, hvalue, hbase, rfl⟩ := hhead
    obtain ⟨base', hsettled, hbase'⟩ := hbase (some (titleCase (σ property.1)))
    obtain ⟨fields', hfields', hall⟩ := ih
    refine ⟨fieldOf (requiredNames.map σ) (σ property.1) child base' :: fields',
      .cons ⟨child, base', hvalue, hsettled, rfl⟩ hfields', ?_⟩
    rw [List.map_cons, List.map_cons, hall, fieldOf_unnamed, hbase', ← fieldOf_unnamed,
      fieldOf_renamed]

/-- A schema whose references keep out of its properties compiles under new names too. -/
theorem compile_renamed {root : Option (Members Json)} {overrides : Overrides} {d : Definition}
    (h : compileSchema schema root overrides = .ok d) (hschema : (Json.obj schema).Distinct)
    (hrefs : root = none → ∀ ref ∈ (Json.obj schema).refs, OutsideProperties ref) :
    ∃ d', compileSchema (renameSchema σ schema) root overrides = .ok d' ∧ d.RenamedTo σ d' := by
  unfold compileSchema at h ⊢
  obtain ⟨fields, hfields, rfl⟩ := buildDefinition_ok_iff.mp h
  have htyped : List.Forall₂ (FieldFrom
      (fun _ => TypedUnnamed (root.getD (renameSchema σ schema))) (textsOf (schema.get? "required")))
      (propertiesOf schema) fields := by
    refine fields_imp hfields fun hint child t hstop ht => ?_
    obtain ⟨name, hmem⟩ := mem_propertyStops.mp hstop
    have hchild := (inside_property hmem).inherits (Json.hereditary_refs (Json.obj schema).refs)
      (List.Subset.refl _)
    cases root with
    | none =>
      exact unnamed_of_settled sameElsewhere_renamed (leadsOn_renamed (hrefs rfl))
        (List.Subset.refl _) hchild (.inr (avoids_of_finite hstop ht.finite)) ht child (.inl rfl)
    | some r =>
      exact unnamed_of_settled (sameElsewhere_refl r)
        (leadsOn_refl ((Json.obj schema).refs ++ (Json.obj r).refs) r)
        (List.subset_append_right _ _) (List.Subset.trans hchild (List.subset_append_left _ _)) (.inl rfl) ht
        child (.inl rfl)
  obtain ⟨fields', hfields', hall⟩ := @renamed_fields σ _ _ _ _ htyped
  obtain ⟨shuffled, hshuffled, hperm⟩ :=
    List.perm_comp_forall₂ (Members.rename_perm σ (properties_nodup hschema)) hfields'
  rw [← propertiesOf_renameSchema, ← textsOf_renameSchema] at hshuffled
  refine ⟨_, buildDefinition_ok_iff.mpr ⟨shuffled, hshuffled, rfl⟩, rfl, rfl, ?_⟩
  rw [← hall]
  exact hperm.map Field.unnamed

end JsonModel
