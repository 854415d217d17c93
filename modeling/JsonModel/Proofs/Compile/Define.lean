-- More definitions do no harm. Whatever a schema refers to stands where it stood when definitions with
-- new names join those of a document, and it compiles to the same model.
import JsonModel.Proofs.Check.Result
import JsonModel.Proofs.Compile.Rename

namespace JsonModel

/-! ## Documents with more definitions -/

/-- One document has all that another one has, and may define more. The other one has an object of
definitions, or none. -/
structure DefinesMore (root root' : Members Json) : Prop where
  others : ∀ k, k ≠ "$defs" → root'.get? k = root.get? k
  definitions : ∃ defs', root'.get? "$defs" = some (.obj defs') ∧
    (root.get? "$defs" = none ∨ ∃ defs, root.get? "$defs" = some (.obj defs) ∧
      ∀ name value, Members.get? name defs = some value → Members.get? name defs' = some value)

/-- The definitions of a document. -/
def definitionsOf (root : Members Json) : Members Json :=
  match root.get? "$defs" with
  | some (.obj defs) => defs
  | _ => []

/-- The document with further definitions. -/
def define (added root : Members Json) : Members Json :=
  root.put "$defs"
    (.obj (added.foldl (fun defs entry => Members.put entry.1 entry.2 defs) (definitionsOf root)))

theorem get?_foldl_put {name : String} {added : Members Json} (h : name ∉ Members.names added)
    (defs : Members Json) : Members.get? name
      (added.foldl (fun defs entry => Members.put entry.1 entry.2 defs) defs) =
        Members.get? name defs := by
  induction added generalizing defs with
  | nil => rfl
  | cons entry added ih =>
    unfold Members.names at h ih
    rw [List.map_cons, List.mem_cons, not_or] at h
    rw [List.foldl_cons, ih h.2, Members.get?_put, if_neg h.1]

/-- Definitions under new names leave those that are there alone. -/
theorem definesMore_define {added root : Members Json}
    (hroot : root.get? "$defs" = none ∨ ∃ defs, root.get? "$defs" = some (.obj defs))
    (hfresh : ∀ name ∈ Members.names added, name ∉ Members.names (definitionsOf root)) :
    DefinesMore root (define added root) := by
  refine ⟨fun k hk => by rw [define, Members.get?_put, if_neg hk], ?_⟩
  refine ⟨_, by rw [define, Members.get?_put, if_pos rfl], hroot.imp_right ?_⟩
  rintro ⟨defs, hdefs⟩
  refine ⟨defs, hdefs, fun name value hvalue => ?_⟩
  have hold : definitionsOf root = defs := by
    unfold definitionsOf
    rw [hdefs]
  rw [hold] at hfresh ⊢
  rw [get?_foldl_put, hvalue]
  intro hadded
  exact hfresh name hadded (Members.exists_get?_iff.mp ⟨value, hvalue⟩)

/-! ## References -/

/-- A reference names the object of all definitions itself. -/
def NamesDefinitions (ref : String) : Prop := ∃ start, pointerSegments ref = [start, "$defs"]

variable {root root' node : Members Json} {hint : Option String} {t : TypeDescriptor}

/-- A walk from the definitions by at least one step comes to the same. -/
theorem walk_definitions (h : DefinesMore root root') {definitions : Json}
    (hdefs : root.get? "$defs" = some definitions) {name : String} {rest : List String}
    {target : Json} (hwalk : walk definitions (name :: rest) = .ok target) :
    ∃ definitions', root'.get? "$defs" = some definitions' ∧
      walk definitions' (name :: rest) = .ok target := by
  obtain ⟨defs', hdefs', hkept⟩ := h.definitions
  refine ⟨.obj defs', hdefs', ?_⟩
  rcases hkept with hnone | ⟨defs, hobj, hkept⟩
  · rw [hdefs] at hnone
    simp at hnone
  · rw [hdefs] at hobj
    cases hobj
    unfold walk step? at hwalk ⊢
    simp only at hwalk ⊢
    split at hwalk
    · rename_i next hnext
      rw [hkept name next hnext]
      exact hwalk
    · simp at hwalk

/-- A walk from the document comes to the same, unless it ends at the document itself. -/
theorem walk_defined (h : DefinesMore root root') {segments : List String}
    (hsegments : segments ≠ ["$defs"]) {target : Members Json}
    (hwalk : walk (.obj root) segments = .ok (.obj target)) :
    ∃ target', walk (.obj root') segments = .ok (.obj target') ∧
      Counterpart root root' target target' := by
  cases segments with
  | nil =>
    cases hwalk
    exact ⟨root', rfl, .inr ⟨rfl, rfl⟩⟩
  | cons segment rest =>
    refine ⟨target, ?_, .inl rfl⟩
    unfold walk step? at hwalk ⊢
    simp only at hwalk ⊢
    by_cases hsegment : segment = "$defs"
    · subst hsegment
      cases rest with
      | nil => exact absurd rfl hsegments
      | cons name rest =>
        split at hwalk
        · rename_i definitions hdefs
          obtain ⟨definitions', hdefs', hwalk'⟩ := walk_definitions h hdefs hwalk
          rw [hdefs']
          exact hwalk'
        · simp at hwalk
    · rw [h.others segment hsegment]
      exact hwalk

theorem leadsOn_defined (h : DefinesMore root root') {refs : List String}
    (hrefs : ∀ ref ∈ refs, ¬ NamesDefinitions ref) : LeadsOn refs root root' := by
  intro ref href target htarget
  unfold resolveRef at htarget ⊢
  split at htarget
  · split at htarget
    · rename_i definitions hdefs
      rw [mapError_ok_iff] at htarget
      obtain ⟨definitions', hdefs', hwalk⟩ := walk_definitions h hdefs htarget
      simp only [hdefs']
      exact ⟨target, mapError_ok_iff.mpr hwalk, .inl rfl⟩
    · simp at htarget
  · rw [mapError_ok_iff] at htarget
    have hsegments : (pointerSegments ref).drop 1 ≠ ["$defs"] := by
      intro hdrop
      cases hall : pointerSegments ref with
      | nil => simp [hall] at hdrop
      | cons start rest =>
        rw [hall] at hdrop
        exact hrefs ref href ⟨start, by rw [hall, ← hdrop]; rfl⟩
    obtain ⟨target', hwalk, hcounterpart⟩ := walk_defined h hsegments htarget
    exact ⟨target', mapError_ok_iff.mpr hwalk, hcounterpart⟩

/-! ## Types -/

/-- The counterpart of a node has its types. -/
def CounterpartSettled (root root' : Members Json) : Typing := fun hint node t =>
  ∀ node', Counterpart root root' node node' → Settled root' hint node' t

theorem settled_step {refs : List String}
    (hsame : ∀ k ∈ typeKeywords, root'.get? k = root.get? k) (hleads : LeadsOn refs root root')
    (hrefs : (Json.obj node).refs ⊆ refs)
    (h : StepsTo root node (CounterpartSettled root root') hint t) :
    CounterpartSettled root root' hint node t := by
  intro node' hnode
  have hsame' : ∀ k ∈ typeKeywords, node'.get? k = node.get? k := by
    rcases hnode with rfl | ⟨rfl, rfl⟩
    · exact fun _ _ => rfl
    · exact hsame
  have hself : ∀ {hint : Option String} {child : Members Json} {u : TypeDescriptor},
      CounterpartSettled root root' hint child u → Settled root' hint child u :=
    fun hu => hu _ (.inl rfl)
  suffices StepsTo root' node (Settled root') hint t from
    (settled_congr hsame').mpr (settled_iff.mpr this)
  cases h with
  | reference hsome htarget ht =>
    obtain ⟨target', htarget', hcounterpart⟩ :=
      hleads _ (hrefs (Json.reference_mem_refs hsome)) _ htarget
    exact .reference hsome htarget' (ht target' hcounterpart)
  | union hnone hentries hne htypes =>
    exact .union hnone hentries hne (htypes.imp fun _ _ => hself)
  | only hnone hempty hpart ht => exact .only hnone hempty hpart (hself ht)
  | intersection hnone hempty hparts hlength htypes =>
    exact .intersection hnone hempty hparts hlength (htypes.imp fun _ _ => hself)
  | typed hnone hempty hparts ht =>
    exact .typed hnone hempty hparts (ht.imp fun _ _ _ _ => hself)

/-- A node has the same types in the document that defines more. -/
theorem settled_defined {refs : List String} (h : DefinesMore root root')
    (hrefs : ∀ ref ∈ refs, ¬ NamesDefinitions ref) (hroot : (Json.obj root).refs ⊆ refs)
    (hnode : (Json.obj node).refs ⊆ refs) (ht : Settled root hint node t) :
    Settled root' hint node t := by
  have hsame : ∀ k ∈ typeKeywords, root'.get? k = root.get? k := by
    intro k hk
    apply h.others
    rintro rfl
    revert hk
    decide
  suffices CounterpartSettled root root' hint node t from this node (.inl rfl)
  refine typing_of_steps
    (fun hint node t => (Json.obj node).refs ⊆ refs → CounterpartSettled root root' hint node t)
    (fun hsteps hrefs' => ?_) ht.finite ht.found hnode
  refine settled_step hsame (leadsOn_defined h hrefs) hrefs'
    (hsteps.imp fun hint child t hv hchild => hchild ?_)
  rcases hv.cases with ⟨ref, -, htarget⟩ | ⟨-, hinside⟩
  · exact (Json.hereditary_refs refs).target hroot htarget
  · exact hinside.inherits (Json.hereditary_refs refs) hrefs'

/-! ## Schemas -/

/-- A schema that compiles against a document compiles to the same model against one that defines
more, and so does the document itself, unless a reference names the object of all definitions. -/
theorem more_definitions_change_nothing {schema root' : Members Json}
    {root : Option (Members Json)} {overrides : Overrides} {d : Definition}
    (h : compileSchema schema root overrides = .ok d) (hmore : DefinesMore (root.getD schema) root')
    (hrefs : ∀ ref ∈ (Json.obj schema).refs ++ (Json.obj (root.getD schema)).refs,
      ¬ NamesDefinitions ref) :
    compileSchema schema (some root') overrides = .ok d ∧
      (root = none → compileSchema root' none overrides = .ok d) := by
  unfold compileSchema at h ⊢
  obtain ⟨fields, hfields, rfl⟩ := buildDefinition_ok_iff.mp h
  have hfields' : List.Forall₂ (FieldFrom (Settled root') (textsOf (schema.get? "required")))
      (propertiesOf schema) fields := by
    refine fields_imp hfields fun hint child t hstop ht => ?_
    obtain ⟨name, hmem⟩ := mem_propertyStops.mp hstop
    have hchild := (inside_property hmem).inherits
      (Json.hereditary_refs ((Json.obj schema).refs ++ (Json.obj (root.getD schema)).refs))
      (List.subset_append_left _ _)
    exact settled_defined hmore hrefs (List.subset_append_right _ _) hchild ht
  refine ⟨buildDefinition_ok_iff.mpr ⟨fields, hfields', rfl⟩, ?_⟩
  rintro rfl
  have hothers : ∀ k, k ≠ "$defs" → root'.get? k = schema.get? k := hmore.others
  refine buildDefinition_ok_iff.mpr ⟨fields, ?_, ?_⟩
  · rw [propertiesOf_congr (hothers _ (by decide)), hothers _ (by decide)]
    exact hfields'
  · rw [modelName_congr (hothers _ (by decide))]

/-- A definition that no letter refers to, of drafts that refer to themselves. -/
def draftDefinition : Members Json :=
  [("Draft", .obj [("type", .str "array"), ("items", .obj [("$ref", .str "#/$defs/Draft")])])]

theorem a_letter_is_no_other_for_drafts :
    DefinesMore letterSchema (define draftDefinition letterSchema) ∧
      compileSchema letterSchema (some (define draftDefinition letterSchema)) = .ok letterModel ∧
        compileSchema (define draftDefinition letterSchema) = .ok letterModel := by
  have hmore : DefinesMore letterSchema (define draftDefinition letterSchema) :=
    definesMore_define (.inr ⟨_, rfl⟩) (by decide)
  have hcompile : compileSchema letterSchema = .ok letterModel := rfl
  have hrefs : ∀ ref ∈ (Json.obj letterSchema).refs ++ (Json.obj letterSchema).refs,
      ¬ NamesDefinitions ref := by
    rintro ref href ⟨start, hstart⟩
    simp only [letterSchema, Json.refs, Json.refsOfMembers, Json.refsOfItems, Json.str?] at href
    simp at href
    subst href
    revert hstart
    simp [pointerSegments, splitAt]
  obtain ⟨hexplicit, hself⟩ := more_definitions_change_nothing hcompile hmore hrefs
  exact ⟨hmore, hexplicit, hself rfl⟩

end JsonModel
