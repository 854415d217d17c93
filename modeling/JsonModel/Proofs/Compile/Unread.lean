-- What is not read of a schema does not count. At the place of a type a node is read up to its
-- reference, or else its alternatives, or else its parts, or else its type with what belongs to it;
-- bounds, forms and texts are read at a property alone. Two nodes that agree on this compile alike.
import JsonModel.Proofs.Compile.Inline

namespace JsonModel

/-! ## Nodes that agree -/

/-- The alternatives of a node. -/
abbrev alternativesOf (node : Members Json) : List Json :=
  listUnder node "anyOf" ++ listUnder node "oneOf"

/-- The parts of a node. -/
abbrev partsOf (node : Members Json) : List Json := listUnder node "allOf"

/-- Two nodes have the same beside their types: bounds, form, description and examples. -/
def SameBeside (node node' : Members Json) : Prop :=
  ∀ k ∈ besideKeywords, node'.get? k = node.get? k

mutual

/-- Two nodes agree on all that is read at the place of a type. Both refer to the same, or else both
refer to nothing and their alternatives agree; where there are none, their parts agree; and where
there are no parts either, their types do with all that belongs to them. -/
inductive Agree : Members Json → Members Json → Prop
  | reference {node node' : Members Json} {ref : String} : reference? node = some ref →
      reference? node' = some ref → Agree node node'
  | alternatives {node node' : Members Json} : reference? node = none → reference? node' = none →
      alternativesOf node ≠ [] →
      List.Forall₂ AgreeEntry (alternativesOf node) (alternativesOf node') → Agree node node'
  | parts {node node' : Members Json} : reference? node = none → reference? node' = none →
      alternativesOf node = [] → alternativesOf node' = [] → partsOf node ≠ [] →
      List.Forall₂ AgreeEntry (partsOf node) (partsOf node') → Agree node node'
  | typed {node node' : Members Json} : reference? node = none → reference? node' = none →
      alternativesOf node = [] → alternativesOf node' = [] → partsOf node = [] →
      partsOf node' = [] → (∀ k ∈ ["type", "title", "required"], node'.get? k = node.get? k) →
      Option.Rel Agree (filledObject? (node.get? "items")) (filledObject? (node'.get? "items")) →
      List.Forall₂ AgreeProperty (propertiesOf node) (propertiesOf node') → Agree node node'

/-- Two entries of lists agree: both are nodes that agree, or neither is a node. -/
inductive AgreeEntry : Json → Json → Prop
  | node {child child' : Members Json} : Agree child child' → AgreeEntry (.obj child) (.obj child')
  | other {entry entry' : Json} : entry.members? = none → entry'.members? = none →
      AgreeEntry entry entry'

/-- Two properties agree: they have one name, and both are nodes that agree, also beside their
types, or neither is a node. -/
inductive AgreeProperty : String × Json → String × Json → Prop
  | node {name : String} {child child' : Members Json} : Agree child child' →
      SameBeside child child' → AgreeProperty (name, .obj child) (name, .obj child')
  | other {name : String} {value value' : Json} : value.members? = none → value'.members? = none →
      AgreeProperty (name, value) (name, value')

end

theorem agreeEntry_refl {entry : Json} (h : ∀ child, entry = .obj child → Agree child child) :
    AgreeEntry entry entry := by
  cases hentry : entry.members? with
  | none => exact .other hentry hentry
  | some child =>
    obtain rfl := Json.eq_obj_of_members? hentry
    exact .node (h child rfl)

theorem agreeProperty_refl {property : String × Json}
    (h : ∀ child, property.2 = .obj child → Agree child child) :
    AgreeProperty property property := by
  obtain ⟨name, value⟩ := property
  cases hvalue : value.members? with
  | none => exact .other hvalue hvalue
  | some child =>
    obtain rfl := Json.eq_obj_of_members? hvalue
    exact .node (h child rfl) fun _ _ => rfl

/-- Every node agrees with itself. -/
theorem Agree.refl (node : Members Json) : Agree node node := by
  -- Strong induction on the height: every node that is compared stands inside this one.
  induction hheight : Json.heightMembers node using Nat.strong_induction_on generalizing node with
  | _ height ih =>
  have hinside : ∀ {child : Members Json}, Inside node child → Agree child child :=
    fun hchild => ih _ (by have := hchild.lower; omega) _ rfl
  have hentries : ∀ keyword, ∀ entry ∈ listUnder node keyword, AgreeEntry entry entry :=
    fun _ _ hentry => agreeEntry_refl fun _ heq => hinside (inside_entry (heq ▸ hentry))
  cases href : reference? node with
  | some ref => exact .reference href href
  | none =>
    by_cases halternatives : alternativesOf node = []
    · by_cases hparts : partsOf node = []
      · refine .typed href href halternatives halternatives hparts hparts (fun _ _ => rfl) ?_ ?_
        · cases hitems : filledObject? (node.get? "items") with
          | none => exact .none
          | some items =>
            exact .some (hinside (inside_member (filledObject?_eq_some.mp hitems).1))
        · refine List.forall₂_same.mpr fun property hproperty => agreeProperty_refl ?_
          rintro child heq
          apply hinside (inside_property (_ : (property.1, Json.obj child) ∈ _))
          rwa [← heq]
      · exact .parts href href halternatives halternatives hparts
          (List.forall₂_same.mpr (hentries "allOf"))
    · refine .alternatives href href halternatives (List.forall₂_same.mpr fun entry hentry => ?_)
      exact (List.mem_append.mp hentry).elim (hentries "anyOf" entry) (hentries "oneOf" entry)

/-! ## Results that agree -/

/-- Two compilations come to results that are related, or to errors of one kind. What is unsupported
may be another thing, but the references and segments that are missed are the same. -/
inductive Alike {α β : Type} (R : α → β → Prop) :
    Except CompileError α → Except CompileError β → Prop
  | ok {a : α} {b : β} : R a b → Alike R (.ok a) (.ok b)
  | unsupported {found found' : Json} {node node' : Members Json} :
      Alike R (.error (.unsupported found node)) (.error (.unsupported found' node'))
  | unresolved {ref segment : String} :
      Alike R (.error (.unresolved ref segment)) (.error (.unresolved ref segment))

/-- Two compilations come to the same result, or to errors of one kind. -/
abbrev SameResult {α : Type} : Except CompileError α → Except CompileError α → Prop := Alike Eq

section

variable {α β γ δ : Type} {R : α → β → Prop} {S : γ → δ → Prop}

theorem Alike.bind {x : Except CompileError α} {x' : Except CompileError β}
    {f : α → Except CompileError γ} {f' : β → Except CompileError δ} (hx : Alike R x x')
    (hf : ∀ a b, x = .ok a → R a b → Alike S (f a) (f' b)) : Alike S (x >>= f) (x' >>= f') := by
  cases hx with
  | ok h => exact hf _ _ rfl h
  | unsupported => exact .unsupported
  | unresolved => exact .unresolved

theorem Alike.map {x : Except CompileError α} {x' : Except CompileError β} {f : α → γ} {f' : β → δ}
    (hx : Alike R x x') (hf : ∀ a b, R a b → S (f a) (f' b)) :
    Alike S (x.map f) (x'.map f') := by
  cases hx with
  | ok h => exact .ok (hf _ _ h)
  | unsupported => exact .unsupported
  | unresolved => exact .unresolved

theorem alike_mapM {f : α → Except CompileError γ} {f' : β → Except CompileError δ} {xs : List α}
    {xs' : List β} (h : List.Forall₂ (fun x x' => Alike S (f x) (f' x')) xs xs') :
    Alike (List.Forall₂ S) (xs.mapM f) (xs'.mapM f') := by
  induction h with
  | nil => exact .ok .nil
  | cons hhead _ ih =>
    rw [List.mapM_cons, List.mapM_cons]
    exact hhead.bind fun y y' _ hy => ih.bind fun ys ys' _ hys => .ok (.cons hy hys)

theorem sameResult_mapM {f : α → Except CompileError γ} {f' : β → Except CompileError γ}
    {xs : List α} {xs' : List β} (h : List.Forall₂ (fun x x' => SameResult (f x) (f' x')) xs xs') :
    SameResult (xs.mapM f) (xs'.mapM f') := by
  have hall := alike_mapM h
  rwa [List.forall₂_eq_eq_eq] at hall

end

/-! ## One step keeps agreement -/

variable {root node node' : Members Json} {resolve : Resolver} {hint : Option String}

/-- Entries that agree are the same nodes up to agreement, or something among them is none. -/
theorem alike_entries {entries entries' : List Json}
    (h : List.Forall₂ AgreeEntry entries entries') :
    Alike (List.Forall₂ fun child child' => Json.obj child ∈ entries ∧ Agree child child')
      (entries.mapM (entryNode node)) (entries'.mapM (entryNode node')) := by
  apply alike_mapM
  refine forall₂_imp_of_mem h fun entry hentry entry' hagree => ?_
  cases hagree with
  | node hchild => exact .ok ⟨hentry, hchild⟩
  | other hnone hnone' =>
    have hfails : ∀ {node : Members Json} {j : Json}, j.members? = none →
        entryNode node j = .error (.unsupported j node) := by
      intro node j hj
      cases j with
      | obj ms => cases hj
      | _ => rfl
    rw [hfails hnone, hfails hnone']
    exact .unsupported

/-- The visited nodes that agree have the same types. -/
def StopsAlike (resolve : Resolver) (ss : List Stop) : Prop :=
  ∀ hint child child', Stop.enter child ∈ ss → Agree child child' →
    SameResult (resolve hint child) (resolve hint child')

theorem sameResult_nodes {entries : List Json} {nodes nodes' : List (Members Json)}
    (hnodes : List.Forall₂ (fun child child' => Json.obj child ∈ entries ∧ Agree child child')
      nodes nodes')
    (h : StopsAlike resolve (entryStops entries)) :
    SameResult (nodes.mapM (resolve none)) (nodes'.mapM (resolve none)) := by
  apply sameResult_mapM
  exact hnodes.imp fun child child' hchild => h none _ _ (mem_entryStops.mpr hchild.1) hchild.2

/-- Properties that agree give the same field. -/
theorem sameResult_property {property property' : String × Json}
    (hproperty : AgreeProperty property property')
    (hrequired : node'.get? "required" = node.get? "required")
    (h : StopsAlike resolve [stopAt property.2]) :
    SameResult (compileProperty resolve node property) (compileProperty resolve node' property') := by
  cases hproperty with
  | @node name child child' hagree hbeside =>
    unfold compileProperty
    simp only [compileFieldWith_eq, hrequired]
    refine (h _ _ _ List.mem_cons_self hagree).map fun base _ heq => ?_
    rw [← heq, fieldOf_congr _ _ _ hbeside]
  | @other name value value' hnone hnone' =>
    have hfails : ∀ {node : Members Json} {j : Json}, j.members? = none →
        compileProperty resolve node (name, j) = .error (.unsupported j node) := by
      intro node j hj
      cases j with
      | obj ms => cases hj
      | _ => rfl
    rw [hfails hnone, hfails hnone']
    exact .unsupported

theorem sameResult_definition {overrides : Overrides}
    (hproperties : List.Forall₂ AgreeProperty (propertiesOf node) (propertiesOf node'))
    (htitle : node'.get? "title" = node.get? "title")
    (hrequired : node'.get? "required" = node.get? "required")
    (h : StopsAlike resolve (propertyStops node)) :
    SameResult (buildDefinitionWith resolve node overrides)
      (buildDefinitionWith resolve node' overrides) := by
  have hfields : SameResult ((propertiesOf node).mapM (compileProperty resolve node))
      ((propertiesOf node').mapM (compileProperty resolve node')) := by
    apply sameResult_mapM
    refine forall₂_imp_of_mem hproperties fun property hmem property' hagree => ?_
    refine sameResult_property hagree hrequired fun hint child child' hstop => h hint child child' ?_
    rw [List.mem_singleton.mp hstop]
    exact List.mem_map_of_mem hmem
  refine hfields.bind fun fields _ _ heq => ?_
  rw [← heq, modelName_congr htitle]
  exact .ok rfl

theorem items_mem_typeStops {items : Members Json} (htype : node.get? "type" = some (.str "array"))
    (hsome : filledObject? (node.get? "items") = some items) :
    Stop.enter items ∈ typeStops node := by
  obtain ⟨hget, hne⟩ := filledObject?_eq_some.mp hsome
  cases items with
  | nil => exact absurd rfl hne
  | cons item rest => simp [typeStops, htype, hget]

theorem sameResult_byType
    (hkept : ∀ k ∈ ["type", "title", "required"], node'.get? k = node.get? k)
    (hitems : Option.Rel Agree (filledObject? (node.get? "items"))
      (filledObject? (node'.get? "items")))
    (hproperties : List.Forall₂ AgreeProperty (propertiesOf node) (propertiesOf node'))
    (h : StopsAlike resolve (typeStops node)) :
    SameResult (resolveByType resolve hint node) (resolveByType resolve hint node') := by
  unfold resolveByType
  rw [hkept "type" (by decide)]
  split
  · exact .ok rfl
  · rename_i htype
    generalize hsome : filledObject? (node.get? "items") = found,
      filledObject? (node'.get? "items") = found' at hitems
    cases hitems with
    | none => exact .ok rfl
    | @some items items' hagree =>
      have hstop := items_mem_typeStops htype hsome
      exact (h hint items items' hstop hagree).bind fun t _ _ heq => heq ▸ .ok rfl
  · rename_i htype
    have hbuild : SameResult (buildDefinitionWith resolve (withTitle hint node) {})
        (buildDefinitionWith resolve (withTitle hint node') {}) := by
      have hsame : ∀ node, propertiesOf (withTitle hint node) = propertiesOf node :=
        fun node => propertiesOf_congr (get?_withTitle (by decide) hint node)
      apply sameResult_definition
      · rwa [hsame, hsame]
      · exact get?_title_withTitle hint (hkept "title" (by decide))
      · rw [get?_withTitle (by decide), get?_withTitle (by decide), hkept "required" (by decide)]
      · rw [propertyStops_withTitle]
        simpa only [typeStops, htype] using h
    cases hsome : filledObject? (node.get? "properties") with
    | none =>
      rw [filledObject?_properties_eq_none] at hsome
      rw [hsome, List.forall₂_nil_left_iff] at hproperties
      rw [filledObject?_properties_eq_none.mpr hproperties]
      exact .ok rfl
    | some properties =>
      obtain ⟨rfl, hne⟩ := filledObject?_properties.mp hsome
      have hne' := ne_nil_of_forall₂ hproperties hne
      rw [filledObject?_properties.mpr ⟨rfl, hne'⟩]
      exact hbuild.bind fun d _ _ heq => heq ▸ .ok rfl
  · split
    · exact .ok rfl
    · exact .unsupported
  · exact .unsupported

/-- A node without a reference: all its alternatives are looked at before the first is entered. -/
theorem resolveOnce_eq (hnone : reference? node = none) : resolveOnce root resolve hint node =
    ((alternativesOf node).mapM (entryNode node) >>= fun
      | [] => (partsOf node).mapM (entryNode node) >>= fun
        | [] => resolveByType resolve hint node
        | [only] => resolve none only
        | members => return .intersection (← members.mapM (resolve none))
      | variants => return .union (← variants.mapM (resolve none))) := by
  unfold resolveOnce
  simp only [hnone, subNodes_eq, List.mapM_append]
  cases (listUnder node "anyOf").mapM (entryNode node) with
  | error e => rfl
  | ok anyOf =>
    cases (listUnder node "oneOf").mapM (entryNode node) with
    | error e => rfl
    | ok oneOf => rfl

/-- If the visited nodes that agree have the same types, so have two nodes that agree. -/
theorem sameResult_step (hagree : Agree node node') (h : StopsAlike resolve (stops root node)) :
    SameResult (resolveOnce root resolve hint node) (resolveOnce root resolve hint node') := by
  unfold stops at h
  cases hagree with
  | @reference _ _ ref href href' =>
    unfold resolveOnce
    simp only [href, href'] at h ⊢
    cases htarget : resolveRef ref root with
    | error e =>
      obtain ⟨segment, rfl⟩ := resolveRef_error htarget
      exact .unresolved
    | ok target =>
      rw [htarget] at h
      cases target with
      | obj target => exact h hint target target List.mem_cons_self (.refl target)
      | _ => exact .unsupported
  | alternatives hnone hnone' hne hentries =>
    simp only [hnone] at h
    rw [if_pos hne] at h
    rw [resolveOnce_eq hnone, resolveOnce_eq hnone']
    refine (alike_entries hentries).bind fun variants variants' hok hvariants => ?_
    have htypes := sameResult_nodes hvariants h
    cases hvariants with
    | nil => exact absurd rfl (ne_nil_of_forall₂ (mapM_ok_iff.mp hok) hne)
    | cons => exact htypes.bind fun types _ _ heq => heq ▸ .ok rfl
  | parts hnone hnone' hempty hempty' hne hentries =>
    simp only [hnone] at h
    rw [if_neg (not_not.mpr hempty), if_pos hne] at h
    rw [resolveOnce_eq hnone, resolveOnce_eq hnone', hempty, hempty']
    refine (alike_entries hentries).bind fun parts parts' hok hparts => ?_
    have htypes := sameResult_nodes hparts h
    cases hparts with
    | nil => exact absurd rfl (ne_nil_of_forall₂ (mapM_ok_iff.mp hok) hne)
    | cons hfirst hrest =>
      cases hrest with
      | nil => exact h none _ _ (mem_entryStops.mpr hfirst.1) hfirst.2
      | cons => exact htypes.bind fun types _ _ heq => heq ▸ .ok rfl
  | typed hnone hnone' hempty hempty' hparts hparts' hkept hitems hproperties =>
    simp only [hnone] at h
    rw [if_neg (not_not.mpr hempty), if_neg (not_not.mpr hparts)] at h
    rw [resolveOnce_eq hnone, resolveOnce_eq hnone', hempty, hempty', hparts, hparts']
    exact sameResult_byType hkept hitems hproperties h

/-! ## The whole compilation -/

theorem exists_agreeing_entry {entries entries' : List Json} {child' : Members Json}
    (h : List.Forall₂ AgreeEntry entries entries') (hchild : Json.obj child' ∈ entries') :
    ∃ child, Json.obj child ∈ entries ∧ Agree child child' := by
  obtain ⟨entry, hentry, hagree⟩ := exists_of_forall₂ h.flip hchild
  cases hagree with
  | node hchild => exact ⟨_, hentry, hchild⟩
  | other _ hnone => cases hnone

theorem exists_agreeing_property {properties properties' : Members Json} {name : String}
    {child' : Members Json} (h : List.Forall₂ AgreeProperty properties properties')
    (hchild : (name, Json.obj child') ∈ properties') :
    ∃ child, (name, Json.obj child) ∈ properties ∧ Agree child child' := by
  obtain ⟨property, hproperty, hagree⟩ := exists_of_forall₂ h.flip hchild
  cases hagree with
  | node hchild => exact ⟨_, hproperty, hchild⟩
  | other _ hnone => cases hnone

theorem exists_agreeing_typeStop {child' : Members Json}
    (htype : node'.get? "type" = node.get? "type")
    (hitems : Option.Rel Agree (filledObject? (node.get? "items"))
      (filledObject? (node'.get? "items")))
    (hproperties : List.Forall₂ AgreeProperty (propertiesOf node) (propertiesOf node'))
    (hchild : Stop.enter child' ∈ typeStops node') :
    ∃ child, Stop.enter child ∈ typeStops node ∧ Agree child child' := by
  unfold typeStops at hchild ⊢
  rw [htype] at hchild
  split at hchild
  · simp at hchild
  · rename_i hlist
    split at hchild
    · rename_i item rest hget
      obtain rfl : child' = item :: rest := by simpa using hchild
      have hsome' : filledObject? (node'.get? "items") = some (item :: rest) := by
        rw [hget]
        rfl
      rw [hsome'] at hitems
      generalize hsome : filledObject? (node.get? "items") = found at hitems
      cases hitems with
      | @some items _ hagree =>
        have hstop := items_mem_typeStops hlist hsome
        simp only [typeStops, hlist] at hstop
        exact ⟨items, hstop, hagree⟩
    · simp at hchild
  · obtain ⟨name, hmem⟩ := mem_propertyStops.mp hchild
    obtain ⟨child, hmem, hagree⟩ := exists_agreeing_property hproperties hmem
    exact ⟨child, mem_propertyStops.mpr ⟨name, hmem⟩, hagree⟩
  · split at hchild <;> simp at hchild
  · simp at hchild

/-- Where two nodes agree, a visit of the second goes on with nodes that agree with those that a
visit of the first goes on with. -/
theorem Agree.visits (hagree : Agree node node') {child' : Members Json}
    (hv : Visits root node' child') : ∃ child, Visits root node child ∧ Agree child child' := by
  unfold Visits stops at hv ⊢
  cases hagree with
  | @reference _ _ ref href href' =>
    simp only [href, href'] at hv ⊢
    exact ⟨child', hv, .refl child'⟩
  | alternatives hnone hnone' hne hentries =>
    have hne' := ne_nil_of_forall₂ hentries hne
    simp only [hnone, hnone'] at hv ⊢
    rw [if_pos hne', mem_entryStops] at hv
    rw [if_pos hne]
    simp only [mem_entryStops]
    exact exists_agreeing_entry hentries hv
  | parts hnone hnone' hempty hempty' hne hentries =>
    have hne' := ne_nil_of_forall₂ hentries hne
    simp only [hnone, hnone'] at hv ⊢
    rw [if_neg (not_not.mpr hempty'), if_pos hne', mem_entryStops] at hv
    rw [if_neg (not_not.mpr hempty), if_pos hne]
    simp only [mem_entryStops]
    exact exists_agreeing_entry hentries hv
  | typed hnone hnone' hempty hempty' hparts hparts' hkept hitems hproperties =>
    simp only [hnone, hnone'] at hv ⊢
    rw [if_neg (not_not.mpr hempty'), if_neg (not_not.mpr hparts')] at hv
    rw [if_neg (not_not.mpr hempty), if_neg (not_not.mpr hparts)]
    exact exists_agreeing_typeStop (hkept "type" (by decide)) hitems hproperties hv

theorem Agree.finite (hfinite : FiniteFrom root node) (hagree : Agree node node') :
    FiniteFrom root node' := by
  induction hfinite generalizing node' with
  | intro node _ ih =>
    refine .intro node' fun child' hv => ?_
    obtain ⟨child, hv, hchild⟩ := hagree.visits hv
    exact ih child hv hchild

theorem sameResult_resolveType (hfinite : FiniteFrom root node) (hagree : Agree node node')
    (hint : Option String) :
    SameResult (resolveType node root hint) (resolveType node' root hint) := by
  induction hfinite generalizing node' hint with
  | intro node hchildren ih =>
    have hfinite : FiniteFrom root node := .intro node hchildren
    rw [resolveType_eq hfinite, resolveType_eq (hagree.finite hfinite)]
    exact sameResult_step hagree fun hint child child' hv hchild => ih child hv hchild hint

/-- What is not read at a place does not count there. Two nodes that agree at the place of a type
have the same type or fail alike, and two that agree at a property also give the same field. -/
theorem what_is_not_read_changes_nothing (hfinite : FiniteFrom root node)
    (hagree : Agree node node') :
    (∀ hint, SameResult (resolveType node root hint) (resolveType node' root hint)) ∧
      (SameBeside node node' → ∀ name requiredNames,
        SameResult (compileField name node requiredNames root)
          (compileField name node' requiredNames root)) := by
  refine ⟨sameResult_resolveType hfinite hagree, fun hbeside name requiredNames => ?_⟩
  unfold compileField
  rw [compileFieldWith_eq, compileFieldWith_eq]
  refine (sameResult_resolveType hfinite hagree (some (titleCase name))).map fun base _ heq => ?_
  rw [← heq, fieldOf_congr _ _ _ hbeside]

/-- A list of mail addresses and other texts. -/
def plainList : Members Json :=
  [("type", .str "array"),
    ("items", .obj
      [("anyOf", .arr [.obj [("$ref", .str "#/$defs/Mail")], .obj [("type", .str "string")]])])]

/-- The same list with a bound on its length, a type beside a reference, and a form and a type where
none is read. -/
def crowdedList : Members Json :=
  [("type", .str "array"), ("maxItems", .num (.ofNat 3)),
    ("items", .obj
      [("type", .str "integer"),
        ("oneOf", .arr
          [.obj [("$ref", .str "#/$defs/Mail"), ("type", .str "array")],
            .obj [("type", .str "string"), ("format", .str "uuid")]])])]

theorem a_crowded_list_is_the_plain_one :
    FiniteFrom referringSchema plainList ∧ Agree plainList crowdedList ∧
      resolveType crowdedList referringSchema =
        .ok (.listOf (.union [.primitive .string, .primitive .string])) := by
  have hends : endsWithin referringSchema 4 [.enter plainList] = true := rfl
  have hfinite := finite_of_endsWithin 4 hends List.mem_cons_self
  have hmail : Agree [("$ref", .str "#/$defs/Mail")]
      [("$ref", .str "#/$defs/Mail"), ("type", .str "array")] :=
    .reference rfl rfl
  have htext : Agree [("type", .str "string")] [("type", .str "string"), ("format", .str "uuid")] :=
    .typed rfl rfl rfl rfl rfl rfl (by simp [Members.get?_cons]) .none .nil
  have hagree : Agree plainList crowdedList := by
    refine .typed rfl rfl rfl rfl rfl rfl ?_ (.some ?_) .nil
    · simp [plainList, crowdedList, Members.get?_cons]
    · exact .alternatives rfl rfl (List.cons_ne_nil _ _)
        (.cons (.node hmail) (.cons (.node htext) .nil))
  have hsame := (what_is_not_read_changes_nothing hfinite hagree).1 none
  have hplain : resolveType plainList referringSchema =
      .ok (.listOf (.union [.primitive .string, .primitive .string])) := rfl
  rw [hplain] at hsame
  refine ⟨hfinite, hagree, ?_⟩
  generalize resolveType crowdedList referringSchema = result at hsame
  cases hsame with
  | ok heq => rw [← heq]

end JsonModel
