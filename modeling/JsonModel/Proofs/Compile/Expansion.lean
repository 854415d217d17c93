-- The expansion of a schema. Where every way of a visit has an end, the fuel of the compiler is
-- never used up and no reference is met while it is being followed, so that the type of a node is
-- one step away from the types of the nodes behind it. And what compiles has such an expansion.
import Mathlib.Data.Finset.Card
import Mathlib.Logic.Relation
import Mathlib.Tactic.Ring
import JsonModel.Proofs.Compile.Step

namespace JsonModel

/-! ## Nodes inside a node -/

/-- A node stands inside another one: it is a part of it, and less high. -/
structure Inside (node child : Members Json) : Prop where
  inherits : ∀ {P : Json → Prop}, Hereditary P → P (.obj node) → P (.obj child)
  lower : Json.heightMembers child < Json.heightMembers node

theorem inside_member {node child : Members Json} {keyword : String}
    (h : node.get? keyword = some (.obj child)) : Inside node child := by
  have hheight := Json.height_le_of_member (Members.mem_of_get? h)
  unfold Json.height at hheight
  exact ⟨fun hP hnode => hP.found hnode h, by omega⟩

theorem inside_entry {node child : Members Json} {keyword : String}
    (h : Json.obj child ∈ listUnder node keyword) : Inside node child := by
  unfold listUnder at h
  split at h
  · rename_i entries hentries
    have hheight := Json.height_le_of_member (Members.mem_of_get? hentries)
    have hitem := Json.height_le_of_item h
    unfold Json.height at hheight hitem
    exact ⟨fun hP hnode => hP.item (hP.found hnode hentries) h, by omega⟩
  · simp at h

theorem inside_property {node child : Members Json} {name : String}
    (h : (name, Json.obj child) ∈ propertiesOf node) : Inside node child := by
  unfold propertiesOf at h
  split at h
  · rename_i properties hproperties
    have hheight := Json.height_le_of_member (Members.mem_of_get? hproperties)
    have hmember := Json.height_le_of_member h
    unfold Json.height at hheight hmember
    exact ⟨fun hP hnode => hP.member (hP.found hnode hproperties) h, by omega⟩
  · simp at h

theorem inside_typeStops {node child : Members Json} (h : Stop.enter child ∈ typeStops node) :
    Inside node child := by
  unfold typeStops at h
  split at h
  · simp at h
  · split at h
    · rename_i hitems
      simp only [List.mem_singleton, Stop.enter.injEq] at h
      subst h
      exact inside_member hitems
    · simp at h
  · obtain ⟨name, hmem⟩ := mem_propertyStops.mp h
    exact inside_property hmem
  · split at h <;> simp at h
  · simp at h

/-- A visit goes on with the target of a reference, or with a node inside. -/
theorem Visits.cases {root node child : Members Json} (h : Visits root node child) :
    (∃ ref, reference? node = some ref ∧ resolveRef ref root = .ok (.obj child)) ∨
      (reference? node = none ∧ Inside node child) := by
  unfold Visits stops at h
  split at h
  · rename_i ref href
    refine .inl ⟨ref, href, ?_⟩
    split at h
    · rename_i target htarget
      cases target with
      | obj target =>
        simp only [stopAt, List.mem_singleton, Stop.enter.injEq] at h
        rw [htarget, h]
      | _ => simp [stopAt] at h
    · rename_i e _
      cases e <;> simp [CompileError.offence?] at h
  · rename_i href
    refine .inr ⟨href, ?_⟩
    split at h
    · rcases List.mem_append.mp (mem_entryStops.mp h) with h | h
      · exact inside_entry h
      · exact inside_entry h
    · split at h
      · exact inside_entry (mem_entryStops.mp h)
      · exact inside_typeStops h

/-! ## Enough fuel -/

/-- A budget for a node. Between two references the way only leads down, from a height of at most
`limit`, and each of the `known` references that are not being followed can be followed once. -/
structure Budget (known : List String) (limit fuel : Nat) (scope : Scope) (node : Members Json) :
    Prop where
  node_refs : (Json.obj node).refs ⊆ known
  root_refs : (Json.obj scope.root).refs ⊆ known
  node_height : Json.heightMembers node ≤ limit
  root_height : Json.heightMembers scope.root ≤ limit
  enough : (known.toFinset \ scope.opened.toFinset).card * (limit + 1)
    + Json.heightMembers node < fuel

theorem budget_enoughFuel (node root : Members Json) :
    Budget ((Json.obj node).refs ++ (Json.obj root).refs)
      (Json.heightMembers node + Json.heightMembers root) (enoughFuel node root) { root } node where
  node_refs := List.subset_append_left _ _
  root_refs := List.subset_append_right _ _
  node_height := Nat.le_add_right _ _
  root_height := Nat.le_add_left _ _
  enough := by
    have hnode := Json.length_refs_le (.obj node)
    have hroot := Json.length_refs_le (.obj root)
    have hcard := List.toFinset_card_le ((Json.obj node).refs ++ (Json.obj root).refs)
    rw [List.length_append] at hcard
    unfold Json.refCount at hnode hroot
    have hle := Nat.mul_le_mul_right (Json.heightMembers node + Json.heightMembers root + 1)
      (hcard.trans (Nat.add_le_add hnode hroot))
    have hexpand : ∀ count height : Nat,
        (count + 1) * (height + 2) = count * (height + 1) + count + height + 2 := by
      intro count height
      ring
    unfold enoughFuel
    rw [hexpand]
    simp only [List.toFinset_nil, Finset.sdiff_empty]
    omega

/-- One step down costs one unit of fuel, and a reference that is followed is paid for by being
followed once only. -/
theorem Budget.visit {known : List String} {limit fuel : Nat} {scope : Scope}
    {node child : Members Json} (h : Budget known limit (fuel + 1) scope node)
    (hclosed : scope.Closed node) (hv : Visits scope.root node child) :
    Budget known limit fuel (scope.enter node) child := by
  have henough := h.enough
  unfold Scope.enter
  rcases hv.cases with ⟨ref, href, htarget⟩ | ⟨href, hinside⟩
  · rw [href]
    have hheight : Json.heightMembers child ≤ limit := by
      have hroot : (Json.obj scope.root).height ≤ limit + 1 := Nat.succ_le_succ h.root_height
      exact Nat.le_of_succ_le_succ ((Json.hereditary_height (limit + 1)).target hroot htarget)
    refine ⟨(Json.hereditary_refs known).target h.root_refs htarget, h.root_refs, hheight,
      h.root_height, ?_⟩
    have hmem : ref ∈ known.toFinset \ scope.opened.toFinset := by
      rw [Finset.mem_sdiff, List.mem_toFinset, List.mem_toFinset]
      exact ⟨h.node_refs (Json.reference_mem_refs href), hclosed ref href⟩
    have hcard : (known.toFinset \ (ref :: scope.opened).toFinset).card <
        (known.toFinset \ scope.opened.toFinset).card := by
      apply Finset.card_lt_card
      rw [List.toFinset_cons, Finset.sdiff_insert]
      exact Finset.erase_ssubset hmem
    have hmul := Nat.mul_le_mul_right (limit + 1) hcard
    rw [Nat.succ_mul] at hmul
    simp only
    omega
  · simp only [href]
    have hlower := hinside.lower
    exact ⟨hinside.inherits (Json.hereditary_refs known) h.node_refs, h.root_refs,
      hlower.le.trans h.node_height, h.root_height, by omega⟩

/-! ## No reference is met while it is being followed -/

theorem FiniteFrom.no_circle {root node : Members Json} (h : FiniteFrom root node) :
    ¬ Relation.TransGen (Visits root) node node := by
  induction h with
  | intro node _ ih =>
    intro hcircle
    obtain ⟨child, hchild, hback⟩ := Relation.TransGen.head'_iff.mp hcircle
    exact ih child hchild (Relation.TransGen.tail' hback hchild)

/-- No node on the way from here refers to something that is being followed. -/
def Fresh (scope : Scope) (node : Members Json) : Prop :=
  ∀ reached, Relation.ReflTransGen (Visits scope.root) node reached → scope.Closed reached

theorem Fresh.visit {scope : Scope} {node child : Members Json} (h : Fresh scope node)
    (hfinite : FiniteFrom scope.root child) (hv : Visits scope.root node child) :
    Fresh (scope.enter node) child := by
  intro reached hreached ref href hopened
  rw [Scope.enter_root] at hreached
  have hold := h reached (.head hv hreached) ref href
  unfold Scope.enter at hopened
  split at hopened
  · rename_i followed hfollowed
    rcases List.mem_cons.mp hopened with rfl | hmem
    · -- The same reference leads from the reached node back to where the way began.
      have hback : Visits scope.root reached child := by
        unfold Visits stops at hv ⊢
        rw [hfollowed] at hv
        rw [href]
        exact hv
      exact hfinite.no_circle (.tail' hreached hback)
    · exact hold hmem
  · exact hold hopened

/-! ## The compiler without fuel -/

/-- With fuel enough and nothing in the way, neither the fuel nor the open references matter. -/
theorem resolveTypeWith_eq {root node : Members Json} (hfinite : FiniteFrom root node)
    {known known' : List String} {limit limit' fuel fuel' : Nat} {scope scope' : Scope}
    (hroot : scope.root = root) (hroot' : scope'.root = root)
    (hbudget : Budget known limit fuel scope node)
    (hbudget' : Budget known' limit' fuel' scope' node)
    (hfresh : Fresh scope node) (hfresh' : Fresh scope' node) (hint : Option String) :
    resolveTypeWith fuel scope hint node = resolveTypeWith fuel' scope' hint node := by
  induction hfinite generalizing fuel fuel' scope scope' hint with
  | intro node hchildren ih =>
    have hclosed := hfresh node .refl
    have hclosed' := hfresh' node .refl
    cases fuel with
    | zero => exact absurd hbudget.enough (Nat.not_lt_zero _)
    | succ fuel =>
      cases fuel' with
      | zero => exact absurd hbudget'.enough (Nat.not_lt_zero _)
      | succ fuel' =>
        rw [resolveTypeWith_succ hclosed, resolveTypeWith_succ hclosed', hroot, hroot']
        apply resolveOnce_congr
        intro hint child hv
        have hscope := hroot ▸ hv
        have hscope' := hroot' ▸ hv
        apply ih child hv
        · rw [Scope.enter_root, hroot]
        · rw [Scope.enter_root, hroot']
        · exact hbudget.visit hclosed hscope
        · exact hbudget'.visit hclosed' hscope'
        · exact hfresh.visit (hroot ▸ hchildren child hv) hscope
        · exact hfresh'.visit (hroot' ▸ hchildren child hv) hscope'

theorem fresh_start (root node : Members Json) : Fresh { root } node :=
  fun _ _ _ _ => List.not_mem_nil

/-- Any budget gives the type that the compiler finds. -/
theorem resolveTypeWith_eq_resolveType {root node : Members Json} (h : FiniteFrom root node)
    {known : List String} {limit fuel : Nat} (hbudget : Budget known limit fuel { root } node)
    (hint : Option String) :
    resolveTypeWith fuel { root } hint node = resolveType node root hint :=
  resolveTypeWith_eq h rfl rfl hbudget (budget_enoughFuel node root) (fresh_start root node)
    (fresh_start root node) hint

/-- How a document finds the types of its nodes. -/
def typesFrom (root : Members Json) : Resolver := fun hint node => resolveType node root hint

/-- The type of a node is one step away from the types of the nodes behind it. -/
theorem resolveType_eq {root node : Members Json} (h : FiniteFrom root node)
    (hint : Option String) :
    resolveType node root hint = resolveOnce root (typesFrom root) hint node := by
  have hbudget := budget_enoughFuel node root
  have hfresh := fresh_start root node
  have hclosed := hfresh node .refl
  unfold resolveType
  cases hfuel : enoughFuel node root with
  | zero =>
    have henough := hbudget.enough
    omega
  | succ fuel =>
    rw [hfuel] at hbudget
    rw [resolveTypeWith_succ hclosed]
    apply resolveOnce_congr
    intro hint child hv
    have hchild : FiniteFrom root child := h.inv hv
    apply resolveTypeWith_eq hchild (Scope.enter_root _ _) rfl (hbudget.visit hclosed hv)
      (budget_enoughFuel child root) (hfresh.visit hchild hv) (fresh_start root child)

theorem Budget.inside {known : List String} {limit fuel : Nat} {scope : Scope}
    {node child : Members Json} (h : Budget known limit fuel scope node)
    (hinside : Inside node child) : Budget known limit fuel scope child := by
  have hlower := hinside.lower
  have henough := h.enough
  exact ⟨hinside.inherits (Json.hereditary_refs known) h.node_refs, h.root_refs,
    hlower.le.trans h.node_height, h.root_height, by omega⟩

/-- The definition of a schema comes from the types that its document finds. -/
theorem buildDefinition_eq {root schema : Members Json} (h : FiniteExpansion root schema)
    (overrides : Overrides) : buildDefinition schema root overrides =
      buildDefinitionWith (typesFrom root) schema overrides := by
  unfold buildDefinition
  apply buildDefinitionWith_congr
  intro hint child hchild
  obtain ⟨name, hmem⟩ := mem_propertyStops.mp hchild
  exact resolveTypeWith_eq_resolveType (h child hchild)
    ((budget_enoughFuel schema root).inside (inside_property hmem)) hint

/-- A relation that every step keeps holds between every node and the type that is found. -/
theorem typing_of_steps {root : Members Json} (typing : Typing)
    (hstep : ∀ {node : Members Json} {hint : Option String} {t : TypeDescriptor},
      StepsTo root node typing hint t → typing hint node t)
    {node : Members Json} (hfinite : FiniteFrom root node) {hint : Option String}
    {t : TypeDescriptor} (h : resolveType node root hint = .ok t) : typing hint node t := by
  induction hfinite generalizing hint t with
  | intro node hchildren ih =>
    rw [resolveType_eq (.intro node hchildren), resolveOnce_ok_iff] at h
    exact hstep (h.imp fun hint child t hv ht => ih child hv ht)

/-! ## What compiles has an end -/

theorem finite_of_resolved {fuel : Nat} {scope : Scope} {hint : Option String}
    {node : Members Json} {t : TypeDescriptor}
    (h : resolveTypeWith fuel scope hint node = .ok t) : FiniteFrom scope.root node := by
  induction fuel generalizing scope hint node t with
  | zero => simp [resolveTypeWith] at h
  | succ fuel ih =>
    rw [resolveTypeWith_succ (closed_of_ok h), resolveOnce_ok_iff] at h
    refine .intro node fun child hv => ?_
    obtain ⟨hint, t, ht⟩ := h.visited hv
    have hfinite := ih ht
    rwa [Scope.enter_root] at hfinite

theorem finite_of_built {root schema : Members Json} {overrides : Overrides} {d : Definition}
    (h : buildDefinition schema root overrides = .ok d) : FiniteExpansion root schema := by
  intro child hchild
  obtain ⟨name, hmem⟩ := mem_propertyStops.mp hchild
  obtain ⟨fields, hfields, -⟩ := bind_ok_iff.mp h
  obtain ⟨field, -, hfield⟩ := exists_of_mapM hfields hmem
  obtain ⟨child', base, hvalue, hbase, -⟩ := compileProperty_ok_iff.mp hfield
  cases hvalue
  exact finite_of_resolved hbase

/-! ## Short expansions -/

/-- Every way from some stops comes to its end after so many nodes. -/
def endsWithin (root : Members Json) : Nat → List Stop → Bool
  | 0, ss => ss.all fun stop => stop.node?.isNone
  | depth + 1, ss =>
    ss.all fun stop =>
      match stop.node? with
      | some node => endsWithin root depth (stops root node)
      | none => true

theorem finite_of_endsWithin {root child : Members Json} (depth : Nat) {ss : List Stop}
    (h : endsWithin root depth ss = true) (hchild : .enter child ∈ ss) :
    FiniteFrom root child := by
  induction depth generalizing ss child with
  | zero =>
    unfold endsWithin at h
    have hnone := List.all_eq_true.mp h _ hchild
    simp [Stop.node?] at hnone
  | succ depth ih =>
    unfold endsWithin at h
    have hinside := List.all_eq_true.mp h _ hchild
    exact .intro child fun next hnext => ih hinside hnext

end JsonModel
