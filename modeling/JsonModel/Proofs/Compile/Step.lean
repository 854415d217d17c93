-- One step of the compiler: how the type of a node comes from the types of the nodes that its
-- visit goes on with, and what a step that succeeds has found.
import JsonModel.Proofs.Compile.Visit

namespace JsonModel

/-! ## The step -/

/-- The type of a node, given how the types of the nodes behind it are found. -/
def resolveOnce (root : Members Json) (resolve : Resolver) : Resolver := fun hint node =>
  match reference? node with
  | some ref => do
    match ← resolveRef ref root with
    | .obj target => resolve hint target
    | other => .error (.unsupported other node)
  | none => do
    let anyOf ← subNodes node "anyOf"
    let oneOf ← subNodes node "oneOf"
    match anyOf ++ oneOf with
    | [] =>
      match ← subNodes node "allOf" with
      | [] => resolveByType resolve hint node
      | [only] => resolve none only
      | members => return .intersection (← members.mapM (resolve none))
    | variants => return .union (← variants.mapM (resolve none))

/-- The scope in which the nodes behind a node are compiled. -/
def Scope.enter (scope : Scope) (node : Members Json) : Scope :=
  match reference? node with
  | some ref => { scope with opened := ref :: scope.opened }
  | none => scope

theorem Scope.enter_root (scope : Scope) (node : Members Json) :
    (scope.enter node).root = scope.root := by
  unfold Scope.enter
  split <;> rfl

/-- The reference of a node is not being followed already. -/
def Scope.Closed (scope : Scope) (node : Members Json) : Prop :=
  ∀ ref, reference? node = some ref → ref ∉ scope.opened

theorem resolveTypeWith_succ {scope : Scope} {node : Members Json} (h : scope.Closed node)
    (fuel : Nat) (hint : Option String) :
    resolveTypeWith (fuel + 1) scope hint node =
      resolveOnce scope.root (resolveTypeWith fuel (scope.enter node)) hint node := by
  unfold resolveTypeWith resolveOnce Scope.enter
  cases href : reference? node with
  | some ref =>
    have hclosed : ¬ scope.opened.contains ref = true := by simpa using h ref href
    exact (if_neg hclosed).trans rfl
  | none => rfl

/-- A step that succeeds does not follow a reference that is being followed already. -/
theorem closed_of_ok {fuel : Nat} {scope : Scope} {hint : Option String} {node : Members Json}
    {t : TypeDescriptor} (h : resolveTypeWith (fuel + 1) scope hint node = .ok t) :
    scope.Closed node := by
  intro ref href hopened
  unfold resolveTypeWith at h
  rw [href] at h
  simp [hopened] at h

/-! ## A step looks at the visited nodes alone -/

variable {root node : Members Json} {resolve resolve' : Resolver}

/-- A title only names a node: its properties and required names stay. -/
theorem get?_withTitle {name : String} (h : name ≠ "title") (hint : Option String)
    (node : Members Json) : (withTitle hint node).get? name = node.get? name := by
  unfold withTitle
  split
  · rw [Members.get?_put, if_neg h]
  · rw [Members.get?_put, if_neg h]
  · rfl

theorem propertyStops_withTitle (hint : Option String) (node : Members Json) :
    propertyStops (withTitle hint node) = propertyStops node := by
  unfold propertyStops propertiesOf
  rw [get?_withTitle (by decide)]

theorem compileFieldWith_congr {name : String} {requiredNames : List String}
    (h : resolve (some (titleCase name)) node = resolve' (some (titleCase name)) node) :
    compileFieldWith resolve requiredNames name node =
      compileFieldWith resolve' requiredNames name node := by
  unfold compileFieldWith
  rw [h]

theorem buildDefinitionWith_congr {overrides : Overrides}
    (h : ∀ hint child, Stop.enter child ∈ propertyStops node →
      resolve hint child = resolve' hint child) :
    buildDefinitionWith resolve node overrides = buildDefinitionWith resolve' node overrides := by
  unfold buildDefinitionWith
  have hfields : (propertiesOf node).mapM (compileProperty resolve node) =
      (propertiesOf node).mapM (compileProperty resolve' node) := by
    refine mapM_congr fun property hproperty => ?_
    obtain ⟨name, value⟩ := property
    cases value with
    | obj child =>
      apply compileFieldWith_congr
      exact h _ _ (mem_propertyStops.mpr ⟨name, hproperty⟩)
    | _ => rfl
  exact congrArg (· >>= _) hfields

theorem filledObject?_eq_some {value : Option Json} {ms : Members Json} :
    filledObject? value = some ms ↔ value = some (.obj ms) ∧ ms ≠ [] := by
  unfold filledObject?
  constructor
  · intro h
    split at h
    · simp at h
    · rename_i hne
      cases h
      exact ⟨rfl, fun he => hne (by rw [he])⟩
    · simp at h
  · rintro ⟨rfl, hne⟩
    cases ms with
    | nil => exact absurd rfl hne
    | cons m ms => rfl

theorem resolveByType_congr {hint : Option String}
    (h : ∀ hint child, Stop.enter child ∈ typeStops node →
      resolve hint child = resolve' hint child) :
    resolveByType resolve hint node = resolveByType resolve' hint node := by
  unfold resolveByType
  unfold typeStops at h
  split
  · rfl
  · rename_i htype
    rw [htype] at h
    split
    · rename_i items hitems
      obtain ⟨hitems, hne⟩ := filledObject?_eq_some.mp hitems
      cases items with
      | nil => exact absurd rfl hne
      | cons m ms =>
        rw [h hint (m :: ms) (by simp [hitems])]
    · rfl
  · rename_i htype
    rw [htype] at h
    split
    · have hbuild : buildDefinitionWith resolve (withTitle hint node) {} =
          buildDefinitionWith resolve' (withTitle hint node) {} := by
        apply buildDefinitionWith_congr
        rwa [propertyStops_withTitle]
      rw [hbuild]
    · rfl
  · rfl
  · rfl

/-- Two ways to find types that agree on the visited nodes agree on the node. -/
theorem resolveOnce_congr {hint : Option String}
    (h : ∀ hint child, Visits root node child → resolve hint child = resolve' hint child) :
    resolveOnce root resolve hint node = resolveOnce root resolve' hint node := by
  unfold Visits stops at h
  unfold resolveOnce
  split
  · rename_i ref href
    rw [href] at h
    cases htarget : resolveRef ref root with
    | error e => rfl
    | ok target =>
      cases target with
      | obj target => exact h hint target (by simp [htarget, stopAt])
      | _ => rfl
  · rename_i href
    rw [href] at h
    cases hany : subNodes node "anyOf" with
    | error e => rfl
    | ok anyOf =>
      cases hone : subNodes node "oneOf" with
      | error e => rfl
      | ok oneOf =>
        rw [subNodes_ok_iff.mp hany, subNodes_ok_iff.mp hone, ← List.map_append] at h
        simp only [bind, Except.bind]
        generalize anyOf ++ oneOf = variants at h
        cases variants with
        | cons variant variants =>
          have hnone : ∀ child ∈ variant :: variants,
              resolve none child = resolve' none child := by
            intro child hchild
            apply h
            rw [List.map_cons, if_pos (List.cons_ne_nil _ _), ← List.map_cons, mem_entryStops]
            exact List.mem_map_of_mem hchild
          simp only [mapM_congr hnone]
        | nil =>
          cases hall : subNodes node "allOf" with
          | error e => rfl
          | ok parts =>
            rw [subNodes_ok_iff.mp hall] at h
            cases parts with
            | nil => exact resolveByType_congr h
            | cons part parts =>
              have hnone : ∀ child ∈ part :: parts,
                  resolve none child = resolve' none child := by
                intro child hchild
                apply h
                simp only [List.map_nil, ne_eq, not_true_eq_false, if_false]
                rw [List.map_cons, if_pos (List.cons_ne_nil _ _), ← List.map_cons, mem_entryStops]
                exact List.mem_map_of_mem hchild
              cases parts with
              | nil => exact hnone part List.mem_cons_self
              | cons second parts => simp only [mapM_congr hnone]

/-! ## What a step that succeeds has found -/

/-- The field that a name and a node give, once the type of the node is known. -/
def fieldOf (requiredNames : List String) (name : String) (node : Members Json)
    (base : TypeDescriptor) : Field where
  name
  type :=
    if requiredNames.contains name then (refine base node).1 else (refine base node).1.nullable
  required := requiredNames.contains name
  defaultsToNull := !requiredNames.contains name
  description := description? node
  examples := examplesOf node
  limits := (refine base node).2

theorem compileFieldWith_eq (resolve : Resolver) (requiredNames : List String) (name : String)
    (node : Members Json) : compileFieldWith resolve requiredNames name node =
      (resolve (some (titleCase name)) node).map (fieldOf requiredNames name node) := by
  unfold compileFieldWith
  cases resolve (some (titleCase name)) node <;> rfl

/-- Which types a node may have, given a name for what has none. -/
abbrev Typing := Option String → Members Json → TypeDescriptor → Prop

/-- The types that are found. -/
abbrev Found (resolve : Resolver) : Typing := fun hint node t => resolve hint node = .ok t

/-- A property gives a field: it is an object that has a type. -/
def FieldFrom (typing : Typing) (requiredNames : List String) (property : String × Json)
    (field : Field) : Prop :=
  ∃ child base, property.2 = .obj child ∧ typing (some (titleCase property.1)) child base ∧
    field = fieldOf requiredNames property.1 child base

theorem compileProperty_ok_iff {property : String × Json} {field : Field} :
    compileProperty resolve node property = .ok field ↔
      FieldFrom (Found resolve) (textsOf (node.get? "required")) property field := by
  obtain ⟨name, value⟩ := property
  constructor
  · intro h
    cases value with
    | obj child =>
      unfold compileProperty at h
      simp only [compileFieldWith_eq] at h
      cases hbase : resolve (some (titleCase name)) child with
      | error e => simp [hbase, Except.map] at h
      | ok base =>
        rw [hbase] at h
        cases h
        exact ⟨child, base, rfl, hbase, rfl⟩
    | _ => simp [compileProperty] at h
  · rintro ⟨child, base, hvalue, hbase, rfl⟩
    cases hvalue
    unfold compileProperty
    simp only [compileFieldWith_eq, hbase]
    rfl

/-- A definition is built exactly when every property gives a field, and has these fields. -/
theorem buildDefinitionWith_ok_iff {overrides : Overrides} {d : Definition} :
    buildDefinitionWith resolve node overrides = .ok d ↔
      ∃ fields, List.Forall₂ (FieldFrom (Found resolve) (textsOf (node.get? "required")))
          (propertiesOf node) fields ∧
        d = { name := modelName node, base := [], fields, overrides } := by
  have hall : ∀ fields, (propertiesOf node).mapM (compileProperty resolve node) = .ok fields ↔
      List.Forall₂ (FieldFrom (Found resolve) (textsOf (node.get? "required")))
        (propertiesOf node) fields := by
    intro fields
    simp only [mapM_ok_iff, compileProperty_ok_iff]
  constructor
  · intro h
    obtain ⟨fields, hfields, h⟩ := bind_ok_iff.mp h
    cases h
    exact ⟨fields, (hall fields).mp hfields, rfl⟩
  · rintro ⟨fields, hfields, rfl⟩
    exact bind_ok_iff.mpr ⟨fields, (hall fields).mpr hfields, rfl⟩

/-- What the type keyword makes of a node. -/
inductive TypedAs (node : Members Json) (typing : Typing) (hint : Option String) :
    TypeDescriptor → Prop
  | any : node.get? "type" = none → TypedAs node typing hint (.primitive .any)
  | scalar {name : String} {kind : Primitive} : node.get? "type" = some (.str name) →
      scalarKind? name = some kind → TypedAs node typing hint (.primitive kind)
  | anyList : node.get? "type" = some (.str "array") → filledObject? (node.get? "items") = none →
      TypedAs node typing hint .anyList
  | listOf {items : Members Json} {t : TypeDescriptor} : node.get? "type" = some (.str "array") →
      node.get? "items" = some (.obj items) → items ≠ [] → typing hint items t →
      TypedAs node typing hint (.listOf t)
  | mapping : node.get? "type" = some (.str "object") →
      filledObject? (node.get? "properties") = none → TypedAs node typing hint .mapping
  | composite {fields : List Field} : node.get? "type" = some (.str "object") →
      propertiesOf node ≠ [] →
      List.Forall₂ (FieldFrom typing (textsOf (node.get? "required")))
        (propertiesOf node) fields →
      TypedAs node typing hint (.composite
        { name := modelName (withTitle hint node), base := [], fields, overrides := {} })

theorem typeStops_of_scalar {name : String} {kind : Primitive}
    (htype : node.get? "type" = some (.str name)) (hkind : scalarKind? name = some kind) :
    typeStops node = [] := by
  unfold scalarKind? at hkind
  unfold typeStops
  split at hkind
  case h_6 => simp at hkind
  all_goals simp [htype, nodeTypeNames]

theorem filledObject?_properties {node properties : Members Json} :
    filledObject? (node.get? "properties") = some properties ↔
      propertiesOf node = properties ∧ properties ≠ [] := by
  rw [filledObject?_eq_some]
  unfold propertiesOf
  constructor
  · rintro ⟨h, hne⟩
    rw [h]
    exact ⟨rfl, hne⟩
  · rintro ⟨h, hne⟩
    split at h
    · rename_i ms hms
      rw [h] at hms
      exact ⟨hms, hne⟩
    · exact absurd h.symm hne

theorem filledObject?_properties_eq_none {node : Members Json} :
    filledObject? (node.get? "properties") = none ↔ propertiesOf node = [] := by
  constructor
  · intro hnone
    by_contra hne
    rw [filledObject?_properties.mpr ⟨rfl, hne⟩] at hnone
    simp at hnone
  · intro hnil
    rw [Option.eq_none_iff_forall_ne_some]
    intro properties hsome
    obtain ⟨heq, hne⟩ := filledObject?_properties.mp hsome
    exact hne (heq.symm.trans hnil)

theorem resolveByType_ok_iff {hint : Option String} {t : TypeDescriptor} :
    resolveByType resolve hint node = .ok t ↔ TypedAs node (Found resolve) hint t := by
  have hbuild : ∀ d, buildDefinitionWith resolve (withTitle hint node) {} = .ok d ↔
      ∃ fields, List.Forall₂ (FieldFrom (Found resolve) (textsOf (node.get? "required")))
          (propertiesOf node) fields ∧
        d = { name := modelName (withTitle hint node), base := [], fields, overrides := {} } := by
    intro d
    rw [buildDefinitionWith_ok_iff, get?_withTitle (by decide)]
    unfold propertiesOf
    rw [get?_withTitle (by decide)]
  constructor
  · intro h
    unfold resolveByType at h
    split at h
    · rename_i htype
      cases h
      exact .any htype
    · rename_i htype
      split at h
      · rename_i items hitems
        obtain ⟨hitems, hne⟩ := filledObject?_eq_some.mp hitems
        obtain ⟨t, ht, h⟩ := bind_ok_iff.mp h
        cases h
        exact .listOf htype hitems hne ht
      · rename_i hitems
        cases h
        exact .anyList htype hitems
    · rename_i htype
      split at h
      · rename_i properties hproperties
        obtain ⟨d, hd, h⟩ := bind_ok_iff.mp h
        obtain ⟨fields, hfields, rfl⟩ := (hbuild d).mp hd
        cases h
        obtain ⟨hproperties, hne⟩ := filledObject?_properties.mp hproperties
        exact .composite htype (by rwa [hproperties]) hfields
      · rename_i hproperties
        cases h
        exact .mapping htype hproperties
    · rename_i htype
      split at h
      · rename_i kind hkind
        cases h
        exact .scalar htype hkind
      · simp at h
    · simp at h
  · intro h
    unfold resolveByType
    cases h with
    | any htype => rw [htype]
    | @scalar name kind htype hkind =>
      rw [htype]
      split
      · rename_i heq
        simp at heq
      · rename_i heq
        cases heq
        simp [scalarKind?] at hkind
      · rename_i heq
        cases heq
        simp [scalarKind?] at hkind
      · rename_i heq
        cases heq
        rw [hkind]
      · rename_i hno heq
        cases heq
        exact absurd rfl (hno name)
    | anyList htype hitems =>
      simp only [htype, hitems]
    | @listOf items t htype hitems hne ht =>
      have hfilled := filledObject?_eq_some.mpr ⟨hitems, hne⟩
      simp only [htype, hfilled, ht]
      rfl
    | mapping htype hproperties =>
      simp only [htype, hproperties]
    | @composite fields htype hne hfields =>
      have hfilled := filledObject?_properties.mpr ⟨rfl, hne⟩
      simp only [htype, hfilled]
      rw [(hbuild _).mpr ⟨fields, hfields, rfl⟩]
      rfl

theorem TypedAs.visited {typing : Typing} {hint : Option String} {t : TypeDescriptor}
    (h : TypedAs node typing hint t) {child : Members Json}
    (hv : Stop.enter child ∈ typeStops node) : ∃ hint t, typing hint child t := by
  cases h with
  | any htype => simp [typeStops, htype] at hv
  | scalar htype hkind =>
    rw [typeStops_of_scalar htype hkind] at hv
    simp at hv
  | anyList htype hitems =>
    unfold typeStops at hv
    rw [htype] at hv
    simp only at hv
    split at hv
    · rename_i hsome
      simp [hsome, filledObject?] at hitems
    · simp at hv
  | @listOf items t htype hitems hne ht =>
    cases items with
    | nil => exact absurd rfl hne
    | cons m ms =>
      simp only [typeStops, htype, hitems, List.mem_singleton, Stop.enter.injEq] at hv
      exact ⟨hint, t, hv ▸ ht⟩
  | mapping htype hproperties =>
    simp only [typeStops, htype] at hv
    obtain ⟨name, hmem⟩ := mem_propertyStops.mp hv
    have hne : propertiesOf node ≠ [] := List.ne_nil_of_mem hmem
    rw [filledObject?_properties.mpr ⟨rfl, hne⟩] at hproperties
    simp at hproperties
  | composite htype hne hfields =>
    simp only [typeStops, htype] at hv
    obtain ⟨name, hmem⟩ := mem_propertyStops.mp hv
    obtain ⟨field, -, child', base, hchild, hbase, -⟩ := exists_of_forall₂ hfields hmem
    cases hchild
    exact ⟨_, base, hbase⟩

/-- What a step makes of a node whose visited nodes have types. -/
inductive StepsTo (root node : Members Json) (typing : Typing) (hint : Option String) :
    TypeDescriptor → Prop
  | reference {ref : String} {target : Members Json} {t : TypeDescriptor} :
      reference? node = some ref → resolveRef ref root = .ok (.obj target) →
      typing hint target t → StepsTo root node typing hint t
  | union {nodes : List (Members Json)} {types : List TypeDescriptor} :
      reference? node = none →
      listUnder node "anyOf" ++ listUnder node "oneOf" = nodes.map .obj → nodes ≠ [] →
      List.Forall₂ (typing none) nodes types →
      StepsTo root node typing hint (.union types)
  | only {child : Members Json} {t : TypeDescriptor} : reference? node = none →
      listUnder node "anyOf" ++ listUnder node "oneOf" = [] →
      listUnder node "allOf" = [.obj child] → typing none child t →
      StepsTo root node typing hint t
  | intersection {nodes : List (Members Json)} {types : List TypeDescriptor} :
      reference? node = none → listUnder node "anyOf" ++ listUnder node "oneOf" = [] →
      listUnder node "allOf" = nodes.map .obj → 2 ≤ nodes.length →
      List.Forall₂ (typing none) nodes types →
      StepsTo root node typing hint (.intersection types)
  | typed {t : TypeDescriptor} : reference? node = none →
      listUnder node "anyOf" ++ listUnder node "oneOf" = [] → listUnder node "allOf" = [] →
      TypedAs node typing hint t → StepsTo root node typing hint t

theorem resolveOnce_ok_iff {hint : Option String} {t : TypeDescriptor} :
    resolveOnce root resolve hint node = .ok t ↔
      StepsTo root node (Found resolve) hint t := by
  constructor
  · intro h
    unfold resolveOnce at h
    split at h
    · rename_i ref href
      obtain ⟨target, htarget, h⟩ := bind_ok_iff.mp h
      cases target with
      | obj target => exact .reference href htarget h
      | _ => simp at h
    · rename_i href
      obtain ⟨anyOf, hany, h⟩ := bind_ok_iff.mp h
      obtain ⟨oneOf, hone, h⟩ := bind_ok_iff.mp h
      rw [subNodes_ok_iff] at hany hone
      have hentries : listUnder node "anyOf" ++ listUnder node "oneOf" =
          (anyOf ++ oneOf).map .obj := by rw [hany, hone, List.map_append]
      split at h
      · rename_i hempty
        rw [hempty] at hentries
        obtain ⟨parts, hparts, h⟩ := bind_ok_iff.mp h
        rw [subNodes_ok_iff] at hparts
        split at h
        · exact .typed href hentries hparts (resolveByType_ok_iff.mp h)
        · exact .only href hentries hparts h
        · rename_i hnil hsingle
          obtain ⟨types, htypes, h⟩ := bind_ok_iff.mp h
          cases h
          refine .intersection href hentries hparts ?_ (mapM_ok_iff.mp htypes)
          cases parts with
          | nil => exact absurd rfl hnil
          | cons first parts =>
            cases parts with
            | nil => exact absurd rfl (hsingle first)
            | cons second parts => simp
      · rename_i hne
        obtain ⟨types, htypes, h⟩ := bind_ok_iff.mp h
        cases h
        exact .union href hentries (fun he => hne he) (mapM_ok_iff.mp htypes)
  · intro h
    have hok : ∀ {keyword : String} {nodes : List (Members Json)},
        listUnder node keyword = nodes.map .obj → subNodes node keyword = .ok nodes :=
      fun hn => subNodes_ok_iff.mpr hn
    have hno : ∀ {entries entries' : List Json}, entries ++ entries' = [] →
        entries = ([] : List (Members Json)).map .obj ∧
          entries' = ([] : List (Members Json)).map .obj := by
      intro entries entries' he
      exact List.append_eq_nil_iff.mp he
    unfold resolveOnce
    cases h with
    | reference href htarget ht => simp only [href, htarget, bind, Except.bind, ht]
    | @union nodes types href hentries hne htypes =>
      obtain ⟨anyOf, oneOf, rfl, hany, hone⟩ := List.map_eq_append_iff.mp hentries.symm
      simp only [href, hok hany.symm, hok hone.symm, bind, Except.bind]
      have hmapM := mapM_ok_iff.mpr htypes
      generalize anyOf ++ oneOf = variants at hne hmapM
      cases variants with
      | nil => exact absurd rfl hne
      | cons variant variants => simp only [hmapM]; rfl
    | @only child t href hentries hparts ht =>
      have hpart : listUnder node "allOf" = [child].map .obj := hparts
      simp only [href, hok (hno hentries).1, hok (hno hentries).2, hok hpart, bind, Except.bind,
        List.append_nil, ht]
    | @intersection nodes types href hentries hparts hlength htypes =>
      simp only [href, hok (hno hentries).1, hok (hno hentries).2, hok hparts, bind, Except.bind,
        List.append_nil]
      have hmapM := mapM_ok_iff.mpr htypes
      cases nodes with
      | nil => simp at hlength
      | cons first nodes =>
        cases nodes with
        | nil => simp at hlength
        | cons second nodes => simp only [hmapM]; rfl
    | typed href hentries hparts ht =>
      have hparts' : listUnder node "allOf" = ([] : List (Members Json)).map .obj := hparts
      simp only [href, hok (hno hentries).1, hok (hno hentries).2, hok hparts', bind, Except.bind,
        List.append_nil]
      exact resolveByType_ok_iff.mpr ht

/-- Every node that is visited has a type when the step succeeds. -/
theorem StepsTo.visited {typing : Typing} {hint : Option String} {t : TypeDescriptor}
    (h : StepsTo root node typing hint t) {child : Members Json} (hv : Visits root node child) :
    ∃ hint t, typing hint child t := by
  unfold Visits stops at hv
  have hlist : ∀ {nodes : List (Members Json)} {types : List TypeDescriptor},
      List.Forall₂ (typing none) nodes types → child ∈ nodes → ∃ hint t, typing hint child t := by
    intro nodes types htypes hmem
    obtain ⟨t, -, ht⟩ := exists_of_forall₂ htypes hmem
    exact ⟨none, t, ht⟩
  cases h with
  | reference href htarget ht =>
    simp only [href, htarget, stopAt, List.mem_singleton, Stop.enter.injEq] at hv
    exact ⟨hint, _, hv ▸ ht⟩
  | @union nodes types href hentries hne htypes =>
    have hne' : nodes.map Json.obj ≠ [] := fun he => hne (List.map_eq_nil_iff.mp he)
    simp only [href, hentries] at hv
    rw [if_pos hne', mem_entryStops] at hv
    exact hlist htypes (by simpa using hv)
  | only href hentries hparts ht =>
    simp only [href, hentries, hparts] at hv
    rw [if_neg (by simp), if_pos (by simp), mem_entryStops] at hv
    simp only [List.mem_singleton, Json.obj.injEq] at hv
    exact ⟨none, _, hv ▸ ht⟩
  | @intersection nodes types href hentries hparts hlength htypes =>
    have hne' : nodes.map Json.obj ≠ [] := by
      intro he
      rw [List.map_eq_nil_iff.mp he] at hlength
      simp at hlength
    simp only [href, hentries, hparts] at hv
    rw [if_neg (by simp), if_pos hne', mem_entryStops] at hv
    exact hlist htypes (by simpa using hv)
  | typed href hentries hparts ht =>
    simp only [href, hentries, hparts] at hv
    rw [if_neg (by simp), if_neg (by simp)] at hv
    exact ht.visited hv

/-- What holds of the types of the properties may be used for the fields. -/
theorem fields_imp {typing typing' : Typing} {requiredNames : List String} {fields : List Field}
    (h : List.Forall₂ (FieldFrom typing requiredNames) (propertiesOf node) fields)
    (himp : ∀ hint child t, Stop.enter child ∈ propertyStops node → typing hint child t →
      typing' hint child t) :
    List.Forall₂ (FieldFrom typing' requiredNames) (propertiesOf node) fields := by
  refine forall₂_imp_of_mem h ?_
  rintro ⟨name, value⟩ hmem field ⟨child, base, hvalue, hbase, hfield⟩
  cases hvalue
  exact ⟨child, base, rfl, himp _ child base (mem_propertyStops.mpr ⟨name, hmem⟩) hbase, hfield⟩

theorem TypedAs.imp {typing typing' : Typing} {hint : Option String} {t : TypeDescriptor}
    (h : TypedAs node typing hint t)
    (himp : ∀ hint child t, Stop.enter child ∈ typeStops node → typing hint child t →
      typing' hint child t) : TypedAs node typing' hint t := by
  cases h with
  | any htype => exact .any htype
  | scalar htype hkind => exact .scalar htype hkind
  | anyList htype hitems => exact .anyList htype hitems
  | @listOf items t htype hitems hne ht =>
    refine .listOf htype hitems hne (himp hint items t ?_ ht)
    cases items with
    | nil => exact absurd rfl hne
    | cons item rest => simp [typeStops, htype, hitems]
  | mapping htype hproperties => exact .mapping htype hproperties
  | @composite fields htype hne hfields =>
    refine .composite htype hne (fields_imp hfields fun hint child t hstop => himp hint child t ?_)
    simp only [typeStops, htype]
    exact hstop

/-- What holds of the types of the visited nodes may be used for the type of the node. -/
theorem StepsTo.imp {typing typing' : Typing} {hint : Option String} {t : TypeDescriptor}
    (h : StepsTo root node typing hint t)
    (himp : ∀ hint child t, Visits root node child → typing hint child t →
      typing' hint child t) : StepsTo root node typing' hint t := by
  cases h with
  | reference href htarget ht =>
    exact .reference href htarget (himp _ _ _ (visits_target href htarget) ht)
  | union href hentries hne htypes =>
    refine .union href hentries hne (forall₂_imp_of_mem htypes fun child hchild t => ?_)
    apply himp none child t
    apply visits_alternative href
    rw [hentries]
    exact List.mem_map_of_mem hchild
  | @only child t href hempty hparts ht =>
    refine .only href hempty hparts (himp none child t ?_ ht)
    apply visits_part href hempty
    rw [hparts]
    exact List.mem_cons_self
  | intersection href hempty hparts hlength htypes =>
    refine .intersection href hempty hparts hlength
      (forall₂_imp_of_mem htypes fun child hchild t => ?_)
    apply himp none child t
    apply visits_part href hempty
    rw [hparts]
    exact List.mem_map_of_mem hchild
  | typed href hempty hparts ht =>
    refine .typed href hempty hparts (ht.imp fun hint child t hstop => ?_)
    exact himp hint child t (visits_typed href hempty hparts hstop)

end JsonModel
