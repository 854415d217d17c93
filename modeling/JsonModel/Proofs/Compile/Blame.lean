-- Whom an error blames. What the compiler does not support, it blames on the node at which it was
-- found, and that node stands in the documents, behind whatever references and lists. The one node
-- that the compiler changes on its way is an object without a title: it is blamed with the title
-- that it was given.
import JsonModel.Proofs.Compile.Offence

namespace JsonModel

/-! ## What stands in a document -/

/-- Something stands in a document: it is the document, or an item or a member of what does. -/
inductive Json.Occurs (document : Json) : Json → Prop
  | self : Occurs document document
  | item {items : List Json} {j : Json} : Occurs document (.arr items) → j ∈ items →
      Occurs document j
  | member {ms : Members Json} {name : String} {j : Json} : Occurs document (.obj ms) →
      (name, j) ∈ ms → Occurs document j

theorem Json.hereditary_occurs (document : Json) : Hereditary document.Occurs where
  item := .item
  member := .member

/-- What a document hands down to its parts holds wherever it is looked for. -/
theorem Hereditary.occurs {P : Json → Prop} (hP : Hereditary P) {document j : Json}
    (h : P document) (hj : document.Occurs j) : P j := by
  induction hj with
  | self => exact h
  | item _ hmem ih => exact hP.item ih hmem
  | member _ hmem ih => exact hP.member ih hmem

theorem Hereditary.or {P Q : Json → Prop} (hP : Hereditary P) (hQ : Hereditary Q) :
    Hereditary fun j => P j ∨ Q j where
  item h hj := h.imp (hP.item · hj) (hQ.item · hj)
  member h hj := h.imp (hP.member · hj) (hQ.member · hj)

/-! ## The place that is blamed -/

/-- A node holds something at a place where it must not stand. -/
inductive OffendsAt (root node : Members Json) (found : Json) : Prop
  | type : node.get? "type" = some found → (∀ name, found = .str name → name ∉ nodeTypeNames) →
      OffendsAt root node found
  | entry {keyword : String} : keyword ∈ ["anyOf", "oneOf", "allOf"] →
      found ∈ listUnder node keyword → found.members? = none → OffendsAt root node found
  | property {name : String} : (name, found) ∈ propertiesOf node → found.members? = none →
      OffendsAt root node found
  | target {ref : String} : reference? node = some ref → resolveRef ref root = .ok found →
      found.members? = none → OffendsAt root node found

/-- The title comes from the name of a property of a node that satisfies `P`. -/
def TitleOfProperty (P : Json → Prop) (title : String) : Prop :=
  ∃ holder name value, P (.obj holder) ∧ (name, value) ∈ propertiesOf holder ∧
    title = titleCase name

/-- Whom an error blames for what was found: a node that satisfies `P` and holds it at a wrong
place, or an object without a title that satisfies `P` and has it among its properties, with a
title that was made of the name of a property. -/
inductive Blamed (P : Json → Prop) (root : Members Json) (found : Json) : Members Json → Prop
  | itself {node : Members Json} : P (.obj node) → OffendsAt root node found →
      Blamed P root found node
  | retitled {node : Members Json} {title name : String} : P (.obj node) →
      node.get? "type" = some (.str "object") →
      node.get? "title" = none ∨ node.get? "title" = some .null →
      (name, found) ∈ propertiesOf node → found.members? = none → TitleOfProperty P title →
      Blamed P root found (node.put "title" (.str title))

/-! ## How a step fails -/

section

variable {root node : Members Json} {resolve : Resolver} {e : CompileError}

theorem subNodes_error {keyword : String} (h : subNodes node keyword = .error e) :
    ∃ found ∈ listUnder node keyword, found.members? = none ∧ e = .unsupported found node := by
  rw [subNodes_eq] at h
  obtain ⟨entry, hmem, hentry⟩ := mapM_error h
  refine ⟨entry, hmem, ?_⟩
  cases entry <;> cases hentry <;> exact ⟨rfl, rfl⟩

/-- A definition cannot be built because of a property: it is no object, or it has no type. -/
theorem buildDefinitionWith_error {overrides : Overrides}
    (h : buildDefinitionWith resolve node overrides = .error e) :
    ∃ name value, (name, value) ∈ propertiesOf node ∧
      (value.members? = none ∧ e = .unsupported value node ∨
        ∃ child, value = .obj child ∧ resolve (some (titleCase name)) child = .error e) := by
  obtain h | ⟨fields, -, h⟩ := bind_error_iff.mp h
  · obtain ⟨⟨name, value⟩, hmem, hproperty⟩ := mapM_error h
    refine ⟨name, value, hmem, ?_⟩
    cases value with
    | obj child =>
      unfold compileProperty at hproperty
      simp only [compileFieldWith_eq, map_error_iff] at hproperty
      exact .inr ⟨child, rfl, hproperty⟩
    | _ =>
      cases hproperty
      exact .inl ⟨rfl, rfl⟩
  · cases h

/-- How the type keyword of a node fails: on a type that is not supported, on the items, or on the
properties, for which the node has its hint as a title. -/
theorem resolveByType_error {hint : Option String} (h : resolveByType resolve hint node = .error e) :
    (∃ found, node.get? "type" = some found ∧ (∀ name, found = .str name → name ∉ nodeTypeNames) ∧
        e = .unsupported found node) ∨
      (∃ items, node.get? "items" = some (.obj items) ∧ resolve hint items = .error e) ∨
      (node.get? "type" = some (.str "object") ∧
        buildDefinitionWith resolve (withTitle hint node) {} = .error e) := by
  unfold resolveByType at h
  split at h
  · cases h
  · split at h
    · rename_i items hitems
      obtain h | ⟨t, -, h⟩ := bind_error_iff.mp h
      · exact .inr (.inl ⟨items, (filledObject?_eq_some.mp hitems).1, h⟩)
      · cases h
    · cases h
  · rename_i htype
    split at h
    · obtain h | ⟨d, -, h⟩ := bind_error_iff.mp h
      · exact .inr (.inr ⟨htype, h⟩)
      · cases h
    · cases h
  · rename_i name harray hobject htype
    split at h
    · cases h
    · rename_i hkind
      cases h
      refine .inl ⟨_, htype, ?_, rfl⟩
      rintro _ ⟨⟩ hmem
      obtain ⟨kind, hsome⟩ := Option.isSome_iff_exists.mp (scalarKind?_isSome hmem harray hobject)
      rw [hkind] at hsome
      cases hsome
  · rename_i found _ _ hother htype
    cases h
    exact .inl ⟨found, htype, fun name hname => absurd hname (hother name), rfl⟩

end

/-! ## One step blames what the next ones blame -/

variable {P : Json → Prop} {root node : Members Json} {found : Json} {resolve : Resolver}

/-- Whatever a resolver does not support at a node that satisfies `P`, it blames as it should. -/
def Blames (P : Json → Prop) (root : Members Json) (resolve : Resolver) : Prop :=
  ∀ ⦃hint : Option String⦄ ⦃node : Members Json⦄ ⦃found : Json⦄ ⦃blamed : Members Json⦄,
    P (.obj node) → (∀ title, hint = some title → TitleOfProperty P title) →
    resolve hint node = .error (.unsupported found blamed) → Blamed P root found blamed

/-- The fields of a node that is blamed itself, or with a title. -/
theorem Blames.definition (h : Blames P root resolve) (hP : Hereditary P) {overrides : Overrides}
    {named blamed : Members Json} (hnode : P (.obj node))
    (hnamed : propertiesOf named = propertiesOf node)
    (hself : ∀ name, (name, found) ∈ propertiesOf node → found.members? = none →
      Blamed P root found named)
    (he : buildDefinitionWith resolve named overrides = .error (.unsupported found blamed)) :
    Blamed P root found blamed := by
  obtain ⟨name, value, hmem, hfail⟩ := buildDefinitionWith_error he
  rw [hnamed] at hmem
  obtain ⟨hvalue, heq⟩ | ⟨child, rfl, hchild⟩ := hfail
  · cases heq
    exact hself name hmem hvalue
  · refine h ((inside_property hmem).inherits hP hnode) ?_ hchild
    rintro _ ⟨⟩
    exact ⟨node, name, _, hnode, hmem, rfl⟩

/-- A node gets a title only where it has none. -/
theorem withTitle_cases (hint : Option String) (node : Members Json) :
    withTitle hint node = node ∨ ∃ title, hint = some title ∧
      (node.get? "title" = none ∨ node.get? "title" = some .null) ∧
      withTitle hint node = node.put "title" (.str title) := by
  unfold withTitle
  split
  · rename_i title htitle
    exact .inr ⟨title, rfl, .inl htitle, rfl⟩
  · rename_i title htitle
    exact .inr ⟨title, rfl, .inr htitle, rfl⟩
  · exact .inl rfl

theorem Blames.byType (h : Blames P root resolve) (hP : Hereditary P) {hint : Option String}
    {blamed : Members Json} (hnode : P (.obj node))
    (hhint : ∀ title, hint = some title → TitleOfProperty P title)
    (he : resolveByType resolve hint node = .error (.unsupported found blamed)) :
    Blamed P root found blamed := by
  obtain ⟨other, htype, hother, heq⟩ | ⟨items, hitems, hfail⟩ | ⟨htype, hfail⟩ :=
    resolveByType_error he
  · cases heq
    exact .itself hnode (.type htype hother)
  · exact h ((inside_member hitems).inherits hP hnode) hhint hfail
  · have hproperties : propertiesOf (withTitle hint node) = propertiesOf node := by
      unfold propertiesOf
      rw [get?_withTitle (by decide)]
    refine h.definition hP hnode hproperties (fun name hmem hvalue => ?_) hfail
    obtain heq | ⟨title, rfl, htitle, heq⟩ := withTitle_cases hint node
    · rw [heq]
      exact .itself hnode (.property hmem hvalue)
    · rw [heq]
      exact .retitled hnode htype htitle hmem hvalue (hhint title rfl)

/-- Nodes of a list have no name of their own. -/
theorem Blames.nodes (h : Blames P root resolve) {nodes : List (Members Json)}
    {blamed : Members Json} (hnodes : ∀ child ∈ nodes, P (.obj child))
    (he : nodes.mapM (resolve none) = .error (.unsupported found blamed)) :
    Blamed P root found blamed := by
  obtain ⟨child, hmem, hfail⟩ := mapM_error he
  exact h (hnodes child hmem) (by simp) hfail

theorem Blames.step (h : Blames P root resolve) (hP : Hereditary P) (hroot : P (.obj root)) :
    Blames P root (resolveOnce root resolve) := by
  intro hint node found blamed hnode hhint he
  unfold resolveOnce at he
  have hentry : ∀ {keyword : String}, keyword ∈ ["anyOf", "oneOf", "allOf"] →
      subNodes node keyword = .error (.unsupported found blamed) → Blamed P root found blamed := by
    intro keyword hkeyword hfail
    obtain ⟨entry, hmem, hentry, heq⟩ := subNodes_error hfail
    cases heq
    exact .itself hnode (.entry hkeyword hmem hentry)
  have hlisted : ∀ {keyword : String} {nodes : List (Members Json)},
      subNodes node keyword = .ok nodes → ∀ child ∈ nodes, P (.obj child) := by
    intro keyword nodes hnodes child hmem
    have hlist := subNodes_ok_iff.mp hnodes
    exact (inside_entry (hlist ▸ List.mem_map_of_mem hmem)).inherits hP hnode
  split at he
  · rename_i ref href
    obtain he | ⟨target, htarget, he⟩ := bind_error_iff.mp he
    · obtain ⟨segment, hsegment⟩ := resolveRef_error he
      cases hsegment
    · cases target with
      | obj target => exact h (hP.target hroot htarget) hhint he
      | _ =>
        cases he
        exact .itself hnode (.target href htarget rfl)
  · obtain he | ⟨anyOf, hany, he⟩ := bind_error_iff.mp he
    · exact hentry (by simp) he
    obtain he | ⟨oneOf, hone, he⟩ := bind_error_iff.mp he
    · exact hentry (by simp) he
    split at he
    · obtain he | ⟨parts, hparts, he⟩ := bind_error_iff.mp he
      · exact hentry (by simp) he
      split at he
      · exact h.byType hP hnode hhint he
      · exact h (hlisted hparts _ List.mem_cons_self) (by simp) he
      · obtain he | ⟨types, -, he⟩ := bind_error_iff.mp he
        · exact h.nodes (hlisted hparts) he
        · cases he
    · obtain he | ⟨types, -, he⟩ := bind_error_iff.mp he
      · refine h.nodes (fun child hmem => ?_) he
        obtain hmem | hmem := List.mem_append.mp hmem
        · exact hlisted hany child hmem
        · exact hlisted hone child hmem
      · cases he

/-! ## A whole compilation -/

/-- By induction on the fuel: what has no end is not blamed on any node. -/
theorem blames_resolveTypeWith (hP : Hereditary P) (hroot : P (.obj root)) (fuel : Nat)
    {scope : Scope} (hscope : scope.root = root) :
    Blames P root (resolveTypeWith fuel scope) := by
  induction fuel generalizing scope with
  | zero =>
    intro hint node found blamed _ _ he
    cases he
  | succ fuel ih =>
    intro hint node found blamed hnode hhint he
    by_cases hclosed : scope.Closed node
    · rw [resolveTypeWith_succ hclosed, hscope] at he
      exact (ih ((scope.enter_root node).trans hscope)).step hP hroot hnode hhint he
    · unfold Scope.Closed at hclosed
      push Not at hclosed
      obtain ⟨ref, href, hopened⟩ := hclosed
      unfold resolveTypeWith at he
      rw [href] at he
      simp [hopened] at he

/-- What a schema holds that is not supported is blamed on a node that stands in the schema or in
the root document, and holds it at a wrong place. Where that node is an object without a title and
what is wrong is one of its properties, the error may show it with a title. -/
theorem what_is_not_supported_is_blamed_on_a_node_of_the_documents (schema : Members Json)
    (root : Option (Members Json)) (overrides : Overrides) (found : Json) (blamed : Members Json)
    (h : compileSchema schema root overrides = .error (.unsupported found blamed)) :
    Blamed (fun j => (Json.obj schema).Occurs j ∨ (Json.obj (root.getD schema)).Occurs j)
      (root.getD schema) found blamed := by
  have hP := (Json.hereditary_occurs (.obj schema)).or
    (Json.hereditary_occurs (.obj (root.getD schema)))
  have hscope : ({ root := root.getD schema } : Scope).root = root.getD schema := rfl
  have hresolve :=
    blames_resolveTypeWith hP (.inr .self) (enoughFuel schema (root.getD schema)) hscope
  exact hresolve.definition hP (.inl .self) rfl
    (fun name hmem hvalue => .itself (.inl .self) (.property hmem hvalue)) h

theorem the_age_of_an_owner_is_blamed :
    compileSchema flawedSchema = .error (.unsupported (.str "text") [("type", .str "text")]) ∧
      Blamed (fun j => (Json.obj flawedSchema).Occurs j ∨ (Json.obj flawedSchema).Occurs j)
        flawedSchema (.str "text") [("type", .str "text")] :=
  ⟨rfl, what_is_not_supported_is_blamed_on_a_node_of_the_documents flawedSchema none {} _ _ rfl⟩

/-- An owner without a title, one of whose properties is no node. -/
def untitledOwner : Members Json :=
  [("type", .str "object"), ("properties", .obj [("age", .num (.ofNat 3))])]

/-- The title is not in the document: no node of it is what the error shows. -/
theorem an_owner_is_blamed_under_a_title_of_no_document :
    ∃ blamed, compileSchema [("properties", .obj [("owner", .obj untitledOwner)])] =
        .error (.unsupported (.num (.ofNat 3)) blamed) ∧
      blamed = untitledOwner ++ [("title", .str "Owner")] ∧
      ¬ (Json.obj [("properties", .obj [("owner", .obj untitledOwner)])]).Occurs (.obj blamed) := by
  refine ⟨_, rfl, rfl, fun hoccurs => ?_⟩
  -- no object of the document names a title
  have huntitled := Json.hereditary_every.occurs (P := Json.Every (fun _ => True) ("title" ∉ ·))
    (by simp [Json.Every, Json.EveryMember, untitledOwner]) hoccurs
  exact (Json.every_obj.mp huntitled).1 (by decide)

end JsonModel
