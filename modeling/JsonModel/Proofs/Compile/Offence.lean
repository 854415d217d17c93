-- Which schemas compile, and what is reported of the others. A visit goes through a schema depth
-- first, properties in their order, and meets every offence on its way. The compiler gives a
-- definition when there is none, and otherwise reports the first one.
import JsonModel.Proofs.Compile.Expansion

namespace JsonModel

/-! ## The offences that a visit meets -/

/-- All offences that a visit of some stops meets, in the order in which it meets them. -/
inductive Visit (root : Members Json) : List Stop → List Offence → Prop
  | done : Visit root [] []
  | offence {o : Offence} {rest : List Stop} {offences : List Offence} :
      Visit root rest offences → Visit root (.offence o :: rest) (o :: offences)
  | enter {node : Members Json} {rest : List Stop} {inside offences : List Offence} :
      Visit root (stops root node) inside → Visit root rest offences →
      Visit root (.enter node :: rest) (inside ++ offences)

/-- A visit of some stops reaches a stop, at any depth. -/
inductive Reached (root : Members Json) : List Stop → Stop → Prop
  | here {ss : List Stop} {stop : Stop} : stop ∈ ss → Reached root ss stop
  | inside {ss : List Stop} {node : Members Json} {stop : Stop} : .enter node ∈ ss →
      Reached root (stops root node) stop → Reached root ss stop

/-- No stop that a visit of a schema reaches is an offence. -/
def WellFormed (root schema : Members Json) : Prop :=
  ∀ stop, Reached root (propertyStops schema) stop → stop.offence? = none

theorem visit_eq_nil_iff {root : Members Json} {ss : List Stop} {offences : List Offence}
    (h : Visit root ss offences) :
    offences = [] ↔ ∀ stop, Reached root ss stop → stop.offence? = none := by
  induction h with
  | done =>
    refine ⟨fun _ stop hstop => ?_, fun _ => rfl⟩
    cases hstop with
    | here hmem => simp at hmem
    | inside hmem _ => simp at hmem
  | @offence o rest offences _ _ =>
    refine ⟨fun h => by simp at h, fun h => ?_⟩
    have hnone := h (.offence o) (.here List.mem_cons_self)
    simp [Stop.offence?] at hnone
  | @enter node rest inside offences _ _ ihinside ihrest =>
    rw [List.append_eq_nil_iff, ihinside, ihrest]
    constructor
    · rintro ⟨hinside, hrest⟩ stop hstop
      cases hstop with
      | here hmem =>
        rcases List.mem_cons.mp hmem with rfl | hmem
        · rfl
        · exact hrest stop (.here hmem)
      | inside hmem hreached =>
        rcases List.mem_cons.mp hmem with heq | hmem
        · cases heq
          exact hinside stop hreached
        · exact hrest stop (.inside hmem hreached)
    · intro h
      refine ⟨fun stop hstop => h stop (.inside List.mem_cons_self hstop), fun stop hstop => ?_⟩
      cases hstop with
      | here hmem => exact h stop (.here (List.mem_cons_of_mem _ hmem))
      | inside hmem hreached => exact h stop (.inside (List.mem_cons_of_mem _ hmem) hreached)

theorem visit_append {root : Members Json} (ss : List Stop) {ss' : List Stop}
    {offences : List Offence} (h : Visit root (ss ++ ss') offences) :
    ∃ first second, offences = first ++ second ∧ Visit root ss first ∧ Visit root ss' second := by
  induction ss generalizing offences with
  | nil => exact ⟨[], offences, rfl, .done, h⟩
  | cons stop ss ih =>
    cases h with
    | offence h =>
      obtain ⟨first, second, rfl, hfirst, hsecond⟩ := ih h
      exact ⟨_ :: first, second, rfl, .offence hfirst, hsecond⟩
    | @enter _ _ inside _ hinside h =>
      obtain ⟨first, second, rfl, hfirst, hsecond⟩ := ih h
      exact ⟨inside ++ first, second, by rw [List.append_assoc], .enter hinside hfirst, hsecond⟩

theorem visit_offences {root : Members Json} {os offences : List Offence}
    (h : Visit root (os.map .offence) offences) : offences = os := by
  induction os generalizing offences with
  | nil =>
    cases h
    rfl
  | cons o os ih =>
    cases h with
    | offence h => rw [ih h]

theorem visit_offence {root : Members Json} {o : Offence} {offences : List Offence}
    (h : Visit root [.offence o] offences) : offences = [o] := by
  cases h with
  | offence hrest =>
    cases hrest
    rfl

theorem visit_enter_iff {root node : Members Json} {offences : List Offence} :
    Visit root [.enter node] offences ↔ Visit root (stops root node) offences := by
  constructor
  · intro h
    cases h with
    | enter hinside hrest =>
      cases hrest
      rwa [List.append_nil]
  · intro h
    rw [← List.append_nil offences]
    exact .enter h .done

/-- A visit of some stops is a visit of each of them in turn. -/
theorem visit_each {root : Members Json} {ss : List Stop} {offences : List Offence}
    (h : Visit root ss offences) :
    ∃ parts, offences = parts.flatten ∧ List.Forall₂ (fun stop => Visit root [stop]) ss parts := by
  induction ss generalizing offences with
  | nil =>
    cases h
    exact ⟨[], rfl, .nil⟩
  | cons stop ss ih =>
    obtain ⟨first, second, rfl, hfirst, hsecond⟩ := visit_append [stop] h
    obtain ⟨parts, rfl, hparts⟩ := ih hsecond
    exact ⟨first :: parts, rfl, .cons hfirst hparts⟩

theorem exists_visit_of_enters {root : Members Json} {ss : List Stop}
    (h : ∀ node, Stop.enter node ∈ ss → ∃ offences, Visit root (stops root node) offences) :
    ∃ offences, Visit root ss offences := by
  induction ss with
  | nil => exact ⟨[], .done⟩
  | cons stop ss ih =>
    obtain ⟨offences, hrest⟩ := ih fun node hnode => h node (List.mem_cons_of_mem _ hnode)
    cases stop with
    | offence o => exact ⟨o :: offences, .offence hrest⟩
    | enter node =>
      obtain ⟨inside, hinside⟩ := h node List.mem_cons_self
      exact ⟨inside ++ offences, .enter hinside hrest⟩

/-- Where every way has an end, the visit has an end. -/
theorem exists_visit {root node : Members Json} (h : FiniteFrom root node) :
    ∃ offences, Visit root (stops root node) offences := by
  induction h with
  | intro node _ ih => exact exists_visit_of_enters ih

/-! ## Reporting the first offence -/

/-- A result stands for some offences: it is a success if there are none, and otherwise reports the
first one. -/
def Reports {α : Type} (result : Except CompileError α) (offences : List Offence) : Prop :=
  match result with
  | .ok _ => offences = []
  | .error e => ∃ o rest, offences = o :: rest ∧ e.offence? = some o

theorem Reports.bind {α β : Type} {x : Except CompileError α} {f : α → Except CompileError β}
    {first second : List Offence} (hx : Reports x first)
    (hf : ∀ a, x = .ok a → Reports (f a) second) : Reports (x >>= f) (first ++ second) := by
  cases x with
  | error e =>
    obtain ⟨o, rest, rfl, ho⟩ := hx
    exact ⟨o, rest ++ second, rfl, ho⟩
  | ok a =>
    have hnil : first = [] := hx
    rw [hnil]
    exact hf a rfl

theorem Reports.map {α β : Type} {x : Except CompileError α} {offences : List Offence}
    (hx : Reports x offences) (f : α → β) : Reports (x >>= fun a => pure (f a)) offences := by
  rw [← List.append_nil offences]
  exact hx.bind fun a _ => rfl

theorem reports_mapM {α β : Type} {f : α → Except CompileError β} {xs : List α}
    {parts : List (List Offence)} (h : List.Forall₂ (fun x => Reports (f x)) xs parts) :
    Reports (xs.mapM f) parts.flatten := by
  induction h with
  | nil => rfl
  | cons hhead _ ih =>
    rw [List.mapM_cons, List.flatten_cons]
    exact hhead.bind fun y _ => ih.map _

theorem reports_of_error {α : Type} {e : CompileError} {o : Offence} (h : e.offence? = some o) :
    Reports (.error e : Except CompileError α) [o] := ⟨o, [], rfl, h⟩

/-! ## One step reports the first offence -/

/-- The offences among the entries of a list. -/
def entryOffences (entries : List Json) : List Offence :=
  (entries.map stopAt).filterMap Stop.offence?

theorem reports_subNodes (node : Members Json) (keyword : String) :
    Reports (subNodes node keyword) (entryOffences (listUnder node keyword)) := by
  rw [subNodes_eq]
  generalize listUnder node keyword = entries
  induction entries with
  | nil => rfl
  | cons entry entries ih =>
    rw [List.mapM_cons]
    have hentry : Reports (entryNode node entry) (entryOffences [entry]) := by
      cases entry with
      | obj _ => rfl
      | _ => exact reports_of_error rfl
    have hsplit : entryOffences (entry :: entries) =
        entryOffences [entry] ++ entryOffences entries :=
      @List.filterMap_append _ _ [stopAt entry] _ _
    rw [hsplit]
    exact hentry.bind fun entry _ => ih.map _

theorem visit_entryStops {root : Members Json} {entries : List Json} {offences : List Offence}
    (h : Visit root (entryStops entries) offences) :
    ∃ rest, offences = entryOffences entries ++ rest ∧
      ∀ nodes : List (Members Json), entries = nodes.map .obj →
        Visit root (nodes.map .enter) rest := by
  obtain ⟨first, rest, rfl, hfirst, hrest⟩ := visit_append _ h
  refine ⟨rest, by rw [visit_offences hfirst, entryOffences], ?_⟩
  rintro nodes rfl
  have hnodes : ((nodes.map Json.obj).map stopAt).filterMap Stop.node? = nodes := by
    induction nodes with
    | nil => rfl
    | cons node nodes ih => simp [stopAt, Stop.node?, Function.comp_def]
  rwa [hnodes] at hrest

variable {root node : Members Json} {resolve : Resolver}

/-- The types of some nodes report the first offence behind these nodes. -/
theorem reports_nodes {nodes : List (Members Json)} {offences : List Offence}
    (h : ∀ child ∈ nodes, ∀ offences, Visit root (stops root child) offences →
      Reports (resolve none child) offences)
    (hvisit : Visit root (nodes.map .enter) offences) :
    Reports (nodes.mapM (resolve none)) offences := by
  obtain ⟨parts, rfl, hparts⟩ := visit_each hvisit
  rw [List.forall₂_map_left_iff] at hparts
  apply reports_mapM
  exact forall₂_imp_of_mem hparts fun child hchild offences hvisit =>
    h child hchild offences (visit_enter_iff.mp hvisit)

/-- The fields of a node report the first offence at and behind its properties. -/
theorem reports_definition {offences : List Offence} {overrides : Overrides}
    (h : ∀ hint child, Stop.enter child ∈ propertyStops node → ∀ offences,
      Visit root (stops root child) offences → Reports (resolve hint child) offences)
    (hvisit : Visit root (propertyStops node) offences) :
    Reports (buildDefinitionWith resolve node overrides) offences := by
  obtain ⟨parts, rfl, hparts⟩ := visit_each hvisit
  unfold propertyStops at hparts
  rw [List.forall₂_map_left_iff] at hparts
  have hproperty : ∀ property ∈ propertiesOf node, ∀ offences,
      Visit root [stopAt property.2] offences →
        Reports (compileProperty resolve node property) offences := by
    rintro ⟨name, value⟩ hmem offences hstop
    cases value with
    | obj child =>
      unfold compileProperty
      simp only [compileFieldWith_eq]
      have hchild := h (some (titleCase name)) child (mem_propertyStops.mpr ⟨name, hmem⟩) offences
        (visit_enter_iff.mp hstop)
      cases hresult : resolve (some (titleCase name)) child with
      | error e => rwa [hresult] at hchild
      | ok base => rwa [hresult] at hchild
    | _ =>
      rw [visit_offence hstop]
      exact reports_of_error rfl
  exact (reports_mapM (forall₂_imp_of_mem hparts hproperty)).map _

theorem scalarKind?_isSome {name : String} (hname : name ∈ nodeTypeNames)
    (harray : name ≠ "array") (hobject : name ≠ "object") : (scalarKind? name).isSome := by
  simp only [nodeTypeNames, List.mem_cons, List.not_mem_nil, or_false] at hname
  rcases hname with rfl | rfl | rfl | rfl | rfl | rfl | rfl
  all_goals first
    | rfl
    | exact absurd rfl harray
    | exact absurd rfl hobject

theorem scalarKind?_eq_none {name : String} (hname : name ∉ nodeTypeNames) :
    scalarKind? name = none := by
  unfold scalarKind?
  split
  case h_6 => rfl
  all_goals exact absurd (by decide) hname

theorem reports_byType {hint : Option String} {offences : List Offence}
    (h : ∀ hint child, Stop.enter child ∈ typeStops node → ∀ offences,
      Visit root (stops root child) offences → Reports (resolve hint child) offences)
    (hvisit : Visit root (typeStops node) offences) :
    Reports (resolveByType resolve hint node) offences := by
  unfold typeStops at h hvisit
  split at hvisit
  · rename_i htype
    cases hvisit
    unfold resolveByType
    rw [htype]
    exact rfl
  · rename_i htype
    unfold resolveByType
    simp only [htype] at h ⊢
    split at hvisit
    · rename_i item rest hitems
      simp only [hitems, filledObject?] at h ⊢
      exact (h hint (item :: rest) List.mem_cons_self _ (visit_enter_iff.mp hvisit)).map _
    · rename_i hempty
      cases hvisit
      have hnone : filledObject? (node.get? "items") = none := by
        rw [Option.eq_none_iff_forall_ne_some]
        intro items hitems
        obtain ⟨hitems, hne⟩ := filledObject?_eq_some.mp hitems
        cases items with
        | nil => exact hne rfl
        | cons item rest => exact hempty item rest hitems
      rw [hnone]
      rfl
  · rename_i htype
    unfold resolveByType
    simp only [htype] at h ⊢
    split
    · have hbuild : Reports (buildDefinitionWith resolve (withTitle hint node) {}) offences := by
        apply reports_definition
        · rwa [propertyStops_withTitle]
        · rwa [propertyStops_withTitle]
      exact hbuild.map _
    · rename_i hempty
      rw [propertyStops, filledObject?_properties_eq_none.mp hempty] at hvisit
      cases hvisit
      rfl
  · rename_i name harray hobject htype
    unfold resolveByType
    simp only [htype]
    split at hvisit
    · rename_i hname
      obtain ⟨kind, hkind⟩ := Option.isSome_iff_exists.mp (scalarKind?_isSome hname harray hobject)
      cases hvisit
      rw [hkind]
      rfl
    · rename_i hname
      rw [visit_offence hvisit, scalarKind?_eq_none hname]
      exact reports_of_error rfl
  · rename_i other _ _ hother htype
    rw [visit_offence hvisit]
    unfold resolveByType
    simp only [htype]
    exact reports_of_error rfl

/-- If the types of the visited nodes report the first offence behind them, then so does the type
of the node. -/
theorem reports_step {hint : Option String} {offences : List Offence}
    (h : ∀ hint child, Visits root node child → ∀ offences,
      Visit root (stops root child) offences → Reports (resolve hint child) offences)
    (hvisit : Visit root (stops root node) offences) :
    Reports (resolveOnce root resolve hint node) offences := by
  unfold Visits stops at h
  unfold stops at hvisit
  unfold resolveOnce
  split at hvisit
  · rename_i ref href
    simp only [href] at h ⊢
    split at hvisit
    · rename_i target htarget
      rw [htarget] at h ⊢
      cases target with
      | obj target => exact h hint target List.mem_cons_self _ (visit_enter_iff.mp hvisit)
      | _ =>
        rw [visit_offence hvisit]
        exact reports_of_error rfl
    · rename_i e he
      obtain ⟨segment, rfl⟩ := resolveRef_error he
      rw [visit_offence hvisit, he]
      exact reports_of_error rfl
  · rename_i href
    simp only [href] at h ⊢
    have hany := reports_subNodes node "anyOf"
    have hone := reports_subNodes node "oneOf"
    have hall := reports_subNodes node "allOf"
    split at hvisit
    · rename_i hne
      obtain ⟨rest, rfl, hnodes⟩ := visit_entryStops hvisit
      rw [if_pos hne] at h
      have hsplit : entryOffences (listUnder node "anyOf" ++ listUnder node "oneOf") =
          entryOffences (listUnder node "anyOf") ++ entryOffences (listUnder node "oneOf") := by
        unfold entryOffences
        rw [List.map_append, List.filterMap_append]
      rw [hsplit, List.append_assoc]
      refine hany.bind fun anyOf hanyOf => hone.bind fun oneOf honeOf => ?_
      have hentries : listUnder node "anyOf" ++ listUnder node "oneOf" =
          (anyOf ++ oneOf).map .obj := by
        rw [subNodes_ok_iff.mp hanyOf, subNodes_ok_iff.mp honeOf, List.map_append]
      have hvariants := hnodes _ hentries
      rw [hentries] at hne h
      generalize anyOf ++ oneOf = variants at *
      cases variants with
      | nil => exact absurd rfl hne
      | cons variant variants =>
        refine Reports.map (reports_nodes (fun child hchild => ?_) hvariants) _
        exact h none child (mem_entryStops.mpr (List.mem_map_of_mem hchild))
    · rename_i hempty
      rw [not_not] at hempty
      obtain ⟨hnoAny, hnoOne⟩ := List.append_eq_nil_iff.mp hempty
      rw [if_neg (not_not.mpr hempty)] at h
      have hnone : ∀ {keyword : String}, listUnder node keyword = [] →
          subNodes node keyword = .ok [] := fun hn => subNodes_ok_iff.mpr hn
      simp only [hnone hnoAny, hnone hnoOne]
      change Reports (subNodes node "allOf" >>= _) _
      split at hvisit
      · rename_i hne
        obtain ⟨rest, rfl, hnodes⟩ := visit_entryStops hvisit
        rw [if_pos hne] at h
        refine hall.bind fun parts hparts => ?_
        have hentries := subNodes_ok_iff.mp hparts
        have hvisits := hnodes parts hentries
        have hchildren : ∀ child ∈ parts, ∀ offences, Visit root (stops root child) offences →
            Reports (resolve none child) offences := by
          intro child hchild
          apply h none child
          rw [hentries, mem_entryStops]
          exact List.mem_map_of_mem hchild
        cases parts with
        | nil => exact absurd hentries hne
        | cons first parts =>
          cases parts with
          | nil => exact hchildren first List.mem_cons_self _ (visit_enter_iff.mp hvisits)
          | cons second parts => exact (reports_nodes hchildren hvisits).map _
      · rename_i hempty
        rw [not_not] at hempty
        rw [if_neg (not_not.mpr hempty)] at h
        rw [hnone hempty]
        exact reports_byType h hvisit

theorem reports_resolveType {root node : Members Json} (hfinite : FiniteFrom root node)
    (hint : Option String) {offences : List Offence}
    (hvisit : Visit root (stops root node) offences) :
    Reports (resolveType node root hint) offences := by
  induction hfinite generalizing hint offences with
  | intro node hchildren ih =>
    rw [resolveType_eq (.intro node hchildren)]
    apply reports_step _ hvisit
    intro hint child hv offences hoffences
    exact ih child hv hint hoffences

/-! ## The laws of compiling -/

/-- A compilation reports the first offence of a visit that goes through the schema. -/
theorem reports_compileSchema {schema : Members Json} {root : Option (Members Json)}
    {overrides : Overrides} (hfinite : FiniteExpansion (root.getD schema) schema)
    {offences : List Offence}
    (hvisit : Visit (root.getD schema) (propertyStops schema) offences) :
    Reports (compileSchema schema root overrides) offences := by
  unfold compileSchema
  rw [buildDefinition_eq hfinite]
  apply reports_definition _ hvisit
  intro hint child hchild offences hoffences
  exact reports_resolveType (hfinite child hchild) hint hoffences

theorem exists_visit_of_schema {root schema : Members Json}
    (hfinite : FiniteExpansion root schema) :
    ∃ offences, Visit root (propertyStops schema) offences :=
  exists_visit_of_enters fun node hnode => exists_visit (hfinite node hnode)

/-- A schema whose references do not lead in a circle compiles exactly when a visit of it reaches no
offence. Otherwise the error is the first offence that the visit meets. -/
theorem a_schema_compiles_unless_its_first_offence_is_reported (schema : Members Json)
    (root : Option (Members Json)) (overrides : Overrides)
    (hfinite : FiniteExpansion (root.getD schema) schema) :
    (∃ offences, Visit (root.getD schema) (propertyStops schema) offences) ∧
      ((∃ d, compileSchema schema root overrides = .ok d) ↔
        WellFormed (root.getD schema) schema) ∧
      ∀ offences, Visit (root.getD schema) (propertyStops schema) offences →
        ∀ e, compileSchema schema root overrides = .error e →
          ∃ o rest, offences = o :: rest ∧ e.offence? = some o := by
  have hreports : ∀ offences, Visit (root.getD schema) (propertyStops schema) offences →
      Reports (compileSchema schema root overrides) offences := fun _ =>
    reports_compileSchema hfinite
  have hexists := exists_visit_of_schema hfinite
  refine ⟨hexists, ?_, fun offences hvisit e he => ?_⟩
  · obtain ⟨offences, hvisit⟩ := hexists
    have hresult := hreports offences hvisit
    unfold WellFormed
    rw [← visit_eq_nil_iff hvisit]
    cases hcompile : compileSchema schema root overrides with
    | ok d =>
      rw [hcompile] at hresult
      exact ⟨fun _ => hresult, fun _ => ⟨d, rfl⟩⟩
    | error e =>
      rw [hcompile] at hresult
      obtain ⟨o, rest, rfl, -⟩ := hresult
      simp
  · have hresult := hreports offences hvisit
    rwa [he] at hresult

/-- Two flaws: behind the reference a type name that is not supported, and then a property that is
no object. -/
def flawedSchema : Members Json :=
  [("properties", .obj
      [("owner", .obj [("$ref", .str "#/$defs/Owner")]), ("tags", .str "none")]),
    ("$defs", .obj
      [("Owner", .obj
        [("type", .str "object"),
          ("properties", .obj [("age", .obj [("type", .str "text")])])])])]

theorem the_first_of_two_flaws_is_reported :
    FiniteExpansion flawedSchema flawedSchema ∧
      ∃ e, compileSchema flawedSchema = .error e ∧
        e.offence? = some (.unsupported (.str "text")) := by
  have hfinite : FiniteExpansion flawedSchema flawedSchema :=
    fun child hchild => finite_of_endsWithin 3 rfl hchild
  have hage : Visit flawedSchema [stopAt (.obj [("type", .str "text")])]
      [.unsupported (.str "text")] := visit_enter_iff.mpr (.offence .done)
  have hvisit : Visit flawedSchema (propertyStops flawedSchema)
      ([.unsupported (.str "text")] ++ [.unsupported (.str "none")]) :=
    .enter (visit_enter_iff.mpr hage) (.offence .done)
  refine ⟨hfinite, ?_⟩
  cases hcompile : compileSchema flawedSchema with
  | ok d => exact absurd hcompile (by rintro ⟨⟩)
  | error e =>
    obtain ⟨-, -, hfirst⟩ :=
      a_schema_compiles_unless_its_first_offence_is_reported flawedSchema none {} hfinite
    obtain ⟨o, rest, hcons, ho⟩ := hfirst _ hvisit e hcompile
    cases hcons
    exact ⟨e, rfl, ho⟩

end JsonModel
