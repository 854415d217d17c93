-- What a type makes of data that it accepts. A list is made item by item, a union makes what the
-- first variant that accepts makes, an intersection makes the least value that holds what its
-- members make, and a model makes an object that has all of its fields.
import JsonModel.Proofs.Check.Join
import JsonModel.Proofs.Check.Result
import JsonModel.Proofs.Descriptor

namespace JsonModel

/-! ## Making a value -/

/-- A check finds nothing wrong, and ends with a value. -/
def Yields (r : Except Clash Outcome) (v : Value) : Prop :=
  ∃ o, r = .ok o ∧ o.accepted = true ∧ o.value = v

/-- A type accepts some data, and makes a value of it. -/
def TypeDescriptor.Makes (places : Places) (t : TypeDescriptor) (limits : Limits) (d : Json)
    (v : Value) : Prop :=
  Yields (t.check places limits (.ofJson d)) v

/-- A model accepts some data, and makes a value of it. -/
def Definition.Makes (places : Places) (m : Definition) (d : Json) (v : Value) : Prop :=
  Yields (m.check places (.ofJson d)) v

/-- A type that keeps texts, and whose models are as they are built. -/
abbrev TypeDescriptor.Plain (t : TypeDescriptor) : Prop :=
  t.Every Semantic.Keeps Definition.Plain

/-- A model without validators that extends nothing, whose fields have names of their own and types
that are plain. -/
structure Definition.Regular (m : Definition) : Prop where
  built : m.Built m.overrides
  validators : m.overrides.validators = []
  own : m.OwnNames
  fields : ∀ f ∈ m.fields, f.type.Plain

theorem regular_of_plain {m : Definition} (h : (TypeDescriptor.composite m).Plain) :
    m.Regular ∧ m.overrides = {} := by
  obtain ⟨name, base, fields, overrides⟩ := m
  obtain ⟨⟨hbuilt, hown⟩, -, hfields⟩ := h
  obtain rfl : overrides = {} := hbuilt.overrides_eq
  exact ⟨⟨hbuilt, rfl, hown, Field.everyOf_iff.mp hfields⟩, rfl⟩

theorem regular_of_compile {schema : Members Json} {root : Option (Members Json)}
    {overrides : Overrides} {m : Definition} (h : compileSchema schema root overrides = .ok m)
    (hschema : (Json.obj schema).Distinct) (hroot : ∀ r ∈ root, (Json.obj r).Distinct)
    (hpreserving : m.Preserving) (hvalidators : overrides.validators = []) : m.Regular := by
  obtain ⟨hbuilt, hplain⟩ := plain_of_compile h hschema hroot hpreserving
  have hoverrides := hbuilt.overrides_eq
  refine ⟨by rwa [hoverrides], by rw [hoverrides, hvalidators], hpreserving.own, ?_⟩
  obtain ⟨_, _, fields, _⟩ := m
  exact Field.everyOf_iff.mp hplain.2

variable {places : Places} {limits : Limits} {d : Json} {v : Value}

theorem yields_ok_iff {o : Outcome} : Yields (.ok o) v ↔ o.accepted = true ∧ o.value = v := by
  simp [Yields]

theorem Yields.unique {r : Except Clash Outcome} {w : Value} (h : Yields r v) (h' : Yields r w) :
    v = w := by
  obtain ⟨o, rfl, -, rfl⟩ := h
  obtain ⟨o', heq, -, rfl⟩ := h'
  cases heq
  rfl

theorem exists_yields_iff {r : Except Clash Outcome} : (∃ v, Yields r v) ↔ accepting r = true := by
  cases r with
  | error e => simp [Yields, accepting]
  | ok o => simp [yields_ok_iff, accepting]

theorem makes_iff_safeParse {m : Definition} :
    m.Makes places d v ↔ m.safeParse places (.ofJson d) = .ok (.success v) := by
  unfold Definition.Makes Definition.safeParse
  rw [map_ok_iff]
  exact exists_congr fun o => and_congr_right fun _ => toResult_eq_success.symm

/-- A plain type makes a value of the data that it accepts, and of no other. -/
theorem exists_makes_iff {t : TypeDescriptor} (h : t.Plain) (hd : d.IsData) :
    (∃ v, t.Makes places limits d v) ↔ t.accepts places limits d = true := by
  unfold TypeDescriptor.Makes
  rw [exists_yields_iff, (agreeing t h limits d hd).accepting]

/-! ## Types without parts -/

theorem makes_primitive {kind : Primitive}
    (h : (TypeDescriptor.primitive kind).Makes places limits d v) : v = .ofJson d := by
  obtain ⟨o, ho, -, rfl⟩ := h
  cases ho
  exact kind.check_value _ _

theorem makes_semantic {kind : Semantic} (hkeeps : kind.Keeps)
    (h : (TypeDescriptor.semantic kind).Makes places limits d v) : v = .ofJson d := by
  obtain ⟨o, ho, -, rfl⟩ := h
  cases ho
  exact kind.check_value hkeeps _ _ _

theorem makes_mapping (h : TypeDescriptor.mapping.Makes places limits d v) : ∃ ms : Members Json,
    d = .obj ms ∧ v = .obj .made (Members.erase reservedName (Value.ofMembers ms)) := by
  obtain ⟨o, ho, haccepted, rfl⟩ := h
  cases d with
  | obj ms =>
    cases ho
    exact ⟨ms, rfl, rfl⟩
  | _ =>
    cases ho
    simp [Outcome.accepted, wrongType, Outcome.reject] at haccepted

theorem makes_anyList (h : TypeDescriptor.anyList.Makes places limits d v) : ∃ items,
    d = .arr items ∧ v = .arr .made (items.map Value.ofJson) := by
  obtain ⟨o, ho, haccepted, rfl⟩ := h
  cases d with
  | arr items =>
    cases ho
    exact ⟨items, rfl, by rw [← Value.ofItems_eq_map]; rfl⟩
  | _ =>
    cases ho
    simp [Outcome.accepted, wrongType, Outcome.reject] at haccepted

/-! ## Lists -/

/-- A list is made item by item. -/
theorem makes_listOf {t : TypeDescriptor}
    (h : (TypeDescriptor.listOf t).Makes places limits d v) : ∃ items values,
      d = .arr items ∧ v = .arr .made values ∧
        List.Forall₂ (t.Makes places {}) items values := by
  obtain ⟨o, ho, haccepted, rfl⟩ := h
  cases d with
  | arr items =>
    unfold Value.ofJson TypeDescriptor.check at ho
    rw [Value.ofItems_eq_map] at ho
    obtain ⟨outcomes, houtcomes, ho⟩ := bind_ok_iff.mp ho
    cases ho
    refine ⟨items, outcomes.map Outcome.value, rfl, rfl, ?_⟩
    have hall := (itemIssues_isEmpty outcomes 0).symm.trans haccepted
    rw [mapM_ok_iff, List.forall₂_map_left_iff] at houtcomes
    rw [List.forall₂_map_right_iff]
    exact forall₂_and_right houtcomes (List.all_eq_true.mp hall) fun item outcome hcheck hclean =>
      ⟨outcome, hcheck, hclean, rfl⟩
  | _ =>
    cases ho
    simp [Outcome.accepted, wrongType, Outcome.reject] at haccepted

/-! ## Unions -/

/-- The first variant that accepts is the one that wins. -/
theorem checkVariants_first {ts : List TypeDescriptor} (hts : ∀ t ∈ ts, t.Plain) (hd : d.IsData)
    {t : TypeDescriptor} (hfirst : ts.find? (fun t => t.accepts places limits d) = some t) :
    ∃ o, t.check places limits (.ofJson d) = .ok o ∧ o.accepted = true ∧
      TypeDescriptor.checkVariants places ts limits (.ofJson d) = .ok (.inl o) := by
  induction ts with
  | nil => simp at hfirst
  | cons first rest ih =>
    obtain ⟨⟨o, ho, -, -⟩, haccepting⟩ :=
      @agreeing places first (hts first List.mem_cons_self) limits d hd
    rw [ho] at haccepting
    unfold TypeDescriptor.checkVariants
    rw [ho]
    rw [List.find?_cons] at hfirst
    cases haccepted : o.accepted with
    | true =>
      rw [← haccepting, accepting, haccepted] at hfirst
      cases hfirst
      exact ⟨o, ho, haccepted, by simp [bind, Except.bind, haccepted, pure, Except.pure]⟩
    | false =>
      rw [← haccepting, accepting, haccepted] at hfirst
      obtain ⟨winner, hwinner, hwins, hcheck⟩ :=
        ih (fun t ht => hts t (List.mem_cons_of_mem _ ht)) hfirst
      exact ⟨winner, hwinner, hwins,
        by simp [bind, Except.bind, haccepted, hcheck, pure, Except.pure]⟩

/-- A union makes what the first variant that accepts makes. -/
theorem makes_union {ts : List TypeDescriptor} (hts : (TypeDescriptor.union ts).Plain)
    (hd : d.IsData) (h : (TypeDescriptor.union ts).Makes places limits d v) :
    ∃ t, ts.find? (fun t => t.accepts places limits d) = some t ∧ t.Makes places limits d v := by
  have haccepts := (exists_makes_iff hts hd).mp ⟨v, h⟩
  have hall : ∀ t ∈ ts, t.Plain := TypeDescriptor.everyOf_iff.mp hts
  unfold TypeDescriptor.accepts at haccepts
  rw [anyAccepts_eq_any, List.any_eq_true, ← List.find?_isSome] at haccepts
  obtain ⟨t, ht⟩ := Option.isSome_iff_exists.mp haccepts
  refine ⟨t, ht, ?_⟩
  by_cases hone : ∃ only, ts = [only]
  · obtain ⟨only, rfl⟩ := hone
    obtain rfl := List.mem_singleton.mp (List.mem_of_find?_eq_some ht)
    exact h
  · obtain ⟨o, ho, haccepted, hwins⟩ := checkVariants_first hall hd ht
    unfold TypeDescriptor.Makes at h
    rw [union_check (fun only honly => hone ⟨only, honly⟩), hwins] at h
    obtain ⟨-, rfl⟩ := yields_ok_iff.mp h
    exact ⟨o, ho, haccepted, rfl⟩

/-! ## Intersections -/

theorem both_issues {input : Value} {left right o : Outcome} (hleft : left.Plain)
    (hright : right.Plain) (h : left.both input right = .ok o) :
    o.issues = left.issues ++ right.issues :=
  (issues_of_both h).trans (joinIssues_of_plain hleft hright)

/-- Two outcomes that are accepted together are accepted each, and their values are joined. -/
theorem both_accepted {input : Value} {left right o : Outcome} (hleft : left.Plain)
    (hright : right.Plain) (h : left.both input right = .ok o) (haccepted : o.accepted = true) :
    left.accepted = true ∧ right.accepted = true ∧ left.value.join right.value = .ok o.value := by
  unfold Outcome.accepted at haccepted
  rw [both_issues hleft hright h, issues_append, Bool.and_eq_true] at haccepted
  obtain ⟨hcleanLeft, hcleanRight⟩ := haccepted
  refine ⟨hcleanLeft, hcleanRight, ?_⟩
  unfold Outcome.both at h
  simp only at h
  rw [joinIssues_of_plain hleft hright, List.isEmpty_iff.mp hcleanLeft,
    List.isEmpty_iff.mp hcleanRight] at h
  simp only [List.append_nil, List.any_nil, Bool.false_eq_true, if_false] at h
  split at h
  · rename_i value hjoin
    cases h
    exact hjoin
  · simp at h

theorem setOf_mem_cons (v : Value) (vs : List Value) :
    {w | w ∈ v :: vs} = insert v {w | w ∈ vs} := by
  ext w
  simp

/-- Members that accept are joined with what was made so far, in the least value that holds all. -/
theorem checkMembers_makes {ts : List TypeDescriptor} (hts : ∀ t ∈ ts, t.Plain) (hd : d.IsData)
    (hderives : ∀ t ∈ ts, ∀ v, t.Makes places {} d v → Derives d v) {sofar o : Outcome}
    (hsofar : sofar.accepted = true → Derives d sofar.value) (hplain : sofar.Plain)
    (h : TypeDescriptor.checkMembers places sofar ts (.ofJson d) = .ok o)
    (haccepted : o.accepted = true) :
    sofar.accepted = true ∧ Derives d o.value ∧
      ∃ vs, List.Forall₂ (fun t v => t.Makes places {} d v) ts vs ∧
        IsLUB (insert sofar.value {w | w ∈ vs}) o.value := by
  induction ts generalizing sofar with
  | nil =>
    unfold TypeDescriptor.checkMembers at h
    cases h
    exact ⟨haccepted, hsofar haccepted, [], .nil, by simp⟩
  | cons t ts ih =>
    unfold TypeDescriptor.checkMembers at h
    obtain ⟨right, hright, h⟩ := bind_ok_iff.mp h
    obtain ⟨both, hboth, h⟩ := bind_ok_iff.mp h
    obtain ⟨⟨right', hright', -, hplainRight⟩, -⟩ :=
      @agreeing places t (hts t List.mem_cons_self) {} d hd
    rw [hright] at hright'
    cases hright'
    have hplainBoth : both.Plain := by
      intro issue hissue
      rw [both_issues hplain hplainRight hboth] at hissue
      rcases List.mem_append.mp hissue with hissue | hissue
      · exact hplain issue hissue
      · exact hplainRight issue hissue
    have hmakes : right.accepted = true → t.Makes places {} d right.value :=
      fun hclean => ⟨right, hright, hclean, rfl⟩
    have hjoin : both.accepted = true → sofar.accepted = true ∧ right.accepted = true ∧
        Derives d both.value ∧ IsLUB {sofar.value, right.value} both.value := by
      intro hclean
      obtain ⟨hcleanLeft, hcleanRight, hvalue⟩ :=
        both_accepted hplain hplainRight hboth hclean
      have hderivesRight := hderives t List.mem_cons_self _ (hmakes hcleanRight)
      exact ⟨hcleanLeft, hcleanRight, isLUB_join (hsofar hcleanLeft) hderivesRight hvalue⟩
    obtain ⟨hclean, hderivesO, vs, hvs, hlub⟩ := ih (fun u hu => hts u (List.mem_cons_of_mem _ hu))
      (fun u hu => hderives u (List.mem_cons_of_mem _ hu))
      (fun hclean => (hjoin hclean).2.2.1) hplainBoth h
    obtain ⟨hcleanLeft, hcleanRight, -, hpair⟩ := hjoin hclean
    refine ⟨hcleanLeft, hderivesO, right.value :: vs, .cons (hmakes hcleanRight) hvs, ?_⟩
    rw [setOf_mem_cons]
    exact isLUB_insert hpair hlub

/-- An intersection makes the least value that holds what all of its members make. -/
theorem makes_intersection {t : TypeDescriptor} {ts : List TypeDescriptor}
    (hts : ∀ u ∈ t :: ts, u.Plain) (hd : d.IsData)
    (hderives : ∀ u ∈ t :: ts, ∀ v, u.Makes places {} d v → Derives d v)
    (h : (TypeDescriptor.intersection (t :: ts)).Makes places limits d v) :
    Derives d v ∧ ∃ vs, List.Forall₂ (fun u v => u.Makes places {} d v) (t :: ts) vs ∧
      IsLUB {w | w ∈ vs} v := by
  obtain ⟨o, ho, haccepted, rfl⟩ := h
  unfold TypeDescriptor.check at ho
  obtain ⟨first, hfirst, ho⟩ := bind_ok_iff.mp ho
  obtain ⟨⟨first', hfirst', -, hplain⟩, -⟩ :=
    @agreeing places t (hts t List.mem_cons_self) {} d hd
  rw [hfirst] at hfirst'
  cases hfirst'
  have hmakes : first.accepted = true → t.Makes places {} d first.value :=
    fun hclean => ⟨first, hfirst, hclean, rfl⟩
  obtain ⟨hclean, hderivesO, vs, hvs, hlub⟩ :=
    checkMembers_makes (fun u hu => hts u (List.mem_cons_of_mem _ hu)) hd
      (fun u hu => hderives u (List.mem_cons_of_mem _ hu))
      (fun hclean => hderives t List.mem_cons_self _ (hmakes hclean)) hplain ho haccepted
  refine ⟨hderivesO, first.value :: vs, .cons (hmakes hclean) hvs, ?_⟩
  rw [setOf_mem_cons]
  exact hlub

/-! ## Models -/

/-- What a field makes of the members of an object: a value of the member under its name, or null if
there is none. -/
def Field.Makes (places : Places) (f : Field) (ms : Members Json) (v : Value) : Prop :=
  (∀ d, ms.get? f.name = some d → f.type.Makes places f.limits d v) ∧
    (ms.get? f.name = none → f.required = false ∧ v = .null)

/-- The object that a model makes of some members has what its fields make, and no more, unless
undeclared members are kept. Where they are forbidden, there are none. -/
structure Definition.Fills (places : Places) (m : Definition) (ms : Members Json)
    (values : Members Value) : Prop where
  nodup : (Members.names values).Nodup
  declared : ∀ f ∈ m.fields, ∃ v, values.get? f.name = some v ∧ f.Makes places ms v
  undeclared : ∀ name, name ∉ m.fields.map Field.name → values.get? name =
    if m.overrides.extra = .allow ∧ name ≠ reservedName then (ms.get? name).map Value.ofJson
    else none
  forbidden : m.overrides.extra = .forbid →
    ∀ name ∈ Members.names ms, name ≠ reservedName → name ∈ m.fields.map Field.name

/-- The names of undeclared members of the data. -/
theorem undeclared_ofMembers_eq_nil {declared : List String} {ms : Members Json} :
    undeclared declared (Value.ofMembers ms) = [] ↔
      ∀ name ∈ Members.names ms, name ≠ reservedName → name ∈ declared := by
  unfold undeclared
  rw [List.filter_eq_nil_iff, Value.ofMembers_eq_map]
  simp only [Members.names, List.mem_map, Bool.and_eq_true, bne_iff_ne, Bool.not_eq_true',
    List.contains_eq_mem, decide_eq_false_iff_not, not_and, not_not]
  constructor
  · rintro h _ ⟨m, hm, rfl⟩
    exact h _ ⟨m, hm, rfl⟩
  · rintro h _ ⟨m, hm, rfl⟩
    exact h _ ⟨m, hm, rfl⟩

theorem Definition.Regular.agreeing {m : Definition} (h : m.Regular) :
    ∀ f ∈ m.fields, f.Agreeing places :=
  agreeing_fields m.fields (Field.everyOf_iff.mpr h.fields)

/-- What a field adds without an issue is what it makes. -/
theorem contribute_makes {f : Field} (hown : f.name ∉ inheritedNames)
    (hdefault : f.defaultsToNull = !f.required) (hagreeing : f.Agreeing places)
    {ms : Members Json} {c : Contribution}
    (h : f.contribute places (.ofJson (.obj ms)) = .ok c) (hclean : c.issues = []) :
    ∃ v, c.value = some v ∧ f.Makes places ms v := by
  have hread := read?_ofJson hown ms
  cases hget : ms.get? f.name with
  | some d =>
    rw [hget] at hread
    rw [contribute_found hread (ofJson_ne_undefined d)] at h
    obtain ⟨o, ho, rfl⟩ := map_ok_iff.mp h
    refine ⟨o.value, rfl, fun d' hd' => ?_, by simp [hget]⟩
    rw [hget] at hd'
    cases hd'
    exact ⟨o, ho, List.isEmpty_iff.mpr (List.map_eq_nil_iff.mp hclean), rfl⟩
  | none =>
    rw [hget] at hread
    cases hrequired : f.required with
    | false =>
      rw [contribute_default hread (by rw [hdefault, hrequired]; rfl)] at h
      cases h
      exact ⟨.null, rfl, by simp [hget], fun _ => ⟨hrequired, rfl⟩⟩
    | true =>
      obtain ⟨o, ho⟩ := hagreeing.2
      obtain ⟨issue, issues, hc, -⟩ :=
        contribute_missing hread (by rw [hdefault, hrequired]; rfl) ho
      rw [hc] at h
      cases h
      simp at hclean

/-- The check of an object by a regular model, field by field. -/
theorem check_regular {m : Definition} (h : m.Regular) {ms : Members Json}
    (hdata : (Json.obj ms).IsData) :
    ∃ cs, m.check places (.ofJson (.obj ms)) =
        .ok (assemble m.overrides.extra (Value.ofMembers ms) cs) ∧
      (cs.map Prod.fst).Nodup ∧ (∀ name, name ∈ cs.map Prod.fst ↔ name ∈ m.fields.map Field.name) ∧
      ∀ name c, (name, c) ∈ cs ↔
        ∃ f ∈ m.fields, f.name = name ∧ f.contribute places (.ofJson (.obj ms)) = .ok c := by
  obtain ⟨cs, hcs, hmem⟩ :=
    fields_in_order h.built.names_nodup h.built.default_iff h.own h.agreeing hdata
  refine ⟨cs, check_eq_assemble h.built.no_base h.validators hcs, (inOrder_names hcs).1,
    fun name => ⟨fun hname => ?_, fun hname => ?_⟩, hmem⟩
  · obtain ⟨⟨_, c⟩, hc, rfl⟩ := List.mem_map.mp hname
    obtain ⟨f, hf, rfl, -⟩ := (hmem _ c).mp hc
    exact List.mem_map_of_mem hf
  · obtain ⟨f, hf, rfl⟩ := List.mem_map.mp hname
    obtain ⟨c, hc, -⟩ :=
      contribute_agrees (h.own f hf) (h.built.default_iff f hf) (h.agreeing f hf) hdata
    exact List.mem_map_of_mem ((hmem _ c).mpr ⟨f, hf, rfl, hc⟩)

/-- A model accepts an object exactly if its fields do, and no undeclared member is forbidden. -/
theorem exists_makes_model_iff {m : Definition} (h : m.Regular) (hd : d.IsData) :
    (∃ v, m.Makes places d v) ↔ ∃ ms : Members Json, d = .obj ms ∧
      (∀ f ∈ m.fields, f.accepts places ms = true) ∧
      (m.overrides.extra = .forbid →
        ∀ name ∈ Members.names ms, name ≠ reservedName → name ∈ m.fields.map Field.name) := by
  unfold Definition.Makes
  rw [exists_yields_iff]
  cases hms : d.members? with
  | none =>
    rw [(check_noObject hms).1]
    simp only [accepting, wrongType, Outcome.reject, Outcome.accepted, List.isEmpty_cons,
      Bool.false_eq_true, false_iff]
    rintro ⟨ms, rfl, -⟩
    simp [Json.members?] at hms
  | some ms =>
    obtain rfl := Json.eq_obj_of_members? hms
    obtain ⟨cs, hcheck, -, hnames, hmem⟩ := @check_regular places m h ms hd
    have hfields := added_clean_iff (fun f hf => contribute_agrees (h.own f hf)
      (h.built.default_iff f hf) (h.agreeing f hf) hd) hmem
    rw [hcheck, accepting, assemble_accepted_iff, hfields, undeclared_ofMembers_eq_nil]
    simp only [hnames, Json.obj.injEq, exists_eq_left']

/-- What a model makes of an object has what its fields make. -/
theorem makes_model {m : Definition} (h : m.Regular) (hd : d.IsData) (hm : m.Makes places d v) :
    ∃ (ms : Members Json) (values : Members Value), d = .obj ms ∧ v = .obj .made values ∧
      m.Fills places ms values := by
  obtain ⟨ms, rfl, -, hforbidden⟩ := (exists_makes_model_iff h hd).mp ⟨v, hm⟩
  obtain ⟨cs, hcheck, hnodup, hnames, hmem⟩ := @check_regular places m h ms hd
  unfold Definition.Makes at hm
  rw [hcheck, yields_ok_iff, assemble_accepted_iff] at hm
  obtain ⟨⟨hclean, -⟩, rfl⟩ := hm
  have hms : (Members.names (Value.ofMembers ms)).Nodup := by
    rw [Value.names_ofMembers]
    exact (Json.every_obj.mp hd).1
  obtain ⟨values, hvalues, hnodupValues, hget⟩ := get?_assembled m.overrides.extra hms hnodup
  refine ⟨ms, values, rfl, hvalues, hnodupValues, fun f hf => ?_, fun name hname => ?_, hforbidden⟩
  · obtain ⟨c, hc, -⟩ :=
      contribute_agrees (h.own f hf) (h.built.default_iff f hf) (h.agreeing f hf) hd
    have hcs := (hmem _ c).mpr ⟨f, hf, rfl, hc⟩
    obtain ⟨v, hv, hmakes⟩ := contribute_makes (h.own f hf) (h.built.default_iff f hf)
      (h.agreeing f hf) hc (hclean _ c hcs)
    refine ⟨v, ?_, hmakes⟩
    rw [hget, Members.get?_of_mem hnodup hcs]
    simp [hv]
  · have hnone : Members.get? name cs = none := by
      rw [Members.get?_eq_none_iff]
      exact fun hmem => hname ((hnames name).mp hmem)
    rw [hget, hnone, Value.get?_ofMembers]
    simp only [Option.bind_none, Option.none_or, hnames, hname, not_false_eq_true, and_true]

/-! ## Everything that is made -/

theorem derives_field {f : Field} {ms : Members Json} (hdata : (Json.obj ms).IsData)
    (hderives : ∀ d, d.IsData → ∀ v, f.type.Makes places f.limits d v → Derives d v)
    (h : f.Makes places ms v) : DerivesAt ms f.name v :=
  ⟨fun d hd => hderives d (Json.hereditary_every.found hdata hd) v (h.1 d hd),
    fun hnone => (h.2 hnone).2⟩

/-- What a model makes of some data is made of that data, if this holds of its fields. -/
theorem derives_model {m : Definition} (h : m.Regular) (hd : d.IsData)
    (hderives : ∀ f ∈ m.fields, ∀ d, d.IsData → ∀ v, f.type.Makes places f.limits d v → Derives d v)
    (hm : m.Makes places d v) : Derives d v := by
  obtain ⟨ms, values, rfl, rfl, hfills⟩ := makes_model h hd hm
  refine derives_obj_iff.mpr ⟨by simp, hfills.nodup, fun name value hvalue => ?_⟩
  by_cases hname : name ∈ m.fields.map Field.name
  · obtain ⟨f, hf, rfl⟩ := List.mem_map.mp hname
    obtain ⟨v, hv, hmakes⟩ := hfills.declared f hf
    rw [hvalue] at hv
    cases hv
    exact derives_field hd (hderives f hf) hmakes
  · rw [hfills.undeclared name hname] at hvalue
    split at hvalue
    · obtain ⟨d, hget, rfl⟩ := Option.map_eq_some_iff.mp hvalue
      refine ⟨fun d' hd' => ?_, by simp [hget]⟩
      rw [hget] at hd'
      cases hd'
      exact derives_ofJson (Json.hereditary_every.found hd hget)
    · simp at hvalue

/-- What a plain type makes of some data is made of that data. -/
theorem derives_of_makes {t : TypeDescriptor} (h : t.Plain) (hd : d.IsData)
    (hm : t.Makes places limits d v) : Derives d v := by
  induction t using TypeDescriptor.induction generalizing limits d v with
  | primitive kind =>
    rw [makes_primitive hm]
    exact derives_ofJson hd
  | semantic kind =>
    rw [makes_semantic h hm]
    exact derives_ofJson hd
  | mapping =>
    obtain ⟨ms, rfl, rfl⟩ := makes_mapping hm
    obtain ⟨-, hnodup, hall⟩ := derives_obj_iff.mp (derives_ofJson hd)
    refine derives_obj_iff.mpr ⟨by simp, hnodup.sublist (List.filter_sublist.map Prod.fst), ?_⟩
    intro name value hvalue
    rw [Members.get?_erase] at hvalue
    split at hvalue
    · simp at hvalue
    · exact hall name value hvalue
  | anyList =>
    obtain ⟨items, rfl, rfl⟩ := makes_anyList hm
    refine .arr (by simp) (List.length_map _).symm fun i item value hitem hvalue => ?_
    rw [List.getElem?_map, hitem] at hvalue
    cases hvalue
    exact derives_ofJson (Json.hereditary_every.item hd (List.mem_of_getElem? hitem))
  | listOf t ih =>
    obtain ⟨items, values, rfl, rfl, hall⟩ := makes_listOf hm
    refine .arr (by simp) hall.length_eq fun i item value hitem hvalue => ?_
    exact ih h (Json.hereditary_every.item hd (List.mem_of_getElem? hitem))
      (rel_of_getElem? hall hitem hvalue)
  | union ts ih =>
    obtain ⟨t, ht, hmakes⟩ := makes_union h hd hm
    have hmem := List.mem_of_find?_eq_some ht
    exact ih t hmem (TypeDescriptor.everyOf_iff.mp h t hmem) hd hmakes
  | intersection ts ih =>
    have hall : ∀ t ∈ ts, t.Plain := TypeDescriptor.everyOf_iff.mp h
    cases ts with
    | nil =>
      obtain ⟨-, rfl⟩ := yields_ok_iff.mp hm
      exact derives_ofJson hd
    | cons t ts =>
      exact (makes_intersection hall hd (fun u hu v hv => ih u hu (hall u hu) hd hv) hm).1
  | composite m ih =>
    obtain ⟨hregular, -⟩ := regular_of_plain h
    exact derives_model hregular hd (fun f hf d hd v hv => ih f hf (hregular.fields f hf) hd hv) hm

end JsonModel
