-- Fields that are missing. A required one is reported once, at its place, whatever its type makes of
-- a missing value, and an optional one is null.
import JsonModel.Proofs.Check.Overlay
import JsonModel.Proofs.Check.Result
import JsonModel.Proofs.Compile.WellFormed

namespace JsonModel

variable {places : Places} {limits : Limits} {v : Value}

/-! ## The check of a missing value -/

/-- The value stays as it is, and all issues are about the value itself. -/
structure Outcome.Flat (v : Value) (o : Outcome) : Prop where
  value_eq : o.value = v
  here : ∀ issue ∈ o.issues, issue.path = []

theorem flat_accept (v : Value) : (Outcome.accept v).Flat v := ⟨rfl, by simp [Outcome.accept]⟩

theorem flat_keep (v : Value) (faults : List Fault) : (Outcome.keep v faults).Flat v := by
  refine ⟨rfl, fun issue hissue => ?_⟩
  obtain ⟨fault, -, rfl⟩ := List.mem_map.mp hissue
  rfl

theorem flat_reject (v : Value) (fault : Fault) : (Outcome.reject v fault).Flat v :=
  flat_keep v [fault]

theorem flat_halted {o : Outcome} (h : o.Flat v) : { o with halted := true }.Flat v :=
  ⟨h.value_eq, h.here⟩

theorem eq_of_isNullish (h : v.isNullish = true) : v = .undefined ∨ v = .null := by
  cases v with
  | undefined => exact .inl rfl
  | null => exact .inr rfl
  | _ => simp [Value.isNullish] at h

theorem flat_primitive (kind : Primitive) (limits : Limits) (hv : v.isNullish = true) :
    (kind.check limits v).Flat v := by
  rcases eq_of_isNullish hv with rfl | rfl
  · cases kind with
    | string => exact flat_keep _ _
    | integer | number | boolean | null => exact flat_reject _ _
    | any => exact flat_accept _
  · cases kind with
    | string => exact flat_keep _ _
    | integer | number | boolean => exact flat_reject _ _
    | null | any => exact flat_accept _

theorem flat_semantic (kind : Semantic) (limits : Limits) (hv : v.isNullish = true) :
    (kind.check places limits v).Flat v := by
  rcases eq_of_isNullish hv with rfl | rfl <;>
    cases kind with
    | base64Bytes | jsonString | secretString | secretBytes =>
      exact flat_halted (flat_reject _ _)
    | path => exact flat_keep _ _
    | _ => exact flat_reject _ _

/-- What both checks of a value report is what one of them reports, or is about unknown keys of the
value itself. -/
theorem mem_joinIssues {left right : List Issue} {issue : Issue}
    (h : issue ∈ Outcome.joinIssues left right) :
    issue ∈ left ∨ issue ∈ right ∨ ∃ names, issue = .here (.unknownKeys names) := by
  unfold Outcome.joinIssues at h
  simp only [List.mem_append] at h
  rcases h with (h | h) | h
  · exact .inl (List.mem_filter.mp h).1
  · exact .inr (.inl (List.mem_filter.mp h).1)
  · split at h
    · simp at h
    · exact .inr (.inr ⟨_, List.mem_singleton.mp h⟩)

theorem join_nullish (hv : v.isNullish = true) : Value.join v v = .ok v := by
  rcases eq_of_isNullish hv with rfl | rfl <;> rfl

theorem flat_both (hv : v.isNullish = true) {left right o : Outcome} (hleft : left.Flat v)
    (hright : right.Flat v) (h : left.both v right = .ok o) : o.Flat v := by
  have hhere : ∀ issue ∈ Outcome.joinIssues left.issues right.issues, issue.path = [] := by
    intro issue hissue
    rcases mem_joinIssues hissue with hissue | hissue | ⟨names, rfl⟩
    · exact hleft.here issue hissue
    · exact hright.here issue hissue
    · rfl
  unfold Outcome.both at h
  rw [hleft.value_eq, hright.value_eq, join_nullish hv] at h
  simp only at h
  split at h <;> cases h <;> exact ⟨rfl, hhere⟩

theorem flat_members (hv : v.isNullish = true) {ts : List TypeDescriptor} {sofar o : Outcome}
    (hts : ∀ t ∈ ts, ∀ o, t.check places {} v = .ok o → o.Flat v) (hsofar : sofar.Flat v)
    (h : TypeDescriptor.checkMembers places sofar ts v = .ok o) : o.Flat v := by
  induction ts generalizing sofar with
  | nil =>
    cases h
    exact hsofar
  | cons t ts ih =>
    unfold TypeDescriptor.checkMembers at h
    obtain ⟨right, hright, h⟩ := bind_ok_iff.mp h
    obtain ⟨both, hboth, h⟩ := bind_ok_iff.mp h
    exact ih (fun u hu => hts u (List.mem_cons_of_mem _ hu))
      (flat_both hv hsofar (hts t List.mem_cons_self right hright) hboth) h

/-- No type looks into null or an undefined value, or changes it. -/
theorem flat_check (hv : v.isNullish = true) (t : TypeDescriptor) :
    ∀ limits o, t.check places limits v = .ok o → o.Flat v := by
  induction t using TypeDescriptor.induction with
  | primitive kind =>
    rintro limits o ⟨⟩
    exact flat_primitive kind limits hv
  | semantic kind =>
    rintro limits o ⟨⟩
    exact flat_semantic kind limits hv
  | mapping | anyList | listOf =>
    intro limits o h
    rcases eq_of_isNullish hv with rfl | rfl <;> cases h <;> exact flat_reject _ _
  | union ts ih =>
    intro limits o h
    rcases union_outcome h with ⟨t, ht, hcheck⟩ | rfl
    · exact ih t ht limits o hcheck
    · exact flat_reject _ _
  | intersection ts ih =>
    intro limits o h
    cases ts with
    | nil =>
      cases h
      exact flat_accept v
    | cons first rest =>
      unfold TypeDescriptor.check at h
      obtain ⟨o', ho', h⟩ := bind_ok_iff.mp h
      exact flat_members hv (fun t ht => ih t (List.mem_cons_of_mem _ ht) {})
        (ih first List.mem_cons_self {} o' ho') h
  | composite d ih =>
    obtain ⟨_, _, _, _⟩ := d
    intro limits o h
    rcases eq_of_isNullish hv with rfl | rfl <;> cases h <;> exact flat_reject _ _

/-- A type that has null accepts null, and gives it back. -/
theorem check_null {t : TypeDescriptor} (ht : t.HasNull) {o : Outcome}
    (h : t.check places limits .null = .ok o) : o.issues = [] ∧ o.value = .null := by
  refine ⟨?_, (flat_check rfl t limits o h).value_eq⟩
  rcases ht with rfl | ⟨ts, rfl, hmem⟩
  · cases h
    rfl
  · exact List.isEmpty_iff.mp (union_accepts h hmem rfl)

/-! ## What a field adds where there is nothing -/

variable {f : Field}

/-- Everything that a field reports is at its name. -/
theorem contribute_paths {c : Contribution} (h : f.contribute places v = .ok c) :
    ∀ issue ∈ c.issues, issue.path.head? = some (.key f.name) := by
  unfold Field.contribute at h
  obtain ⟨o, -, rfl⟩ := map_ok_iff.mp h
  intro issue hissue
  unfold contribution at hissue
  split at hissue
  · split at hissue
    · rw [List.mem_singleton.mp hissue]
      rfl
    · obtain ⟨_, -, rfl⟩ := List.mem_map.mp hissue
      rfl
  · obtain ⟨_, -, rfl⟩ := List.mem_map.mp hissue
    rfl

/-- A required field that is missing is reported, and only at its own place. -/
theorem contribute_required {c : Contribution} (h : f.contribute places v = .ok c)
    (hread : v.read? f.name = none) (hdefault : f.defaultsToNull = false) :
    c.issues ≠ [] ∧ ∀ issue ∈ c.issues, issue.path = [.key f.name] := by
  unfold Field.contribute at h
  rw [hread, hdefault] at h
  obtain ⟨o, ho, rfl⟩ := map_ok_iff.mp h
  have hflat := flat_check (v := .undefined) rfl f.type f.limits o ho
  unfold contribution
  simp only
  by_cases haccepted : o.accepted = true
  · rw [if_pos haccepted]
    simp
  · rw [if_neg haccepted]
    simp only [ne_eq, List.map_eq_nil_iff]
    refine ⟨fun hnil => haccepted (List.isEmpty_iff.mpr hnil), fun issue hissue => ?_⟩
    obtain ⟨inner, hinner, rfl⟩ := List.mem_map.mp hissue
    unfold Issue.under
    rw [hflat.here inner hinner]

/-- An optional field without a value adds null, and has nothing to report. -/
theorem contribute_optional {c : Contribution} (h : f.contribute places v = .ok c)
    (hread : ∀ value, v.read? f.name = some value → value.isNullish = true)
    (hdefault : f.defaultsToNull = true) (hnull : f.type.HasNull) : c = ⟨[], some .null⟩ := by
  cases hfound : v.read? f.name with
  | none =>
    rw [contribute_default hfound hdefault] at h
    cases h
    rfl
  | some value =>
    rcases eq_of_isNullish (hread value hfound) with rfl | rfl
    · unfold Field.contribute at h
      rw [hfound, hdefault] at h
      cases h
      rfl
    · rw [contribute_found hfound (by simp)] at h
      obtain ⟨o, ho, rfl⟩ := map_ok_iff.mp h
      obtain ⟨hclean, hvalue⟩ := check_null hnull ho
      rw [hclean, hvalue]
      rfl

/-! ## What the whole check says about a field -/

variable {d : Definition} {ms : Members Value} {cs : List (String × Contribution)}

theorem mem_assembled_iff {mode : ExtraMode} {issue : Issue}
    (h : issue ∈ (assemble mode ms cs).issues) :
    issue.path = [] ∨ ∃ name c, (name, c) ∈ cs ∧ issue ∈ c.issues := by
  have hfield : issue ∈ (cs.flatMap fun m => m.2.issues) →
      ∃ name c, (name, c) ∈ cs ∧ issue ∈ c.issues := by
    intro hmem
    obtain ⟨⟨name, c⟩, hc, hissue⟩ := List.mem_flatMap.mp hmem
    exact ⟨name, c, hc, hissue⟩
  cases mode with
  | ignore | allow => exact .inr (hfield h)
  | forbid =>
    rcases List.mem_append.mp h with h | h
    · exact .inr (hfield h)
    · split at h
      · simp at h
      · rw [List.mem_singleton.mp h]
        exact .inl rfl

/-- What is reported under the name of a field is what the field adds. -/
theorem mem_field_issues (h : d.Listed) (hadds : d.Adds places v cs) {mode : ExtraMode}
    (hf : f ∈ d.effective) {c : Contribution} (hc : f.contribute places v = .ok c) {issue : Issue}
    (hissue : issue ∈ (assemble mode ms cs).issues)
    (hpath : issue.path.head? = some (.key f.name)) : issue ∈ c.issues := by
  rcases mem_assembled_iff hissue with hhere | ⟨name, c', hmem, hissue'⟩
  · rw [hhere] at hpath
    simp at hpath
  · obtain ⟨g, hg, rfl, hadded⟩ := (hadds.mem_iff name c').mp hmem
    have hhead := contribute_paths hadded issue hissue'
    rw [hpath] at hhead
    obtain rfl : f = g := h.effective_inj hf hg (by simpa using hhead)
    rw [hc] at hadded
    cases hadded
    exact hissue'

/-- What a field adds is reported. -/
theorem mem_assembled {mode : ExtraMode} {name : String} {c : Contribution} (hc : (name, c) ∈ cs)
    {issue : Issue} (hissue : issue ∈ c.issues) : issue ∈ (assemble mode ms cs).issues := by
  have hmem : issue ∈ (cs.flatMap fun m => m.2.issues) :=
    List.mem_flatMap.mpr ⟨_, hc, hissue⟩
  cases mode with
  | ignore | allow => exact hmem
  | forbid => exact List.mem_append_left _ hmem

/-! ## Missing keys -/

/-- The answer reports the field, and only at its own place. -/
def ParseResult.Misses (name : String) (result : ParseResult) : Prop :=
  ∃ issues, result = .failure issues ∧ (∃ issue ∈ issues, issue.path = [.key name]) ∧
    ∀ issue ∈ issues, issue.path.head? = some (.key name) → issue.path = [.key name]

/-- The answer has nothing to report on the field, and if it is a success, the field is null. -/
def ParseResult.Nulls (name : String) (result : ParseResult) : Prop :=
  (∀ issues, result = .failure issues → ∀ issue ∈ issues, issue.path.head? ≠ some (.key name)) ∧
    ∀ out, result = .success out →
      ∃ values, out = .obj .made values ∧ Members.get? name values = some .null

theorem toResult_eq_failure {o : Outcome} {issues : List Issue} (h : o.toResult = .failure issues) :
    o.issues = issues := by
  unfold Outcome.toResult at h
  split at h
  · simp at h
  · cases h
    rfl

theorem misses_of_required {mode : ExtraMode} (h : d.Listed) (hadds : d.Adds places v cs)
    (hf : f ∈ d.effective) (hread : v.read? f.name = none) (hdefault : f.defaultsToNull = false) :
    (assemble mode ms cs).toResult.Misses f.name := by
  obtain ⟨c, hc, hmem⟩ := hadds.answers f hf
  obtain ⟨hne, hpaths⟩ := contribute_required hc hread hdefault
  obtain ⟨issue, hissue⟩ := List.exists_mem_of_ne_nil _ hne
  have hall := @mem_assembled ms cs mode f.name c hmem issue hissue
  have hrejected : (assemble mode ms cs).accepted = false := by
    unfold Outcome.accepted
    rw [List.isEmpty_eq_false_iff]
    exact List.ne_nil_of_mem hall
  refine ⟨(assemble mode ms cs).issues, ?_, ⟨issue, hall, hpaths issue hissue⟩, ?_⟩
  · unfold Outcome.toResult
    rw [hrejected]
    rfl
  · intro other hother hhead
    exact hpaths other (mem_field_issues h hadds hf hc hother hhead)

theorem nulls_of_optional {mode : ExtraMode} (h : d.Listed) (hadds : d.Adds places v cs)
    (hms : (Members.names ms).Nodup) (hf : f ∈ d.effective)
    (hread : ∀ value, v.read? f.name = some value → value.isNullish = true)
    (hdefault : f.defaultsToNull = true) (hnull : f.type.HasNull) :
    (assemble mode ms cs).toResult.Nulls f.name := by
  obtain ⟨c, hc, hmem⟩ := hadds.answers f hf
  obtain rfl := contribute_optional hc hread hdefault hnull
  constructor
  · intro issues hissues issue hissue hhead
    rw [← toResult_eq_failure hissues] at hissue
    have hnone := mem_field_issues h hadds hf hc hissue hhead
    simp at hnone
  · intro out hout
    obtain ⟨-, rfl⟩ := toResult_eq_success.mp hout
    have hnodup : (cs.map Prod.fst).Nodup := by
      rw [hadds.names_eq]
      exact nodup_keyOrder h.declared_nodup
    obtain ⟨values, hvalues, -, hget⟩ := get?_assembled mode hms hnodup
    refine ⟨values, hvalues, ?_⟩
    rw [hget, (Members.get?_eq_some_iff hnodup).mpr hmem]
    rfl

/-- A required key that the data does not have is reported at its place, and nothing below it. An
optional one that is missing, undefined or null has no issue, and comes out as null. -/
theorem required_keys_are_missed_and_optional_ones_are_null {places : Places}
    {schema : Members Json} {root : Option (Members Json)} {overrides : Overrides} {d : Definition}
    {origin : Origin} {ms : Members Value} {result : ParseResult}
    (h : compileSchema schema root overrides = .ok d) (hschema : (Json.obj schema).Distinct)
    (hroot : ∀ r ∈ root, (Json.obj r).Distinct) (hown : d.OwnNames)
    (hvalidators : overrides.validators = []) (hms : (Members.names ms).Nodup)
    (hresult : d.safeParse places (.obj origin ms) = .ok result) :
    (∀ f ∈ d.fields, f.required = true → f.name ∉ Members.names ms → result.Misses f.name) ∧
      ∀ f ∈ d.fields, f.required = false →
        (∀ value, ms.get? f.name = some value → value.isNullish = true) → result.Nulls f.name := by
  obtain ⟨hbuilt, -⟩ := built_of_compile h hschema hroot
  have hcompiled := compiled_of_compile h
  have hlisted : d.Listed := hbuilt.listed hown
  have heffective : d.effective = d.fields := Definition.effective_of_no_base hbuilt.no_base
  unfold Definition.safeParse at hresult
  rw [check_obj, hbuilt.overrides_eq, hvalidators] at hresult
  simp only [runValidators_nil] at hresult
  obtain ⟨o, ho, rfl⟩ := map_ok_iff.mp hresult
  obtain ⟨cs, hcs, rfl⟩ := map_ok_iff.mp ho
  have hadds := adds_of_inOrder hlisted hcs
  constructor
  · intro f hf hrequired hmissing
    apply misses_of_required hlisted hadds (heffective ▸ hf)
    · rw [read?_own (hown f hf)]
      exact Members.get?_eq_none_iff.mpr hmissing
    · rw [hbuilt.default_iff f hf, hrequired]
      rfl
  · intro f hf hoptional hnullish
    apply nulls_of_optional hlisted hadds hms (heffective ▸ hf)
    · rwa [read?_own (hown f hf)]
    · rw [hbuilt.default_iff f hf, hoptional]
      rfl
    · exact (hcompiled.fields f hf _ .refl).has_null hoptional

/-- A letter without a sender, whose lines are undefined. -/
def unsent : Members Value := [("lines", .undefined), ("note", .str "draft")]

theorem a_letter_without_a_sender_misses_it :
    compileSchema letterSchema = .ok letterModel ∧ ∃ result,
      letterModel.safeParse ⟨fun _ => false, fun _ => false⟩ (.obj .given unsent) = .ok result ∧
        result.Misses "sender" ∧ result.Nulls "lines" := by
  have hcompile : compileSchema letterSchema = .ok letterModel := rfl
  have hanswers : ∃ result,
      letterModel.safeParse ⟨fun _ => false, fun _ => false⟩ (.obj .given unsent) = .ok result :=
    ⟨_, rfl⟩
  obtain ⟨result, hresult⟩ := hanswers
  refine ⟨hcompile, result, hresult, ?_⟩
  obtain ⟨hrequired, hoptional⟩ := required_keys_are_missed_and_optional_ones_are_null hcompile
    letterSchema_distinct (by simp) letterModel_preserving.own rfl
    (by decide) hresult
  refine ⟨hrequired _ List.mem_cons_self rfl (by decide),
    hoptional _ (List.mem_cons_of_mem _ List.mem_cons_self) rfl ?_⟩
  rintro value ⟨⟩
  rfl

end JsonModel
