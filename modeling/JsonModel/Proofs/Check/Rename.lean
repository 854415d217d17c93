-- Field names say nothing about values. A model whose fields are called otherwise gives the same
-- answers under the new names, as long as no object answers to a name that it does not have.
import JsonModel.Proofs.Check.Overlay
import JsonModel.Proofs.Check.Result
import JsonModel.Proofs.Compile.Rename
import JsonModel.Proofs.Descriptor

namespace JsonModel

variable {places : Places}

/-! ## The names of models -/

/-- Types that are checked alike without their names try alike as variants. -/
theorem checkVariants_unnamed {ts : List TypeDescriptor}
    (h : ∀ t ∈ ts, ∀ limits v, t.unnamed.check places limits v = t.check places limits v)
    (limits : Limits) (v : Value) :
    TypeDescriptor.checkVariants places (ts.map TypeDescriptor.unnamed) limits v =
      TypeDescriptor.checkVariants places ts limits v := by
  induction ts with
  | nil => rfl
  | cons t ts ih =>
    rw [List.map_cons, TypeDescriptor.checkVariants, TypeDescriptor.checkVariants,
      h t List.mem_cons_self, ih fun u hu => h u (List.mem_cons_of_mem _ hu)]

theorem checkMembers_unnamed {ts : List TypeDescriptor}
    (h : ∀ t ∈ ts, ∀ limits v, t.unnamed.check places limits v = t.check places limits v)
    (sofar : Outcome) (v : Value) :
    TypeDescriptor.checkMembers places sofar (ts.map TypeDescriptor.unnamed) v =
      TypeDescriptor.checkMembers places sofar ts v := by
  induction ts generalizing sofar with
  | nil => rfl
  | cons t ts ih =>
    rw [List.map_cons, TypeDescriptor.checkMembers, TypeDescriptor.checkMembers,
      h t List.mem_cons_self]
    simp only [ih fun u hu => h u (List.mem_cons_of_mem _ hu)]

theorem contribute_of_check {f : Field}
    (h : ∀ limits v, f.type.unnamed.check places limits v = f.type.check places limits v)
    (v : Value) : f.unnamed.contribute places v = f.contribute places v := by
  unfold Field.contribute Field.unnamed
  simp only [h]

/-- What a model is called has no say in what it accepts. -/
theorem check_unnamed (t : TypeDescriptor) :
    ∀ limits v, t.unnamed.check places limits v = t.check places limits v := by
  induction t using TypeDescriptor.induction with
  | primitive | semantic | mapping | anyList => exact fun _ _ => rfl
  | listOf t ih =>
    intro limits v
    unfold TypeDescriptor.unnamed TypeDescriptor.check
    simp only [ih]
  | union ts ih =>
    intro limits v
    rw [unnamed_union]
    by_cases hone : ∃ only, ts = [only]
    · obtain ⟨only, rfl⟩ := hone
      exact ih only List.mem_cons_self limits v
    · have hmany : ∀ only, ts.map TypeDescriptor.unnamed ≠ [only] := by
        intro only honly
        obtain ⟨t, rfl, -⟩ := List.map_eq_singleton_iff.mp honly
        exact hone ⟨t, rfl⟩
      rw [union_check hmany, union_check fun only honly => hone ⟨only, honly⟩,
        checkVariants_unnamed ih]
  | intersection ts ih =>
    intro limits v
    rw [unnamed_intersection]
    cases ts with
    | nil => rfl
    | cons first rest =>
      rw [List.map_cons, TypeDescriptor.check, TypeDescriptor.check, ih first List.mem_cons_self]
      simp only [checkMembers_unnamed fun u hu => ih u (List.mem_cons_of_mem _ hu)]
  | composite d ih =>
    obtain ⟨name, base, fields, overrides⟩ := d
    intro limits v
    have hall : Field.checkAll places (fields.map Field.unnamed) v =
        Field.checkAll places fields v := by
      rw [checkAll_eq_map, checkAll_eq_map, List.map_map]
      apply List.map_congr_left
      intro f hf
      simp only [Function.comp_apply, contribute_of_check (ih f hf)]
      rfl
    rw [unnamed_composite]
    unfold TypeDescriptor.check Definition.check
    simp only [hall]

/-! ## Renamed reports -/

section

variable (σ : Equiv.Perm String)

/-- A step under another name. -/
def Step.renamed : Step → Step
  | .key name => .key (σ name)
  | step => step

/-- An issue of an object whose keys are called otherwise: the first step of its path is. -/
def Issue.renamed (issue : Issue) : Issue :=
  { issue with path :=
      match issue.path with
      | [] => []
      | step :: rest => step.renamed σ :: rest }

/-- What kind of fault an issue reports, and where. -/
def Issue.sign (issue : Issue) : String × List Step := (issue.fault.code, issue.path)

/-- What a field adds under another name. -/
def Contribution.renamed (c : Contribution) : Contribution :=
  { c with issues := c.issues.map (Issue.renamed σ) }

/-- The answer to renamed data: the same values come out under the new names, or the same kinds of
faults are found at the renamed places, in some order. -/
inductive ParseResult.Renamed : ParseResult → ParseResult → Prop
  | success {values values' : Members Value} : (Members.names values).Nodup →
      (Members.names values').Nodup →
      (∀ name, Members.get? (σ name) values' = Members.get? name values) →
      Renamed (.success (.obj .made values)) (.success (.obj .made values'))
  | failure {issues issues' : List Issue} :
      (issues'.map Issue.sign).Perm (issues.map fun issue => (issue.renamed σ).sign) →
      Renamed (.failure issues) (.failure issues')

/-- No object takes part in the renaming by itself. What is not there under a name of a field, it
answers to the old name and to the new one alike, and no name is renamed to the reserved one, or from
it. -/
structure Spares (names : List String) (ms : Members Value) : Prop where
  reserved : ∀ name, name ∈ names ∨ name ∈ Members.names ms →
    (σ name = reservedName ↔ name = reservedName)
  inherited : ∀ name ∈ names, name ∉ Members.names ms →
    Value.inheritedFunctions.lookup (σ name) = Value.inheritedFunctions.lookup name

end

variable {σ : Equiv.Perm String} {ms : Members Value}

/-- What is read under the new name is what was read under the old one. -/
theorem read?_renamed {names : List String} (hms : (Members.names ms).Nodup)
    (hspares : Spares σ names ms) (origin : Origin) {name : String} (hname : name ∈ names) :
    (Value.obj origin (Members.rename σ ms)).read? (σ name) =
      (Value.obj origin ms).read? name := by
  rw [read?_obj, read?_obj, Members.get?_rename σ hms]
  by_cases hmem : name ∈ Members.names ms
  · obtain ⟨value, hvalue⟩ := Members.exists_get?_iff.mpr hmem
    rw [hvalue]
    rfl
  · rw [hspares.inherited name hname hmem]

theorem contribution_renamed (name : String) (reading : Option Value) (defaultsToNull : Bool)
    (o : Outcome) : contribution (σ name) reading defaultsToNull o =
      (contribution name reading defaultsToNull o).renamed σ := by
  have hissues : o.issues.map (Issue.under (.key (σ name))) =
      (o.issues.map (Issue.under (.key name))).map (Issue.renamed σ) := by
    rw [List.map_map]
    rfl
  unfold contribution
  rw [hissues]
  split
  · split <;> rfl
  · rfl

/-- A field under another name adds the same under that name. -/
theorem contribute_renamed {f f' : Field} (h : f'.unnamed = (f.renamed σ).unnamed) {v v' : Value}
    (hread : v'.read? (σ f.name) = v.read? f.name) :
    f'.contribute places v' = (f.contribute places v).map (Contribution.renamed σ) := by
  rw [← contribute_of_check (check_unnamed f'.type), h, contribute_of_check (check_unnamed _)]
  unfold Field.contribute Field.renamed
  simp only [hread]
  split
  · exact congrArg Except.ok (contribution_renamed _ _ _ _)
  · cases f.type.check places f.limits ((v.read? f.name).getD .undefined) with
    | error e => rfl
    | ok o => exact congrArg Except.ok (contribution_renamed _ _ _ _)

/-! ## Renamed objects -/

section

variable {d d' : Definition}

/-- The fields of the renamed model are those of the model, one by one. -/
theorem field_renamed (h : d.RenamedTo σ d') {f : Field} (hf : f ∈ d.fields) :
    ∃ f' ∈ d'.fields, f'.unnamed = (f.renamed σ).unnamed := by
  have hmem : (f.renamed σ).unnamed ∈ d.fields.map fun f => (f.renamed σ).unnamed :=
    List.mem_map_of_mem hf
  exact List.mem_map.mp (h.fields.mem_iff.mpr hmem)

theorem field_of_renamed (h : d.RenamedTo σ d') {f' : Field} (hf : f' ∈ d'.fields) :
    ∃ f ∈ d.fields, f'.unnamed = (f.renamed σ).unnamed := by
  have hmem : f'.unnamed ∈ d'.fields.map Field.unnamed := List.mem_map_of_mem hf
  obtain ⟨f, hf, heq⟩ := List.mem_map.mp (h.fields.mem_iff.mp hmem)
  exact ⟨f, hf, heq.symm⟩

theorem name_of_unnamed {f f' : Field} (h : f'.unnamed = (f.renamed σ).unnamed) :
    f'.name = σ f.name := congrArg Field.name h

theorem named_renamed (h : d.RenamedTo σ d') (hbase : d.base = [])
    (hnames : (d.fields.map Field.name).Nodup) : d'.Named := by
  refine ⟨?_, ?_⟩
  · rw [h.base, hbase]
    exact List.nodup_nil
  · have hperm := h.fields.map Field.name
    rw [List.map_map, List.map_map] at hperm
    have hold : d.fields.map (Field.name ∘ fun f => (f.renamed σ).unnamed) =
        (d.fields.map Field.name).map σ := by
      rw [List.map_map]
      rfl
    rw [hold] at hperm
    exact hperm.nodup_iff.mpr (hnames.map σ.injective)

/-- What the fields of one object add, and what they add under other names. -/
structure Corresponds (σ : Equiv.Perm String) (cs cs' : List (String × Contribution)) : Prop where
  nodup : (cs.map Prod.fst).Nodup
  nodup' : (cs'.map Prod.fst).Nodup
  mem_iff : ∀ name c', (σ name, c') ∈ cs' ↔ ∃ c, (name, c) ∈ cs ∧ c' = c.renamed σ

section

variable {cs cs' : List (String × Contribution)} (h : Corresponds σ cs cs')
include h

theorem Corresponds.perm : cs'.Perm (cs.map fun m => (σ m.1, m.2.renamed σ)) := by
  have hnodup : (cs.map fun m => (σ m.1, m.2.renamed σ)).Nodup := by
    apply List.Nodup.of_map Prod.fst
    rw [List.map_map]
    have hnames : cs.map (Prod.fst ∘ fun m => (σ m.1, m.2.renamed σ)) =
        (cs.map Prod.fst).map σ := by
      rw [List.map_map]
      rfl
    rw [hnames]
    exact h.nodup.map σ.injective
  rw [List.perm_ext_iff_of_nodup (List.Nodup.of_map Prod.fst h.nodup') hnodup]
  rintro ⟨name', c'⟩
  obtain ⟨name, rfl⟩ := σ.surjective name'
  rw [h.mem_iff, List.mem_map]
  constructor
  · rintro ⟨c, hc, rfl⟩
    exact ⟨(name, c), hc, rfl⟩
  · rintro ⟨⟨name₀, c⟩, hc, heq⟩
    rw [Prod.mk.injEq] at heq
    obtain ⟨hname, rfl⟩ := heq
    obtain rfl := σ.injective hname
    exact ⟨c, hc, rfl⟩

theorem Corresponds.get? (name : String) :
    Members.get? (σ name) cs' = (Members.get? name cs).map (Contribution.renamed σ) := by
  ext c'
  rw [Members.get?_eq_some_iff h.nodup', h.mem_iff, Option.map_eq_some_iff]
  simp only [Members.get?_eq_some_iff h.nodup, eq_comm]

theorem Corresponds.mem_names (name : String) :
    σ name ∈ cs'.map Prod.fst ↔ name ∈ cs.map Prod.fst := by
  have hnames := fun (cs : List (String × Contribution)) (name : String) =>
    (@Members.exists_get?_iff _ name cs).symm
  unfold Members.names at hnames
  rw [hnames, hnames, h.get?]
  simp

end

/-- What the fields add to the renamed object corresponds to what they add to the object. -/
theorem corresponds_inOrder (h : d.RenamedTo σ d') (hnamed : d.Named) (hnamed' : d'.Named)
    (hbase : d.base = []) {v v' : Value}
    (hread : ∀ f ∈ d.fields, v'.read? (σ f.name) = v.read? f.name)
    (hreserved : ∀ f ∈ d.fields, (σ f.name = reservedName ↔ f.name = reservedName))
    {cs cs' : List (String × Contribution)}
    (hcs : inOrder (Field.checkAll places d.base v ++ Field.checkAll places d.fields v) = .ok cs)
    (hcs' : inOrder (Field.checkAll places d'.base v' ++ Field.checkAll places d'.fields v') =
      .ok cs') : Corresponds σ cs cs' := by
  have hfields : d.effective = d.fields := Definition.effective_of_no_base hbase
  have hfields' : d'.effective = d'.fields :=
    Definition.effective_of_no_base (h.base.trans hbase)
  refine ⟨(inOrder_names hcs).1, (inOrder_names hcs').1, fun name c' => ?_⟩
  simp only [mem_inOrder hnamed hcs, mem_inOrder hnamed' hcs', hfields, hfields']
  constructor
  · rintro ⟨hname, f', hf', hname', hc'⟩
    obtain ⟨f, hf, hsame⟩ := field_of_renamed h hf'
    rw [name_of_unnamed hsame, σ.apply_eq_iff_eq] at hname'
    subst hname'
    rw [contribute_renamed hsame (hread f hf)] at hc'
    obtain ⟨c, hc, rfl⟩ := map_ok_iff.mp hc'
    exact ⟨c, ⟨mt (hreserved f hf).mpr hname, f, hf, rfl, hc⟩, rfl⟩
  · rintro ⟨c, ⟨hname, f, hf, rfl, hc⟩, rfl⟩
    obtain ⟨f', hf', hsame⟩ := field_renamed h hf
    refine ⟨mt (hreserved f hf).mp hname, f', hf', name_of_unnamed hsame, ?_⟩
    rw [contribute_renamed hsame (hread f hf), hc]
    rfl

/-- The fields of the renamed object are put in order exactly if those of the object are. -/
theorem exists_inOrder_renamed (h : d.RenamedTo σ d') (hnamed : d.Named) (hnamed' : d'.Named)
    (hbase : d.base = []) {v v' : Value}
    (hread : ∀ f ∈ d.fields, v'.read? (σ f.name) = v.read? f.name)
    (hreserved : ∀ f ∈ d.fields, (σ f.name = reservedName ↔ f.name = reservedName)) :
    (∃ cs', inOrder (Field.checkAll places d'.base v' ++ Field.checkAll places d'.fields v') =
        .ok cs') ↔
      ∃ cs, inOrder (Field.checkAll places d.base v ++ Field.checkAll places d.fields v) =
        .ok cs := by
  rw [exists_inOrder_iff hnamed, exists_inOrder_iff hnamed', Definition.effective_of_no_base hbase,
    Definition.effective_of_no_base (h.base.trans hbase)]
  constructor
  · intro hall f hf hname
    obtain ⟨f', hf', hsame⟩ := field_renamed h hf
    have hname' : f'.name ≠ reservedName := by
      rw [name_of_unnamed hsame]
      exact mt (hreserved f hf).mp hname
    obtain ⟨c', hc'⟩ := hall f' hf' hname'
    rw [contribute_renamed hsame (hread f hf)] at hc'
    obtain ⟨c, hc, -⟩ := map_ok_iff.mp hc'
    exact ⟨c, hc⟩
  · intro hall f' hf' hname'
    obtain ⟨f, hf, hsame⟩ := field_of_renamed h hf'
    rw [name_of_unnamed hsame] at hname'
    obtain ⟨c, hc⟩ := hall f hf (mt (hreserved f hf).mpr hname')
    refine ⟨c.renamed σ, ?_⟩
    rw [contribute_renamed hsame (hread f hf), hc]
    rfl

end

/-! ## Renamed answers -/

section

variable {cs cs' : List (String × Contribution)}

theorem members_nil_iff {α : Type _} {ms : Members α} :
    ms = [] ↔ ∀ name, Members.get? name ms = none := by
  constructor
  · rintro rfl name
    rfl
  · intro h
    cases ms with
    | nil => rfl
    | cons m ms =>
      have hfirst := h m.1
      rw [Members.get?_cons, if_pos rfl] at hfirst
      simp at hfirst

/-- The undeclared members of the renamed object are those of the object. -/
theorem get?_undeclared_renamed (h : Corresponds σ cs cs') (hms : (Members.names ms).Nodup)
    (hreserved : ∀ name ∈ Members.names ms, (σ name = reservedName ↔ name = reservedName))
    (name : String) :
    Members.get? (σ name) (undeclared (cs'.map Prod.fst) (Members.rename σ ms)) =
      Members.get? name (undeclared (cs.map Prod.fst) ms) := by
  rw [get?_undeclared, get?_undeclared, Members.get?_rename σ hms]
  simp only [h.mem_names]
  by_cases hname : name ∈ Members.names ms
  · simp only [ne_eq, hreserved name hname]
  · rw [Members.get?_eq_none_iff.mpr hname, ite_self, ite_self]

theorem undeclared_renamed_nil_iff (h : Corresponds σ cs cs') (hms : (Members.names ms).Nodup)
    (hreserved : ∀ name ∈ Members.names ms, (σ name = reservedName ↔ name = reservedName)) :
    undeclared (cs'.map Prod.fst) (Members.rename σ ms) = [] ↔
      undeclared (cs.map Prod.fst) ms = [] := by
  rw [members_nil_iff, members_nil_iff, ← σ.forall_congr_right]
  exact forall_congr' fun name => by rw [get?_undeclared_renamed h hms hreserved]

theorem fieldIssues_renamed (h : Corresponds σ cs cs') :
    (cs'.flatMap fun (_, c) => c.issues).Perm
      ((cs.flatMap fun (_, c) => c.issues).map (Issue.renamed σ)) := by
  have hperm := h.perm.flatMap_right fun (_, c) => c.issues
  rw [List.flatMap_map] at hperm
  rw [List.map_flatMap]
  exact hperm

/-- The same kinds of faults are found in the renamed object, at the renamed places. -/
theorem issues_renamed (h : Corresponds σ cs cs') (hms : (Members.names ms).Nodup)
    (hreserved : ∀ name ∈ Members.names ms, (σ name = reservedName ↔ name = reservedName))
    (mode : ExtraMode) :
    ((assemble mode (Members.rename σ ms) cs').issues.map Issue.sign).Perm
      ((assemble mode ms cs).issues.map fun issue => (issue.renamed σ).sign) := by
  have hfields := (fieldIssues_renamed h).map Issue.sign
  rw [List.map_map] at hfields
  cases mode with
  | ignore | allow => exact hfields
  | forbid =>
    unfold assemble
    simp only [List.map_append]
    refine hfields.append ?_
    have hnil := undeclared_renamed_nil_iff h hms hreserved
    simp only [List.isEmpty_iff, hnil]
    split
    · exact .refl _
    · exact .refl _

/-- What the fields and the undeclared members come to together is the same under the new names. -/
theorem answer_renamed (h : Corresponds σ cs cs') (hms : (Members.names ms).Nodup)
    (hreserved : ∀ name ∈ Members.names ms, (σ name = reservedName ↔ name = reservedName))
    (mode : ExtraMode) :
    ParseResult.Renamed σ (assemble mode ms cs).toResult
      (assemble mode (Members.rename σ ms) cs').toResult := by
  have hissues := issues_renamed h hms hreserved mode
  have haccepted : (assemble mode (Members.rename σ ms) cs').accepted =
      (assemble mode ms cs).accepted := by
    have hlength := hissues.length_eq
    rw [List.length_map, List.length_map] at hlength
    unfold Outcome.accepted
    rw [Bool.eq_iff_iff, List.isEmpty_iff_length_eq_zero, List.isEmpty_iff_length_eq_zero, hlength]
  unfold Outcome.toResult
  rw [haccepted]
  split
  · have hms' : (Members.names (Members.rename σ ms)).Nodup := Members.nodup_ofList _
    obtain ⟨values, hvalues, hnodup, hget⟩ := get?_assembled mode hms h.nodup
    obtain ⟨values', hvalues', hnodup', hget'⟩ := get?_assembled mode hms' h.nodup'
    rw [hvalues, hvalues']
    refine .success hnodup hnodup' fun name => ?_
    have hextra := get?_undeclared_renamed h hms hreserved name
    rw [get?_undeclared, get?_undeclared] at hextra
    rw [hget, hget', h.get?]
    simp only [ite_and, hextra]
    cases Members.get? name cs <;> rfl
  · exact .failure hissues

end

/-- Both checks clash, or both answer, and the answers are renamed. -/
def AnsweredAlike (σ : Equiv.Perm String) (r r' : Except Clash ParseResult) : Prop :=
  (∃ clash clash', r = .error clash ∧ r' = .error clash') ∨
    ∃ result result', r = .ok result ∧ r' = .ok result' ∧ result.Renamed σ result'

/-- A compiled model answers alike to an object and to the object under other names, once its
properties are called otherwise too, wherever the renaming spares what objects have by themselves. -/
theorem renaming_the_fields_renames_the_answer {schema : Members Json}
    {root : Option (Members Json)} {overrides : Overrides} {d : Definition} {origin : Origin}
    (h : compileSchema schema root overrides = .ok d) (hschema : (Json.obj schema).Distinct)
    (hroot : ∀ r ∈ root, (Json.obj r).Distinct) (hvalidators : overrides.validators = [])
    (hrefs : root = none → ∀ ref ∈ (Json.obj schema).refs, OutsideProperties ref)
    (hms : (Members.names ms).Nodup) (hspares : Spares σ (d.fields.map Field.name) ms) :
    ∃ d', compileSchema (renameSchema σ schema) root overrides = .ok d' ∧
      AnsweredAlike σ (d.safeParse places (.obj origin ms))
        (d'.safeParse places (.obj origin (Members.rename σ ms))) := by
  obtain ⟨d', hcompile, hrenamed⟩ := @compile_renamed σ _ _ _ _ h hschema hrefs
  refine ⟨d', hcompile, ?_⟩
  obtain ⟨hbuilt, -⟩ := built_of_compile h hschema hroot
  have hnamed' := named_renamed hrenamed hbuilt.no_base hbuilt.names_nodup
  have hread : ∀ f ∈ d.fields, (Value.obj origin (Members.rename σ ms)).read? (σ f.name) =
      (Value.obj origin ms).read? f.name :=
    fun f hf => read?_renamed hms hspares origin (List.mem_map_of_mem hf)
  have hreserved : ∀ f ∈ d.fields, (σ f.name = reservedName ↔ f.name = reservedName) :=
    fun f hf => hspares.reserved f.name (.inl (List.mem_map_of_mem hf))
  have hexists := @exists_inOrder_renamed places σ d d' hrenamed hbuilt.named hnamed' hbuilt.no_base
    _ _ hread hreserved
  unfold Definition.safeParse
  rw [check_obj, check_obj, hrenamed.overrides, hbuilt.overrides_eq, hvalidators]
  simp only [runValidators_nil]
  cases hcs : inOrder (Field.checkAll places d.base (.obj origin ms) ++
      Field.checkAll places d.fields (.obj origin ms)) with
  | error clash =>
    cases hcs' : inOrder (Field.checkAll places d'.base (.obj origin (Members.rename σ ms)) ++
        Field.checkAll places d'.fields (.obj origin (Members.rename σ ms))) with
    | error clash' => exact .inl ⟨clash, clash', rfl, rfl⟩
    | ok cs' =>
      obtain ⟨cs, hcs₀⟩ := hexists.mp ⟨cs', hcs'⟩
      rw [hcs] at hcs₀
      simp at hcs₀
  | ok cs =>
    obtain ⟨cs', hcs'⟩ := hexists.mpr ⟨cs, hcs⟩
    rw [hcs']
    refine .inr ⟨_, _, rfl, rfl, ?_⟩
    exact answer_renamed (corresponds_inOrder hrenamed hbuilt.named hnamed' hbuilt.no_base hread
      hreserved hcs hcs') hms (fun name hname => hspares.reserved name (.inr hname)) _

/-- The sender of a letter is called its author. -/
def authored : Equiv.Perm String := Equiv.swap "sender" "author"

/-- A letter with a sender. -/
def sent : Members Value := [("note", .null), ("sender", .obj .given [("name", .str "Ida")])]

theorem a_letter_with_an_author_is_answered_alike :
    compileSchema letterSchema = .ok letterModel ∧
      ∃ d', compileSchema (renameSchema authored letterSchema) = .ok d' ∧
        AnsweredAlike authored
          (letterModel.safeParse ⟨fun _ => false, fun _ => false⟩ (.obj .given sent))
          (d'.safeParse ⟨fun _ => false, fun _ => false⟩
            (.obj .given (Members.rename authored sent))) := by
  have hcompile : compileSchema letterSchema = .ok letterModel := rfl
  refine ⟨hcompile, ?_⟩
  refine renaming_the_fields_renames_the_answer hcompile letterSchema_distinct (by simp) rfl
    (fun _ => ?_) (by decide) ⟨fun name hname => ?_, ?_⟩
  · unfold OutsideProperties
    decide
  · have hall : ∀ name ∈ letterModel.fields.map Field.name ++ Members.names sent,
        (authored name = reservedName ↔ name = reservedName) := by decide
    exact hall name (List.mem_append.mpr hname)
  · decide

/-- A visitor has a name. -/
def visitorSchema : Members Json :=
  [("properties", .obj [("name", .obj [("type", .str "string")])]), ("required", .arr [.str "name"])]

def visitorModel : Definition :=
  ⟨fallbackName, [], [⟨"name", .primitive .string, true, false, none, [], {}⟩], {}⟩

/-- The name of a visitor is called like the property that objects keep for themselves. -/
def losing : Equiv.Perm String := Equiv.swap "name" reservedName

/-- A required field under the reserved name is not looked at: data without it is accepted. -/
theorem a_field_is_lost_under_the_reserved_name :
    compileSchema visitorSchema = .ok visitorModel ∧ (Json.obj visitorSchema).Distinct ∧
      (∀ ref ∈ (Json.obj visitorSchema).refs, OutsideProperties ref) ∧
      ∃ d', compileSchema (renameSchema losing visitorSchema) = .ok d' ∧
        ¬ AnsweredAlike losing
          (visitorModel.safeParse ⟨fun _ => false, fun _ => false⟩ (.ofJson (.obj [])))
          (d'.safeParse ⟨fun _ => false, fun _ => false⟩
            (.obj .given (Members.rename losing []))) := by
  refine ⟨rfl, ?_, by simp [visitorSchema, Json.refs, Json.refsOfMembers, Json.refsOfItems], _,
    rfl, ?_⟩
  · simp [visitorSchema, Json.Distinct, Json.Every, Json.EveryMember, Json.EveryItem]
  · rintro (⟨clash, _, hclash, -⟩ | ⟨result, result', hresult, hresult', hrenamed⟩)
    · cases hclash
    · cases hresult
      cases hresult'
      cases hrenamed

end JsonModel
