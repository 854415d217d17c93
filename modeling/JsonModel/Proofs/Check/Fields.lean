-- The check of an object, from the checks of its fields. Names that every object answers to are set
-- apart: only of the others does reading a key say whether the data has it.
import JsonModel.Proofs.Check.Follow
import JsonModel.Proofs.Check.Parts

namespace JsonModel

/-! ## Reading keys -/

/-- The names that every object answers to, whether it has such a member or not. -/
def inheritedNames : List String := reservedName :: Value.inheritedFunctions.map Prod.fst

/-- No field has a name that every object answers to. -/
def Definition.OwnNames (d : Definition) : Prop := ∀ f ∈ d.fields, f.name ∉ inheritedNames

theorem inherited?_of_own {name : String} (h : name ∉ inheritedNames) (origin : Origin)
    (ms : Members Value) : (Value.obj origin ms).inherited? name = none := by
  unfold Value.inherited?
  simp only [Option.map_eq_none_iff]
  rw [List.lookup_eq_none_iff]
  intro entry hentry
  rw [bne_iff_ne]
  intro heq
  apply h
  rw [heq]
  exact List.mem_cons_of_mem _ (List.mem_map_of_mem hentry)

/-- A key that is not inherited is read as the data has it. -/
theorem read?_ofJson {name : String} (h : name ∉ inheritedNames) (ms : Members Json) :
    (Value.ofJson (.obj ms)).read? name = (ms.get? name).map Value.ofJson := by
  unfold Value.ofJson Value.read?
  rw [inherited?_of_own h]
  simp only [Value.members?, Option.bind_some]
  rw [Value.get?_ofMembers]
  split
  · rename_i hget
    exact hget.symm
  · rename_i hget
    exact hget.symm

theorem read?_obj (origin : Origin) (ms : Members Value) (name : String) :
    (Value.obj origin ms).read? name =
      (Members.get? name ms).or ((Value.inheritedFunctions.lookup name).map .function) := by
  unfold Value.read? Value.inherited?
  simp only [Value.members?, Option.bind_some]
  cases Members.get? name ms <;> rfl

/-- A key that is not inherited is read as it stands. -/
theorem read?_own {name : String} (h : name ∉ inheritedNames) (origin : Origin)
    (ms : Members Value) : (Value.obj origin ms).read? name = ms.get? name := by
  unfold Value.read?
  rw [inherited?_of_own h]
  simp only [Value.members?, Option.bind_some]
  cases ms.get? name <;> rfl

theorem ofJson_ne_undefined (j : Json) : Value.ofJson j ≠ .undefined := by
  cases j <;> simp [Value.ofJson]

/-! ## What a field adds -/

/-- What a field adds to the check of a value. -/
def Field.contribute (places : Places) (f : Field) (v : Value) : Except Clash Contribution :=
  let outcome : Except Clash Outcome :=
    match (v.read? f.name).getD .undefined, f.defaultsToNull with
    | .undefined, true => .ok (.accept .null)
    | value, _ => f.type.check places f.limits value
  outcome.map (contribution f.name (v.read? f.name) f.defaultsToNull)

theorem checkAll_eq_map (places : Places) (fields : List Field) (v : Value) :
    Field.checkAll places fields v = fields.map fun f => (f.name, f.contribute places v) := by
  induction fields with
  | nil => rfl
  | cons f fields ih =>
    obtain ⟨_, _, _, _, _, _, _⟩ := f
    unfold Field.checkAll
    rw [ih]
    rfl

variable {places : Places} {f : Field} {v : Value}

theorem contribute_congr {w : Value} (h : v.read? f.name = w.read? f.name) :
    f.contribute places v = f.contribute places w := by
  unfold Field.contribute
  rw [h]

theorem contribute_found {value : Value} (hread : v.read? f.name = some value)
    (hvalue : value ≠ .undefined) :
    f.contribute places v = (f.type.check places f.limits value).map fun o =>
      ⟨o.issues.map (.under (.key f.name)), some o.value⟩ := by
  unfold Field.contribute
  rw [hread]
  simp only [Option.getD_some]
  split
  · exact absurd rfl hvalue
  · congr 1

theorem contribute_default (hread : v.read? f.name = none) (hdefault : f.defaultsToNull = true) :
    f.contribute places v = .ok ⟨[], some .null⟩ := by
  unfold Field.contribute
  rw [hread, hdefault]
  rfl

/-- A missing value without a default always has an issue, whatever its type makes of it. -/
theorem contribute_missing (hread : v.read? f.name = none) (hdefault : f.defaultsToNull = false)
    {o : Outcome} (ho : f.type.check places f.limits .undefined = .ok o) :
    ∃ issue issues, f.contribute places v = .ok ⟨issue :: issues, none⟩ ∧
      ∀ i ∈ issue :: issues, Outcome.unknownHere? i = none := by
  unfold Field.contribute
  rw [hread, hdefault]
  simp only [Option.getD_none]
  rw [ho]
  cases hissues : o.issues with
  | nil =>
    refine ⟨⟨[.key f.name], .wrongType .presentKey Value.undefined.kindName⟩, [], ?_, ?_⟩
    · simp only [Except.map, contribution, Outcome.accepted, hissues]
      rfl
    · intro i hi
      rw [List.mem_singleton.mp hi]
      rfl
  | cons issue issues =>
    refine ⟨issue.under (.key f.name), issues.map (.under (.key f.name)), ?_, ?_⟩
    · simp only [Except.map, contribution, Outcome.accepted, hissues]
      rfl
    · intro i hi
      rcases List.mem_cons.mp hi with rfl | hi
      · rfl
      · obtain ⟨_, _, rfl⟩ := List.mem_map.mp hi
        rfl

/-- The field accepts what the data has under its name. -/
def Field.fits (places : Places) (f : Field) (ms : Members Json) : Bool :=
  match ms.get? f.name with
  | some j => accepting (f.type.check places f.limits (.ofJson j))
  | none => !f.required

/-- What a field adds follows the data, and has no word on unknown keys. -/
structure Contribution.AddsTo (ms : Members Json) (name : String) (c : Contribution) : Prop where
  follows : ∀ value, c.value = some value → FollowsAt ms name value
  plain : ∀ issue ∈ c.issues, Outcome.unknownHere? issue = none

/-- A field whose type answers adds a value that follows the data, and issues unless it fits. -/
theorem contribute_answers {ms : Members Json} (hown : f.name ∉ inheritedNames)
    (hdefault : f.defaultsToNull = !f.required)
    (hfound : ∀ j, ms.get? f.name = some j →
      Answers (Follows j) (f.type.check places f.limits (.ofJson j)))
    (hmissing : ∃ o, f.type.check places f.limits .undefined = .ok o) :
    ∃ c, f.contribute places (.ofJson (.obj ms)) = .ok c ∧ c.AddsTo ms f.name ∧
      c.issues.isEmpty = f.fits places ms := by
  have hread := read?_ofJson hown ms
  unfold Field.fits
  cases hget : ms.get? f.name with
  | some j =>
    rw [hget] at hread
    obtain ⟨o, ho, hfollows, -⟩ := hfound j hget
    rw [contribute_found hread (ofJson_ne_undefined j), ho]
    refine ⟨_, rfl, ⟨?_, ?_⟩, ?_⟩
    · rintro value heq
      cases heq
      refine ⟨fun d hd => ?_, fun hnone => by simp [hget] at hnone⟩
      rw [hget] at hd
      cases hd
      exact hfollows
    · intro issue hissue
      obtain ⟨_, _, rfl⟩ := List.mem_map.mp hissue
      rfl
    · simp only [List.isEmpty_map, ho]
      rfl
  | none =>
    rw [hget] at hread
    cases hrequired : f.required with
    | false =>
      rw [contribute_default hread (by rw [hdefault, hrequired]; rfl)]
      refine ⟨_, rfl, ⟨?_, by simp⟩, rfl⟩
      rintro value heq
      cases heq
      exact ⟨fun d hd => by simp [hget] at hd, fun _ => rfl⟩
    | true =>
      obtain ⟨o, ho⟩ := hmissing
      obtain ⟨issue, issues, hc, hplain⟩ :=
        contribute_missing hread (by rw [hdefault, hrequired]; rfl) ho
      exact ⟨_, hc, ⟨by simp, hplain⟩, rfl⟩

/-! ## Putting fields together -/

/-- Fields are put in order exactly if all of them answer. -/
theorem inOrder_ok_iff {entries : List (String × Except Clash Contribution)}
    {cs : List (String × Contribution)} : inOrder entries = .ok cs ↔
      Members.Pairs (fun _ r c => r = .ok c)
        (Members.erase reservedName (Members.ofList entries)) cs := by
  unfold inOrder
  rw [mapM_ok_iff]
  constructor
  · refine List.Forall₂.imp ?_
    rintro ⟨name, r⟩ c hentry
    obtain ⟨answer, rfl, rfl⟩ := map_ok_iff.mp hentry
    exact ⟨rfl, rfl⟩
  · refine List.Forall₂.imp ?_
    rintro ⟨name, r⟩ ⟨name', c⟩ ⟨hname, hr⟩
    cases hname
    cases hr
    rfl

/-- Fields of distinct names that all answer are all there, in some order. -/
theorem inOrder_answers {entries : List (String × Except Clash Contribution)}
    (hnames : (entries.map Prod.fst).Nodup) (hown : reservedName ∉ entries.map Prod.fst)
    (hok : ∀ entry ∈ entries, ∃ c, entry.2 = .ok c) :
    ∃ cs, inOrder entries = .ok cs ∧ ∀ name c, (name, c) ∈ cs ↔ (name, .ok c) ∈ entries := by
  have hperm := Members.ofList_perm hnames
  have hreserved : reservedName ∉ Members.names (Members.ofList entries) := by
    intro hmem
    exact hown ((hperm.map Prod.fst).mem_iff.mp hmem)
  simp only [inOrder_ok_iff, Members.erase_eq_self hreserved]
  have hall : ∀ entry ∈ Members.ofList entries, ∃ c : String × Contribution,
      entry.1 = c.1 ∧ entry.2 = .ok c.2 := by
    intro entry hmem
    obtain ⟨c, hc⟩ := hok entry (hperm.mem_iff.mp hmem)
    exact ⟨(entry.1, c), rfl, hc⟩
  obtain ⟨cs, hcs⟩ := exists_forall₂ hall
  refine ⟨cs, hcs, fun name c => ⟨fun hmem => ?_, fun hmem => ?_⟩⟩
  · obtain ⟨⟨name', r⟩, hentry, hname, hr⟩ := exists_of_forall₂ hcs.flip hmem
    cases hname
    cases hr
    exact hperm.mem_iff.mp hentry
  · obtain ⟨⟨name', c'⟩, hmem', hname, hr⟩ := exists_of_forall₂ hcs (hperm.mem_iff.mpr hmem)
    cases hname
    cases hr
    exact hmem'

/-- The names in order are those of the fields, the reserved one aside, and none is there twice. -/
theorem inOrder_names {entries : List (String × Except Clash Contribution)}
    {cs : List (String × Contribution)} (h : inOrder entries = .ok cs) :
    (cs.map Prod.fst).Nodup ∧
      ∀ name, name ∈ cs.map Prod.fst ↔ name ∈ entries.map Prod.fst ∧ name ≠ reservedName := by
  have hnames : cs.map Prod.fst =
      Members.names (Members.erase reservedName (Members.ofList entries)) :=
    (inOrder_ok_iff.mp h).names_eq.symm
  rw [hnames]
  constructor
  · exact (Members.nodup_ofList entries).sublist (List.filter_sublist.map Prod.fst)
  · intro name
    rw [← Members.mem_names_ofList]
    unfold Members.names Members.erase
    simp only [List.mem_map, List.mem_filter, bne_iff_ne]
    constructor
    · rintro ⟨m, ⟨hm, hne⟩, rfl⟩
      exact ⟨⟨m, hm, rfl⟩, hne⟩
    · rintro ⟨⟨m, hm, rfl⟩, hne⟩
      exact ⟨m, ⟨hm, hne⟩, rfl⟩

theorem runValidators_nil (o : Outcome) : runValidators [] o = o := by
  unfold runValidators
  split
  · rfl
  · simp

theorem runValidators_accepted {validators : List Validator} {o : Outcome}
    (h : (runValidators validators o).issues = []) : o.issues = [] := by
  unfold runValidators at h
  split at h
  · exact h
  · exact (List.append_eq_nil_iff.mp h).1

section

variable {d : Definition}

/-- The check of a value that counts as an object puts the fields in order, looks at the undeclared
keys, and runs the validators last. -/
theorem check_of_members {ms : Members Value} (h : v.members? = some ms) :
    d.check places v =
      (inOrder (Field.checkAll places d.base v ++ Field.checkAll places d.fields v)).map fun cs =>
        runValidators d.overrides.validators (assemble d.overrides.extra ms cs) := by
  obtain ⟨_, _, _, _⟩ := d
  unfold Definition.check
  simp only [h]
  cases inOrder (Field.checkAll places _ v ++ Field.checkAll places _ v) <;> rfl

theorem check_of_no_members (h : v.members? = none) :
    d.check places v = .ok (wrongType .object v) := by
  obtain ⟨_, _, _, _⟩ := d
  unfold Definition.check
  simp only [h]

end

theorem followsAt_ofMembers {ms : Members Json} (hdata : (Json.obj ms).IsData) {name : String}
    {value : Value} (h : (name, value) ∈ Value.ofMembers ms) : FollowsAt ms name value := by
  have hself := follows_ofJson hdata
  unfold Value.ofJson at hself
  exact follows_obj_iff.mp hself name value h

/-- The values that fields add, under their names. -/
def addedValues (cs : List (String × Contribution)) : Members Value :=
  cs.filterMap fun (name, c) => c.value.map fun value => (name, value)

theorem mem_addedValues {cs : List (String × Contribution)} {name : String} {value : Value} :
    (name, value) ∈ addedValues cs ↔ ∃ c, (name, c) ∈ cs ∧ c.value = some value := by
  unfold addedValues
  rw [List.mem_filterMap]
  constructor
  · rintro ⟨⟨_, c⟩, hc, hvalue⟩
    obtain ⟨_, hvalue, heq⟩ := Option.map_eq_some_iff.mp hvalue
    cases heq
    exact ⟨c, hc, hvalue⟩
  · rintro ⟨c, hc, hvalue⟩
    exact ⟨_, hc, by simp [hvalue]⟩

/-- Whatever is done with undeclared keys, the object made follows the data. -/
theorem assemble_follows {ms : Members Json} (hdata : (Json.obj ms).IsData)
    {cs : List (String × Contribution)} (h : ∀ name c, (name, c) ∈ cs → c.AddsTo ms name)
    (mode : ExtraMode) : Follows (.obj ms) (assemble mode (Value.ofMembers ms) cs).value := by
  have hvalues : ∀ name value, (name, value) ∈ addedValues cs → FollowsAt ms name value := by
    intro name value hmem
    obtain ⟨c, hc, hvalue⟩ := mem_addedValues.mp hmem
    exact (h name c hc).follows value hvalue
  unfold assemble
  cases mode with
  | ignore =>
    exact follows_obj_iff.mpr fun name value hmem =>
      hvalues name value (Members.mem_of_mem_ofList hmem)
  | forbid =>
    exact follows_obj_iff.mpr fun name value hmem =>
      hvalues name value (Members.mem_of_mem_ofList hmem)
  | allow =>
    refine follows_obj_iff.mpr fun name value hmem => ?_
    rcases List.mem_append.mp (Members.mem_of_mem_ofList hmem) with hmem | hmem
    · exact hvalues name value hmem
    · exact followsAt_ofMembers hdata (List.mem_filter.mp hmem).1

/-- Where undeclared keys are ignored, all issues are those of the fields. -/
theorem assemble_ignore (ms : Members Value) (cs : List (String × Contribution)) :
    (assemble .ignore ms cs).issues = cs.flatMap fun (_, c) => c.issues := rfl

/-- An object is accepted exactly if no field adds an issue and, where undeclared keys are
forbidden, there are none. -/
theorem assemble_accepted_iff {mode : ExtraMode} {ms : Members Value}
    {cs : List (String × Contribution)} : (assemble mode ms cs).accepted = true ↔
      (∀ name c, (name, c) ∈ cs → c.issues = []) ∧
        (mode = .forbid → undeclared (cs.map Prod.fst) ms = []) := by
  have hclean : (cs.flatMap fun (_, c) => c.issues) = [] ↔
      ∀ name c, (name, c) ∈ cs → c.issues = [] := by
    rw [List.flatMap_eq_nil_iff]
    exact ⟨fun h name c hc => h (name, c) hc, fun h m hm => h m.1 m.2 hm⟩
  unfold Outcome.accepted
  rw [List.isEmpty_iff]
  cases mode with
  | ignore | allow =>
    unfold assemble
    simp [hclean]
  | forbid =>
    unfold assemble
    simp only [List.append_eq_nil_iff, hclean, forall_const]
    cases undeclared (cs.map Prod.fst) ms <;> simp

theorem names_addedValues (cs : List (String × Contribution)) :
    (Members.names (addedValues cs)).Sublist (cs.map Prod.fst) := by
  unfold addedValues Members.names
  induction cs with
  | nil => exact .slnil
  | cons m cs ih =>
    obtain ⟨name, c⟩ := m
    rw [List.filterMap_cons]
    simp only
    cases c.value with
    | none => exact ih.cons name
    | some value => exact ih.cons_cons name

theorem get?_addedValues {cs : List (String × Contribution)} (hcs : (cs.map Prod.fst).Nodup)
    (name : String) :
    Members.get? name (addedValues cs) = (Members.get? name cs).bind Contribution.value := by
  ext value
  rw [Members.get?_eq_some_iff (hcs.sublist (names_addedValues cs)), mem_addedValues,
    Option.bind_eq_some_iff]
  exact exists_congr fun c => and_congr_left fun _ => (Members.get?_eq_some_iff hcs).symm

theorem get?_undeclared (declared : List String) (ms : Members Value) (name : String) :
    Members.get? name (undeclared declared ms) =
      if name ≠ reservedName ∧ name ∉ declared then Members.get? name ms else none := by
  unfold undeclared
  rw [Members.get?_filter fun name => name != reservedName && !declared.contains name]
  simp only [Bool.and_eq_true, bne_iff_ne, Bool.not_eq_true', List.contains_eq_mem,
    decide_eq_false_iff_not]

/-- What stands under each name of the object made: what the field of that name adds, or else, where
undeclared members are kept, what the data has there. -/
theorem get?_assembled (mode : ExtraMode) {ms : Members Value} (hms : (Members.names ms).Nodup)
    {cs : List (String × Contribution)} (hcs : (cs.map Prod.fst).Nodup) :
    ∃ values : Members Value, (assemble mode ms cs).value = .obj .made values ∧
      (Members.names values).Nodup ∧ ∀ name, values.get? name =
        ((Members.get? name cs).bind Contribution.value).or
          (if mode = .allow ∧ name ≠ reservedName ∧ name ∉ cs.map Prod.fst then
            Members.get? name ms else none) := by
  have hnodup := hcs.sublist (names_addedValues cs)
  have hdeclared : ∀ mode : ExtraMode, mode ≠ .allow → ∀ name, (Members.ofList (addedValues cs)).get? name =
      ((Members.get? name cs).bind Contribution.value).or
        (if mode = .allow ∧ name ≠ reservedName ∧ name ∉ cs.map Prod.fst then
          Members.get? name ms else none) := by
    intro mode hmode name
    rw [Members.get?_ofList hnodup, get?_addedValues hcs, if_neg fun h => hmode h.1,
      Option.or_none]
  cases mode with
  | ignore => exact ⟨_, rfl, Members.nodup_ofList _, hdeclared .ignore (by simp)⟩
  | forbid => exact ⟨_, rfl, Members.nodup_ofList _, hdeclared .forbid (by simp)⟩
  | allow =>
    refine ⟨_, rfl, Members.nodup_ofList _, fun name => ?_⟩
    have hall : ((addedValues cs ++ undeclared (cs.map Prod.fst) ms).map Prod.fst).Nodup := by
      rw [List.map_append, List.nodup_append]
      refine ⟨hnodup, hms.sublist (List.filter_sublist.map Prod.fst), ?_⟩
      rintro name hname _ hother rfl
      obtain ⟨value, hvalue⟩ := Members.exists_get?_iff.mpr hother
      rw [get?_undeclared, if_neg fun h => h.2 ((names_addedValues cs).subset hname)] at hvalue
      simp at hvalue
    have hget := Members.get?_ofList hall name
    rw [Members.get?_append, get?_addedValues hcs, get?_undeclared] at hget
    simp only [true_and]
    exact hget

end JsonModel
