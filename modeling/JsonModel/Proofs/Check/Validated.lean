-- Validators. They run after the fields, and only where nothing has stopped the check of the object. Then
-- each of them says what it has to say about the object that came out, whatever the others do.
import JsonModel.Check.Rule
import JsonModel.Proofs.Check.Overlay
import JsonModel.Proofs.Check.Result

namespace JsonModel

/-! ## What validators say -/

/-- What is said with a verdict: the complaint, which may be empty, or the text of what was raised. -/
def Verdict.said? : Verdict → Option String
  | .pass => none
  | .complain message => some message
  | .raise text => some text

/-- The issues of the validators that have something to say about a value, in their order. -/
def complaints (validators : List Validator) (v : Value) : List Issue :=
  validators.filterMap fun validator =>
    (validator.judge v).said?.map fun text => ⟨[], .validator validator.name text⟩

theorem complaints_eq_flatMap (validators : List Validator) (v : Value) :
    (validators.flatMap fun validator => validator.report v) = complaints validators v := by
  unfold complaints
  induction validators with
  | nil => rfl
  | cons validator validators ih =>
    rw [List.flatMap_cons, ih, List.filterMap_cons]
    unfold Validator.report
    cases validator.judge v <;> rfl

/-- Each validator is asked once, and what the others say does not matter. -/
theorem mem_complaints {validators : List Validator} {v : Value} {issue : Issue} :
    issue ∈ complaints validators v ↔ ∃ validator ∈ validators, ∃ text,
      (validator.judge v).said? = some text ∧ issue = ⟨[], .validator validator.name text⟩ := by
  unfold complaints
  rw [List.mem_filterMap]
  refine exists_congr fun validator => and_congr_right fun _ => ?_
  rw [Option.map_eq_some_iff]
  exact exists_congr fun text => and_congr_right fun _ => eq_comm

/-! ## What stops the check -/

/-- The issue stops the check: a type or a union that does not fit, or a text that is no JSON. -/
def Issue.Stops (issue : Issue) : Prop :=
  issue.fault.code = "invalid_type" ∨ issue.fault.code = "invalid_union" ∨ issue.fault = .badJson

theorem stops_iff {issue : Issue} : issue.Stops ↔ issue.fault.aborts = true := by
  unfold Issue.Stops
  cases issue.fault <;> simp [Fault.code, Fault.aborts]

theorem aborted_iff {o : Outcome} (h : o.halted = false) :
    o.aborted = true ↔ ∃ issue ∈ o.issues, issue.Stops := by
  unfold Outcome.aborted
  rw [h, Bool.false_or, List.any_eq_true]
  simp only [stops_iff]

/-! ## Models without their validators -/

/-- The model without its validators. -/
def Definition.withoutValidators (d : Definition) : Definition :=
  { d with overrides := { d.overrides with validators := [] } }

variable {places : Places} {d : Definition} {v : Value} {o : Outcome}

theorem assemble_halted (mode : ExtraMode) (ms : Members Value) (cs : List (String × Contribution)) :
    (assemble mode ms cs).halted = false := by
  cases mode <;> rfl

/-- Without validators, an object is what its fields and its undeclared keys make it. -/
theorem check_withoutValidators {ms : Members Value} (h : v.members? = some ms) :
    d.withoutValidators.check places v =
      (inOrder (Field.checkAll places d.base v ++ Field.checkAll places d.fields v)).map
        (assemble d.overrides.extra ms) := by
  rw [check_of_members h]
  congr 1
  funext cs
  exact runValidators_nil _

/-- The check of an object is never halted as a whole. -/
theorem withoutValidators_halted (h : d.withoutValidators.check places v = .ok o) :
    o.halted = false := by
  cases hmembers : v.members? with
  | none =>
    rw [check_of_no_members hmembers] at h
    cases h
    rfl
  | some ms =>
    rw [check_withoutValidators hmembers] at h
    obtain ⟨cs, -, rfl⟩ := map_ok_iff.mp h
    exact assemble_halted _ _ _

/-- The validators come last. What is no object has been stopped before. -/
theorem check_eq_runValidators : d.check places v =
    (d.withoutValidators.check places v).map (runValidators d.overrides.validators) := by
  cases hmembers : v.members? with
  | none =>
    rw [check_of_no_members hmembers, check_of_no_members hmembers]
    rfl
  | some ms =>
    rw [check_of_members hmembers, check_withoutValidators hmembers]
    cases inOrder (Field.checkAll places d.base v ++ Field.checkAll places d.fields v) <;> rfl

/-! ## Defaults -/

/-- The field that is checked under a name: of several, the one that is declared last. -/
def Definition.field? (d : Definition) (name : String) : Option Field :=
  (d.base ++ d.fields).reverse.find? fun f => f.name == name

theorem get?_map_field {α : Type _} (g : Field → α) (fields : List Field) (name : String) :
    Members.get? name (fields.map fun f => (f.name, g f)) =
      (fields.find? fun f => f.name == name).map g := by
  induction fields with
  | nil => rfl
  | cons f fields ih =>
    rw [List.map_cons, Members.get?_cons, ih, List.find?_cons]
    by_cases hname : f.name = name
    · simp [hname]
    · rw [if_neg (Ne.symm hname), beq_false_of_ne hname]

/-- What stands under a name is what the field adds that is checked there. -/
theorem get?_inOrder {cs : List (String × Contribution)}
    (hcs : inOrder (Field.checkAll places d.base v ++ Field.checkAll places d.fields v) = .ok cs)
    {name : String} (hname : name ≠ reservedName) {f : Field} (hf : d.field? name = some f) :
    ∃ c, f.contribute places v = .ok c ∧ Members.get? name cs = some c := by
  rw [checkAll_eq_map, checkAll_eq_map, ← List.map_append, inOrder_ok_iff] at hcs
  have hentry : Members.get? name (Members.erase reservedName (Members.ofList
      ((d.base ++ d.fields).map fun f => (f.name, f.contribute places v)))) =
        some (f.contribute places v) := by
    rw [Members.get?_erase, if_neg hname, Members.get?_ofList_last, ← List.map_reverse,
      get?_map_field]
    exact congrArg _ hf
  obtain ⟨c, hc, hanswer⟩ := hcs.found hentry
  exact ⟨c, hanswer, hc⟩

/-- A field with a default adds null where it finds nothing. -/
theorem contribute_filled {f : Field} (hdefault : f.defaultsToNull = true)
    (hread : (v.read? f.name).getD .undefined = .undefined) :
    f.contribute places v = .ok ⟨[], some .null⟩ := by
  unfold Field.contribute
  rw [hread, hdefault]
  cases v.read? f.name <;> rfl

/-- A value has null for each field with a default that the data has nothing for. -/
def Definition.Filled (d : Definition) (v out : Value) : Prop :=
  ∃ values, out = .obj .made values ∧ ∀ name f, name ≠ reservedName → d.field? name = some f →
    f.defaultsToNull = true → (v.read? name).getD .undefined = .undefined →
      Members.get? name values = some .null

theorem name_of_field? {name : String} {f : Field} (h : d.field? name = some f) : f.name = name := by
  unfold Definition.field? at h
  simpa using List.find?_some h

/-- The object that comes out has its defaults filled in. -/
theorem filled_of_check {ms : Members Value} (hmembers : v.members? = some ms)
    (hms : (Members.names ms).Nodup) (h : d.withoutValidators.check places v = .ok o) :
    d.Filled v o.value := by
  rw [check_withoutValidators hmembers] at h
  obtain ⟨cs, hcs, rfl⟩ := map_ok_iff.mp h
  obtain ⟨values, hvalues, -, hget⟩ :=
    get?_assembled d.overrides.extra hms (inOrder_names hcs).1
  refine ⟨values, hvalues, fun name f hname hf hdefault hread => ?_⟩
  obtain ⟨c, hc, hfound⟩ := get?_inOrder hcs hname hf
  rw [← name_of_field? hf] at hread
  rw [contribute_filled hdefault hread] at hc
  cases hc
  rw [hget, hfound]
  rfl

/-! ## Validators after the fields -/

/-- How the validators of a model follow the outcome without them. -/
structure Definition.ValidatesAfter (places : Places) (d : Definition) (v : Value) (o : Outcome) :
    Prop where
  /-- Without validators the outcome is what the model answers. -/
  plain : d.withoutValidators.safeParse places v = .ok o.toResult
  /-- Where something has stopped the check, that is the answer, and no validator is asked. -/
  stopped : (∃ issue ∈ o.issues, issue.Stops) → d.safeParse places v = .ok o.toResult
  /-- Otherwise the value that came out is taken if neither the fields nor a validator has something
  to say about it. -/
  taken : (∀ issue ∈ o.issues, ¬ issue.Stops) →
    o.issues ++ complaints d.overrides.validators o.value = [] →
      d.safeParse places v = .ok (.success o.value)
  /-- And if they have, all that is said is reported, first by the fields, then by the validators. -/
  reported : (∀ issue ∈ o.issues, ¬ issue.Stops) →
    o.issues ++ complaints d.overrides.validators o.value ≠ [] →
      d.safeParse places v =
        .ok (.failure (o.issues ++ complaints d.overrides.validators o.value))
  /-- What validators report is about the whole object. -/
  custom : ∀ issue ∈ complaints d.overrides.validators o.value,
    issue.path = [] ∧ issue.fault.code = "custom"
  /-- The value that validators are asked about has its defaults filled in. -/
  filled : (∀ issue ∈ o.issues, ¬ issue.Stops) →
    (∀ ms, v.members? = some ms → (Members.names ms).Nodup) → d.Filled v o.value

theorem safeParse_of_unstopped (h : d.withoutValidators.check places v = .ok o)
    (hfree : ∀ issue ∈ o.issues, ¬ issue.Stops) :
    d.safeParse places v =
      .ok (if (o.issues ++ complaints d.overrides.validators o.value).isEmpty then .success o.value
        else .failure (o.issues ++ complaints d.overrides.validators o.value)) := by
  have hrun : ¬ o.aborted = true := by
    rw [aborted_iff (withoutValidators_halted h)]
    rintro ⟨issue, hissue, hstops⟩
    exact hfree issue hissue hstops
  unfold Definition.safeParse
  rw [check_eq_runValidators, h]
  unfold runValidators
  simp only [Except.map]
  rw [if_neg hrun, complaints_eq_flatMap]
  rfl

/-- The validators of a model are asked after its fields, about the object that came out, and only where
nothing has stopped the check. None of them can break out, or keep another one from being asked. -/
theorem validators_are_asked_after_the_fields {places : Places} {d : Definition} {v : Value}
    {o : Outcome} (h : d.withoutValidators.check places v = .ok o) :
    d.ValidatesAfter places v o where
  plain := safeParse_of_check h
  stopped := by
    rw [← aborted_iff (withoutValidators_halted h)]
    intro haborted
    apply safeParse_of_check
    rw [check_eq_runValidators, h]
    unfold runValidators
    simp only [Except.map]
    rw [if_pos haborted]
  taken hfree hnone := by
    rw [safeParse_of_unstopped h hfree, hnone]
    rfl
  reported hfree hsome := by
    rw [safeParse_of_unstopped h hfree, if_neg (mt List.isEmpty_iff.mp hsome)]
  custom issue hissue := by
    obtain ⟨_, -, _, -, rfl⟩ := mem_complaints.mp hissue
    exact ⟨rfl, rfl⟩
  filled hfree hnames := by
    cases hmembers : v.members? with
    | none =>
      rw [check_of_no_members hmembers] at h
      cases h
      exact absurd (.inl rfl) (hfree _ List.mem_cons_self)
    | some ms => exact filled_of_check hmembers (hnames ms hmembers) h

/-- A guest has a name, as everyone has, lives somewhere, and may bring something. -/
def guestModel : Definition :=
  ⟨"Guest", [⟨"name", .primitive .string, true, false, none, [], {}⟩],
    [⟨"home", .semantic .directoryPath, true, false, none, [], {}⟩,
      ⟨"gift", .nullable (.primitive .string), false, true, none, [], {}⟩],
    { validators :=
        [⟨"listed", Rule.judge (.raise "no list")⟩, ⟨"known", Rule.judge .pass⟩,
          ⟨"polite", Rule.judge (.present "gift" "")⟩] }⟩

def lostGuest : Value := .obj .given [("name", .str "Ida"), ("home", .str "/nowhere")]

theorem a_lost_guest_is_told_everything :
    ∃ o, guestModel.withoutValidators.check ⟨fun _ => false, fun _ => false⟩ lostGuest = .ok o ∧
      guestModel.ValidatesAfter ⟨fun _ => false, fun _ => false⟩ lostGuest o ∧
      guestModel.safeParse ⟨fun _ => false, fun _ => false⟩ lostGuest =
        .ok (.failure [⟨[.key "home"], .refused "Path does not point to a directory"⟩,
          ⟨[], .validator "listed" "no list"⟩, ⟨[], .validator "polite" ""⟩]) := by
  have hcheck : ∃ o, guestModel.withoutValidators.check ⟨fun _ => false, fun _ => false⟩
      lostGuest = .ok o ∧
        o.issues = [⟨[.key "home"], .refused "Path does not point to a directory"⟩] ∧
        complaints guestModel.overrides.validators o.value =
          [⟨[], .validator "listed" "no list"⟩, ⟨[], .validator "polite" ""⟩] :=
    ⟨_, rfl, rfl, rfl⟩
  obtain ⟨o, ho, hissues, hsaid⟩ := hcheck
  have hafter := validators_are_asked_after_the_fields ho
  refine ⟨o, ho, hafter, ?_⟩
  rw [hafter.reported, hissues, hsaid]
  · rfl
  · rw [hissues]
    simp [stops_iff, Fault.aborts]
  · simp [hissues]

end JsonModel
