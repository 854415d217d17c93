-- Bounds on numbers. What is reported of a number that the data has for a property are the bounds it
-- breaks, one by one and in their order, and this does not change where null would be taken too: a number
-- that breaks a bound is still a number, so that the union with null reports what the number type does.
import JsonModel.Proofs.Check.Checked
import JsonModel.Proofs.Check.Optional
import JsonModel.Proofs.Check.Validated
import JsonModel.Proofs.Compile.Rewrite
import JsonModel.Proofs.Number.Order

namespace JsonModel

/-! ## Numbers and their bounds -/

/-- A bound that a node may put on a number. -/
structure Bound where
  keyword : String
  /-- Whether a number keeps the bound, given what is set. -/
  keeps : Number → Number → Bool
  fault : Number → Fault

/-- The bounds, in the order in which they are reported. -/
def bounds : List Bound :=
  [⟨"minimum", fun least n => least.le n, (.belowRange · true)⟩,
    ⟨"exclusiveMinimum", fun least n => least.lt n, (.belowRange · false)⟩,
    ⟨"maximum", fun most n => n.le most, (.aboveRange · true)⟩,
    ⟨"exclusiveMaximum", fun most n => n.lt most, (.aboveRange · false)⟩,
    ⟨"multipleOf", fun step n => n.isMultipleOf step, .notMultiple⟩]

/-- The fault of a number that breaks a bound which a node sets. -/
def Bound.fault? (bound : Bound) (node : Members Json) (n : Number) : Option Fault :=
  (numberAt node bound.keyword).bind fun b => if bound.keeps b n then none else some (bound.fault b)

/-- The faults of a number: one for each bound of a node that it breaks. -/
def brokenBounds (node : Members Json) (n : Number) : List Fault :=
  bounds.filterMap fun bound => bound.fault? node n

/-- The fault of a whole number, where one is wanted, that is beyond the safe range. -/
def beyondSafeRange (kind : Primitive) (n : Number) : List Fault :=
  match kind, n.toInt? with
  | .integer, some k =>
    if 9007199254740991 < k then [.aboveSafeRange]
    else if k < -9007199254740991 then [.belowSafeRange]
    else []
  | _, _ => []

/-- What is reported, under the name of a property, of a number that its node describes. -/
def numberIssues (name : String) (kind : Primitive) (node : Members Json) (n : Number) :
    List Issue :=
  (beyondSafeRange kind n ++ brokenBounds node n).map fun fault => ⟨[.key name], fault⟩

/-- A node describes a number: its type counts, and is one of the two that are numbers. -/
structure DescribesNumber (kind : Primitive) (node : Members Json) : Prop where
  reads_type : readsType node = true
  type_eq : node.get? "type" = some (.str kind.name)
  numeric : kind = .integer ∨ kind = .number

/-- A number is finite, and whole if the kind wants whole numbers. -/
structure Primitive.Admits (kind : Primitive) (n : Number) : Prop where
  finite : n.isFinite = true
  whole : kind = .integer → n.isWhole = true

section

variable {kind : Primitive} {node : Members Json} {limits : Limits} {n : Number}

theorem boundFault_eq_toList (bound : Bound) :
    boundFault (numberAt node bound.keyword) (fun b => bound.keeps b n) bound.fault =
      (bound.fault? node n).toList := by
  unfold boundFault Bound.fault?
  cases numberAt node bound.keyword with
  | none => rfl
  | some b => cases hkeeps : bound.keeps b n <;> simp [hkeeps]

/-- The limits that a node puts on a number find the bounds that it breaks. -/
theorem numberFaults_numberLimits : (numberLimits node).numberFaults n = brokenBounds node n := by
  have hbounds : (numberLimits node).numberFaults n = bounds.flatMap fun bound =>
      boundFault (numberAt node bound.keyword) (fun b => bound.keeps b n) bound.fault := by
    simp [bounds, Limits.numberFaults, numberLimits]
  rw [hbounds]
  simp only [boundFault_eq_toList]
  exact (List.filterMap_eq_flatMap_toList _ _).symm

theorem safeRangeFaults_eq (h : n.isWhole = true) :
    safeRangeFaults n = beyondSafeRange .integer n := by
  obtain ⟨k, hk⟩ := Number.isWhole_iff.mp h
  unfold safeRangeFaults beyondSafeRange
  rw [hk]
  simp only [Number.maxSafe_lt_iff hk, Number.lt_minSafe_iff hk]

/-- The check of a number leaves it as it is, and looks at the safe range before the bounds. -/
theorem check_number (hkind : kind = .integer ∨ kind = .number) (hn : kind.Admits n) :
    kind.check limits (.num n) =
      .keep (.num n) (beyondSafeRange kind n ++ limits.numberFaults n) := by
  rcases hkind with rfl | rfl
  · simp [Primitive.check, hn.finite, hn.whole rfl, safeRangeFaults_eq]
  · simp [Primitive.check, hn.finite, beyondSafeRange]

theorem aborted_keep (v : Value) (faults : List Fault) :
    (Outcome.keep v faults).aborted = faults.any Fault.aborts := by
  unfold Outcome.aborted Outcome.keep
  rw [Bool.false_or, List.any_map]
  rfl

/-- No bound that is broken stops the check. -/
theorem brokenBounds_free : ∀ fault ∈ brokenBounds node n, fault.aborts = false := by
  intro fault hfault
  have hbound : ∀ bound ∈ bounds, ∀ b, (bound.fault b).aborts = false := by
    simp [bounds, Fault.aborts]
  unfold brokenBounds Bound.fault? at hfault
  obtain ⟨bound, hmem, hfound⟩ := List.mem_filterMap.mp hfault
  obtain ⟨b, -, hb⟩ := Option.bind_eq_some_iff.mp hfound
  split at hb
  · simp at hb
  · cases hb
    exact hbound bound hmem b

theorem beyondSafeRange_free : ∀ fault ∈ beyondSafeRange kind n, fault.aborts = false := by
  unfold beyondSafeRange
  split
  · split
    · simp [Fault.aborts]
    · split <;> simp [Fault.aborts]
  · simp

end

/-! ## Numbers and null -/

/-- Where a check is not stopped, taking null too changes nothing but for null: null alone would be
another variant, and that one does not fit. -/
theorem check_union_null {places : Places} {t : TypeDescriptor} {limits : Limits} {v : Value}
    {o : Outcome} (h : t.check places limits v = .ok o) (hfree : o.aborted = false) (hv : v ≠ .null) :
    (TypeDescriptor.union [t, .primitive .null]).check places limits v = .ok o := by
  have hnull : (TypeDescriptor.primitive .null).check places limits v = .ok (wrongType .null v) := by
    cases v with
    | null => exact absurd rfl hv
    | _ => rfl
  have hrest : TypeDescriptor.checkVariants places [.primitive .null] limits v =
      .ok (.inr [wrongType .null v]) := by
    unfold TypeDescriptor.checkVariants TypeDescriptor.checkVariants
    rw [hnull]
    rfl
  rw [union_check (by simp)]
  unfold TypeDescriptor.checkVariants
  rw [h]
  simp only [bind, Except.bind, hrest]
  cases haccepted : o.accepted with
  | true => rfl
  | false =>
    have honly : noVariantOutcome v [o, wrongType .null v] = o := by
      have hstopped : (wrongType .null v).aborted = true := rfl
      simp [noVariantOutcome, hfree, hstopped]
    exact congrArg Except.ok honly

section

variable {places : Places} {kind : Primitive} {node : Members Json} {name : String}
  {requiredNames : List String} {n : Number}

/-- The field of a number answers to it with the bounds that it breaks, required or not. -/
theorem check_fieldOf_number (hkind : kind = .integer ∨ kind = .number) (hn : kind.Admits n) :
    (fieldOf requiredNames name node (.primitive kind)).type.check places
        (fieldOf requiredNames name node (.primitive kind)).limits (.num n) =
      .ok (.keep (.num n) (beyondSafeRange kind n ++ brokenBounds node n)) := by
  have hrefine : refine (.primitive kind) node = (.primitive kind, numberLimits node) := by
    rcases hkind with rfl | rfl <;> rfl
  have hnullable : (TypeDescriptor.primitive kind).nullable =
      .union [.primitive kind, .primitive .null] := by
    rcases hkind with rfl | rfl <;> rfl
  have hplain : (TypeDescriptor.primitive kind).check places (numberLimits node) (.num n) =
      .ok (.keep (.num n) (beyondSafeRange kind n ++ brokenBounds node n)) := by
    unfold TypeDescriptor.check
    rw [check_number hkind hn, numberFaults_numberLimits]
  unfold fieldOf
  simp only [hrefine, hnullable]
  cases requiredNames.contains name with
  | true => exact hplain
  | false =>
    refine check_union_null hplain ?_ (by simp)
    rw [aborted_keep, List.any_append, Bool.or_eq_false_iff]
    exact ⟨by simpa using beyondSafeRange_free, by simpa using brokenBounds_free⟩

theorem contribute_number {v : Value} (hkind : kind = .integer ∨ kind = .number)
    (hn : kind.Admits n) (hread : v.read? name = some (.num n)) :
    (fieldOf requiredNames name node (.primitive kind)).contribute places v =
      .ok ⟨numberIssues name kind node n, some (.num n)⟩ := by
  rw [contribute_found (f := fieldOf requiredNames name node (.primitive kind)) hread (by simp)]
  rw [check_fieldOf_number hkind hn]
  unfold numberIssues Outcome.keep
  simp only [Except.map, List.map_map]
  rfl

end

/-! ## What is reported under a name -/

/-- The issues that lie under a name. -/
def issuesUnder (name : String) (issues : List Issue) : List Issue :=
  issues.filter fun issue => issue.path.head? = some (.key name)

/-- The issues of an answer. -/
def ParseResult.issues : ParseResult → List Issue
  | .success _ => []
  | .failure issues => issues

theorem issues_toResult (o : Outcome) : o.toResult.issues = o.issues := by
  unfold Outcome.toResult Outcome.accepted
  cases hissues : o.issues <;> simp [ParseResult.issues]

/-- What each field adds lies under its own name. -/
def UnderNames (cs : List (String × Contribution)) : Prop :=
  ∀ name c, (name, c) ∈ cs → ∀ issue ∈ c.issues, issue.path.head? = some (.key name)

section

variable {cs : List (String × Contribution)} {name : String} {c : Contribution}

theorem issuesUnder_entry (hunder : UnderNames cs) {m : String × Contribution} (hm : m ∈ cs) :
    issuesUnder name m.2.issues = if m.1 = name then m.2.issues else [] := by
  unfold issuesUnder
  split
  · rename_i hname
    rw [List.filter_eq_self]
    intro issue hissue
    simp [hunder m.1 m.2 hm issue hissue, hname]
  · rename_i hother
    rw [List.filter_eq_nil_iff]
    intro issue hissue
    simpa [hunder m.1 m.2 hm issue hissue] using hother

/-- What stands under a name is all there is of that name. -/
theorem flatMap_found (hnames : (cs.map Prod.fst).Nodup) (hc : Members.get? name cs = some c) :
    (cs.flatMap fun m => if m.1 = name then m.2.issues else []) = c.issues := by
  induction cs with
  | nil => simp at hc
  | cons m cs ih =>
    obtain ⟨hfresh, hnames⟩ := List.nodup_cons.mp hnames
    rw [List.flatMap_cons]
    rw [Members.get?_cons] at hc
    by_cases hname : name = m.1
    · rw [if_pos hname] at hc
      cases hc
      have hothers : (cs.flatMap fun m => if m.1 = name then m.2.issues else []) = [] := by
        rw [List.flatMap_eq_nil_iff]
        intro m' hm'
        have hother : m'.1 ≠ name := by
          rintro rfl
          exact hfresh (hname ▸ List.mem_map_of_mem hm')
        exact if_neg hother
      rw [if_pos hname.symm, hothers, List.append_nil]
    · rw [if_neg hname] at hc
      rw [if_neg (Ne.symm hname), List.nil_append]
      exact ih hnames hc

/-- Of all that the fields report, what lies under a name is what the field of that name adds. -/
theorem issuesUnder_flatMap (hunder : UnderNames cs) (hnames : (cs.map Prod.fst).Nodup)
    (hc : Members.get? name cs = some c) :
    issuesUnder name (cs.flatMap fun m => m.2.issues) = c.issues := by
  rw [← flatMap_found hnames hc]
  unfold issuesUnder
  rw [List.filter_flatMap]
  exact List.flatMap_congr fun m hm => issuesUnder_entry hunder hm

theorem issuesUnder_assemble {mode : ExtraMode} {ms : Members Value} (hunder : UnderNames cs)
    (hnames : (cs.map Prod.fst).Nodup) (hc : Members.get? name cs = some c) :
    issuesUnder name (assemble mode ms cs).issues = c.issues := by
  rw [← issuesUnder_flatMap hunder hnames hc]
  cases mode with
  | ignore | allow => rfl
  | forbid =>
    unfold assemble issuesUnder
    simp only [List.filter_append, List.append_right_eq_self, List.filter_eq_nil_iff]
    intro issue hissue
    split at hissue
    · simp at hissue
    · simp [List.mem_singleton.mp hissue, Issue.here]

/-- A value that a field adds comes out under its name, whatever is done with undeclared keys. -/
theorem get?_assembled_added {mode : ExtraMode} {ms : Members Value} {value : Value}
    (hnames : (cs.map Prod.fst).Nodup) (hc : Members.get? name cs = some c)
    (hvalue : c.value = some value) : ∃ values, (assemble mode ms cs).value = .obj .made values ∧
      Members.get? name values = some value := by
  have hlast : ∀ extra : Members Value, Members.get? name extra.reverse = none →
      Members.get? name (Members.ofList (addedValues cs ++ extra)) = some value := by
    intro extra hextra
    have hadded : Members.get? name (Members.ofList (addedValues cs)) = some value := by
      rw [Members.get?_ofList (hnames.sublist (names_addedValues cs)), get?_addedValues hnames, hc]
      exact hvalue
    rw [Members.get?_ofList_last] at hadded
    rw [Members.get?_ofList_last, List.reverse_append, Members.get?_append, hextra, hadded]
    rfl
  have hnothing := hlast [] rfl
  rw [List.append_nil] at hnothing
  cases mode with
  | ignore | forbid => exact ⟨_, rfl, hnothing⟩
  | allow =>
    refine ⟨_, rfl, hlast _ ?_⟩
    have hname : name ∈ cs.map Prod.fst := Members.exists_get?_iff.mp ⟨c, hc⟩
    rw [Members.get?_eq_none_iff]
    unfold Members.names
    rw [List.map_reverse, List.mem_reverse]
    apply Members.get?_eq_none_iff.mp
    rw [get?_undeclared, if_neg fun h => h.2 hname]

end

/-! ## Models of numbers -/

section

variable {places : Places} {schema node : Members Json} {root : Option (Members Json)}
  {overrides : Overrides} {d m : Definition} {name : String} {kind : Primitive} {n : Number}
  {data : Value} {ms : Members Value} {cs : List (String × Contribution)}

/-- A field of a model's own is the one that is checked, if the model has no other of its name. -/
theorem field?_of_own {f : Field} (hnames : (d.fields.map Field.name).Nodup) (hf : f ∈ d.fields) :
    d.field? f.name = some f := by
  have hfound : (d.fields.reverse.find? fun g => g.name == f.name) = some f := by
    cases hfind : d.fields.reverse.find? fun g => g.name == f.name with
    | none => simpa using List.find?_eq_none.mp hfind f (List.mem_reverse.mpr hf)
    | some g =>
      have hg : g ∈ d.fields := List.mem_reverse.mp (List.mem_of_find?_eq_some hfind)
      have hsame : g.name = f.name := by simpa using List.find?_some hfind
      rw [List.inj_on_of_nodup_map hnames hg hf hsame]
  unfold Definition.field?
  rw [List.reverse_append, List.find?_append, hfound]
  rfl

/-- Under the name of a property, a compiled model checks what the node of the property gives. -/
theorem field?_of_compile (h : compileSchema schema root overrides = .ok d)
    (hschema : (Json.obj schema).Distinct) (hproperty : (name, .obj node) ∈ propertiesOf schema) :
    ∃ base, Settled (root.getD schema) (some (titleCase name)) node base ∧
      d.field? name = some (fieldOf (textsOf (schema.get? "required")) name node base) := by
  unfold compileSchema at h
  obtain ⟨fields, hfields, rfl⟩ := buildDefinition_ok_iff.mp h
  obtain ⟨f, hf, child, base, hchild, hbase, rfl⟩ := exists_of_forall₂ hfields hproperty
  cases hchild
  refine ⟨base, hbase, field?_of_own (f := fieldOf _ name node base) ?_ hf⟩
  rw [names_of_fieldsFrom hfields]
  exact properties_nodup hschema

theorem underNames_of_inOrder
    (h : inOrder (Field.checkAll places d.base data ++ Field.checkAll places d.fields data) =
      .ok cs) : UnderNames cs := by
  intro name c hc
  obtain ⟨m, hm, hname, hadded⟩ := exists_of_forall₂ (inOrder_checked_iff.mp h).flip hc
  obtain ⟨-, heq, -⟩ := mem_of_mem_checked hm
  have hkey : name = m.2.name := hname.trans heq
  rw [hkey]
  exact contribute_paths hadded

theorem DescribesNumber.settled {root : Members Json} {hint : Option String}
    (h : DescribesNumber kind node) : Settled root hint node (.primitive kind) := by
  refine settled_scalar h.reads_type h.type_eq ?_
  rcases h.numeric with rfl | rfl <;> rfl

/-- Of a number that the data has for a property it is reported, under the name of the property, whether
it is beyond the safe range, and then each bound that it breaks, in their order, be the property
required or not. If nothing at all is reported, the number comes out as it is. The model is that of the
schema, or one that extends it or is extended by it without another field of that name. -/
theorem a_number_is_told_of_each_bound_it_breaks
    (h : compileSchema schema root overrides = .ok d) (hschema : (Json.obj schema).Distinct)
    (hproperty : (name, .obj node) ∈ propertiesOf schema) (hname : name ≠ reservedName)
    (hnode : DescribesNumber kind node) (hn : kind.Admits n)
    (hchecked : m.field? name = d.field? name) (hvalidators : m.overrides.validators = [])
    (hdata : data.members? = some ms) (hread : data.read? name = some (.num n)) {result : ParseResult}
    (hresult : m.safeParse places data = .ok result) :
    issuesUnder name result.issues = numberIssues name kind node n ∧
      ∀ out, result = .success out →
        ∃ values, out = .obj .made values ∧ Members.get? name values = some (.num n) := by
  obtain ⟨base, hbase, hfield⟩ := field?_of_compile h hschema hproperty
  obtain rfl := hbase.unique hnode.settled
  rw [← hchecked] at hfield
  unfold Definition.safeParse at hresult
  rw [check_of_members hdata, hvalidators] at hresult
  simp only [runValidators_nil] at hresult
  obtain ⟨o, ho, rfl⟩ := map_ok_iff.mp hresult
  obtain ⟨cs, hcs, rfl⟩ := map_ok_iff.mp ho
  obtain ⟨c, hadded, hc⟩ := get?_inOrder hcs hname hfield
  rw [contribute_number hnode.numeric hn hread] at hadded
  cases hadded
  have hnames := (inOrder_names hcs).1
  rw [issues_toResult]
  refine ⟨issuesUnder_assemble (underNames_of_inOrder hcs) hnames hc, fun out hout => ?_⟩
  obtain ⟨-, rfl⟩ := toResult_eq_success.mp hout
  exact get?_assembled_added hnames hc rfl

end

/-- A table may say how many seats it has, but no number of seats is right. -/
def tableSchema : Members Json :=
  [("properties", .obj
    [("seats", .obj
      [("type", .str "integer"), ("multipleOf", .num (.ofNat 4)), ("maximum", .num (.ofNat 6)),
        ("minimum", .num (.ofNat 8))])])]

def tableModel : Definition :=
  ⟨fallbackName, [],
    [⟨"seats", .nullable (.primitive .integer), false, true, none, [],
      { atLeast := some (.ofNat 8), atMost := some (.ofNat 6), multipleOf := some (.ofNat 4) }⟩], {}⟩

/-- A piece of furniture describes its seats in words. -/
def furnitureFields : List Field := [⟨"seats", .primitive .string, true, false, none, [], {}⟩]

def sevenSeats : Value := .obj .given [("seats", .num (.ofNat 7))]

theorem a_table_of_seven_breaks_three_bounds :
    compileSchema tableSchema = .ok tableModel ∧
      ∃ result, (tableModel.extend furnitureFields []).safeParse ⟨fun _ => false, fun _ => false⟩
          sevenSeats = .ok result ∧
        (issuesUnder "seats" result.issues).map (fun issue => (issue.path, issue.fault.code)) =
          [([.key "seats"], "too_small"), ([.key "seats"], "too_big"),
            ([.key "seats"], "not_multiple_of")] := by
  have hcompile : compileSchema tableSchema = .ok tableModel := rfl
  have hdistinct : (Json.obj tableSchema).Distinct := by
    simp [tableSchema, Json.Distinct, Json.Every, Json.EveryMember]
  have hseven : Primitive.integer.Admits (.ofNat 7) := ⟨by decide +kernel, fun _ => by decide +kernel⟩
  have hchecked : (tableModel.extend furnitureFields []).field? "seats" =
      tableModel.field? "seats" := rfl
  have hread : sevenSeats.read? "seats" = some (.num (.ofNat 7)) := rfl
  have hanswers : ((tableModel.extend furnitureFields []).safeParse
      ⟨fun _ => false, fun _ => false⟩ sevenSeats).isOk = true := by
    decide +kernel
  cases hresult : (tableModel.extend furnitureFields []).safeParse
      ⟨fun _ => false, fun _ => false⟩ sevenSeats with
  | error clash => simp [hresult, Except.isOk, Except.toBool] at hanswers
  | ok result =>
    obtain ⟨htold, -⟩ := a_number_is_told_of_each_bound_it_breaks hcompile hdistinct
      List.mem_cons_self (by decide) ⟨rfl, rfl, .inl rfl⟩ hseven hchecked rfl rfl hread
        hresult
    refine ⟨hcompile, result, rfl, ?_⟩
    rw [htold]
    decide +kernel

end JsonModel
