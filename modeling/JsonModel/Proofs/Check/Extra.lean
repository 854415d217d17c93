-- The ways to treat undeclared keys. Whatever a model extends, they answer alike to what it declares,
-- and part only where the data has a key that it does not declare.
import JsonModel.Proofs.Check.Overlay
import JsonModel.Proofs.Check.Result

namespace JsonModel

/-! ## Models that extend another one -/

/-- The fields of the model that is extended, if there is one. -/
def fieldsOfBase (base : Option Definition) : List Field := (base.map Definition.fields).getD []

/-- The model is what some document compiles to, without overrides. -/
def Definition.FromDocument (d : Definition) : Prop :=
  ∃ (schema : Members Json) (root : Option (Members Json)), (Json.obj schema).Distinct ∧
    (∀ r ∈ root, (Json.obj r).Distinct) ∧ compileSchema schema root = .ok d

/-- Overrides have no say in the rest of a definition. -/
theorem compileSchema_overrides {schema : Members Json} {root : Option (Members Json)}
    {overrides overrides' : Overrides} {d d' : Definition}
    (h : compileSchema schema root overrides = .ok d)
    (h' : compileSchema schema root overrides' = .ok d') :
    d' = { d with overrides := overrides' } := by
  unfold compileSchema buildDefinition buildDefinitionWith at h h'
  obtain ⟨fields, hfields, h⟩ := bind_ok_iff.mp h
  obtain ⟨fields', hfields', h'⟩ := bind_ok_iff.mp h'
  cases h
  cases h'
  have hsame := hfields.symm.trans hfields'
  cases hsame
  rfl

theorem listed_extend {d : Definition} {overrides : Overrides} (hbuilt : d.Built overrides)
    (hown : d.OwnNames) {base : Option Definition}
    (hbase : ∀ b ∈ base, b.FromDocument ∧ b.OwnNames) (validators : List Validator) :
    (d.extend (fieldsOfBase base) validators).Listed := by
  cases base with
  | none =>
    exact ⟨⟨List.nodup_nil, hbuilt.names_nodup⟩, hown.unreserved⟩
  | some b =>
    obtain ⟨⟨schema, root, hschema, hroot, hcompile⟩, hnames⟩ := hbase b rfl
    obtain ⟨hbuilt', -⟩ := built_of_compile hcompile hschema hroot
    refine ⟨⟨hbuilt'.names_nodup, hbuilt.names_nodup⟩, fun f hf => ?_⟩
    rcases List.mem_append.mp hf with hf | hf
    · exact hnames.unreserved f hf
    · exact hown.unreserved f hf

/-! ## What the treatments have in common -/

/-- A field that adds no issue adds a value. -/
theorem value_of_clean {places : Places} {f : Field} {v : Value} {c : Contribution}
    (h : f.contribute places v = .ok c) (hclean : c.issues = []) :
    ∃ value, c = ⟨[], some value⟩ := by
  unfold Field.contribute at h
  obtain ⟨o, -, rfl⟩ := map_ok_iff.mp h
  unfold contribution at hclean ⊢
  split at hclean
  · split at hclean
    · simp at hclean
    · rename_i hrejected
      simp only [List.map_eq_nil_iff] at hclean
      simp [Outcome.accepted, hclean] at hrejected
  · simp only at hclean ⊢
    exact ⟨o.value, by rw [hclean]⟩

/-- Three answers to an object of some members, given by a model that treats undeclared keys in one
way or the other. -/
structure AgreeOnDeclared (places : Places) (d : Definition) (data : Value) (ms : Members Value)
    (results : ExtraMode → ParseResult) : Prop where
  /-- Where undeclared keys are ignored, the data is accepted exactly if each field that is checked
  accepts. -/
  accepts_iff : (∃ out, results .ignore = .success out) ↔
    ∀ f ∈ d.effective, ∃ value, f.contribute places data = .ok ⟨[], some value⟩
  /-- Then the declared keys come out, in order, each with what its field makes of the data. -/
  ignore : ∀ out, results .ignore = .success out → ∃ values, out = .obj .made values ∧
    Members.names values = keyOrder d.declared ∧ ∀ f ∈ d.effective, ∀ value,
      f.contribute places data = .ok ⟨[], some value⟩ → Members.get? f.name values = some value
  /-- Where they are forbidden, the same comes out, and there must not be any. -/
  forbid : ∀ out, results .forbid = .success out ↔
    results .ignore = .success out ∧ ∀ name ∈ ms.names, name ∈ d.declared
  /-- Where they are allowed, the same data is accepted. -/
  allow : (∃ out, results .allow = .success out) ↔ ∃ out, results .ignore = .success out
  /-- Then the undeclared keys come out beside the others, as they are. -/
  kept : ∀ values out, results .ignore = .success (.obj .made values) →
    results .allow = .success out → ∃ all, out = .obj .made all ∧ (Members.names all).Nodup ∧
      ∀ name, Members.get? name all =
        if name ∈ d.declared then Members.get? name values else ms.get? name

section

variable {places : Places} {d : Definition} {v : Value} {ms : Members Value}
  {cs : List (String × Contribution)}

theorem assemble_success_iff {mode : ExtraMode} {out : Value} :
    (assemble mode ms cs).toResult = .success out ↔
      (∀ name c, (name, c) ∈ cs → c.issues = []) ∧
        (mode = .forbid → undeclared (cs.map Prod.fst) ms = []) ∧
          (assemble mode ms cs).value = out := by
  rw [toResult_eq_success, assemble_accepted_iff, and_assoc]

/-- Where every field adds a value, the names of the values are those of the fields. -/
theorem addedValues_names (h : ∀ name c, (name, c) ∈ cs → ∃ value, c = ⟨[], some value⟩) :
    (addedValues cs).map Prod.fst = cs.map Prod.fst := by
  induction cs with
  | nil => rfl
  | cons m cs ih =>
    obtain ⟨name, c⟩ := m
    obtain ⟨value, rfl⟩ := h name c List.mem_cons_self
    have hrest := ih fun name c hc => h name c (List.mem_cons_of_mem _ hc)
    unfold addedValues at hrest ⊢
    rw [List.filterMap_cons, List.map_cons, ← hrest]
    rfl

theorem undeclared_nil_iff {declared : List String} (hms : reservedName ∉ Members.names ms) :
    undeclared declared ms = [] ↔ ∀ name ∈ Members.names ms, name ∈ declared := by
  unfold undeclared Members.names at *
  rw [List.filter_eq_nil_iff]
  constructor
  · intro h name hname
    obtain ⟨m, hm, rfl⟩ := List.mem_map.mp hname
    have hne : m.1 ≠ reservedName := fun heq => hms (heq ▸ hname)
    have hkept := h m hm
    simpa [hne] using hkept
  · intro h m hm
    simp [h m.1 (List.mem_map_of_mem hm)]

/-- Where no field adds an issue, an object of the declared keys comes out, in order. -/
theorem values_of_clean (h : d.Listed) (hadds : d.Adds places v cs)
    (hclean : ∀ name c, (name, c) ∈ cs → c.issues = []) :
    Members.names (Members.ofList (addedValues cs)) = keyOrder d.declared ∧
      ∀ f ∈ d.effective, ∀ value, f.contribute places v = .ok ⟨[], some value⟩ →
        Members.get? f.name (Members.ofList (addedValues cs)) = some value := by
  have hall : ∀ name c, (name, c) ∈ cs → ∃ value, c = ⟨[], some value⟩ := by
    intro name c hc
    obtain ⟨f, -, -, hadded⟩ := (hadds.mem_iff name c).mp hc
    exact value_of_clean hadded (hclean name c hc)
  have hnodup : ((addedValues cs).map Prod.fst).Nodup := by
    rw [addedValues_names hall, hadds.names_eq]
    exact nodup_keyOrder h.declared_nodup
  constructor
  · rw [Members.names_ofList_nodup hnodup, addedValues_names hall, hadds.names_eq,
      keyOrder_keyOrder]
  · intro f hf value hvalue
    rw [Members.get?_ofList hnodup, Members.get?_eq_some_iff hnodup, mem_addedValues]
    exact ⟨_, (hadds.mem_iff _ _).mpr ⟨f, hf, rfl, hvalue⟩, rfl⟩

/-- The three answers that fields give together agree on what is declared. -/
theorem assembled_agree (h : d.Listed) (hms : (Members.names ms).Nodup)
    (hreserved : reservedName ∉ Members.names ms) (hadds : d.Adds places v cs) :
    AgreeOnDeclared places d v ms fun mode => (assemble mode ms cs).toResult := by
  have hnodup : (cs.map Prod.fst).Nodup := by
    rw [hadds.names_eq]
    exact nodup_keyOrder h.declared_nodup
  have hdeclared : ∀ name, name ∈ cs.map Prod.fst ↔ name ∈ d.declared := by
    intro name
    rw [hadds.names_eq, mem_keyOrder]
  refine ⟨?_, ?_, ?_, ?_, ?_⟩
  · simp only [assemble_success_iff]
    constructor
    · rintro ⟨_, hclean, -⟩ f hf
      obtain ⟨c, hadded, hc⟩ := hadds.answers f hf
      obtain ⟨value, rfl⟩ := value_of_clean hadded (hclean f.name c hc)
      exact ⟨value, hadded⟩
    · intro hall
      refine ⟨_, fun name c hc => ?_, by simp, rfl⟩
      obtain ⟨f, hf, -, hadded⟩ := (hadds.mem_iff name c).mp hc
      obtain ⟨value, hvalue⟩ := hall f hf
      rw [hadded] at hvalue
      cases hvalue
      rfl
  · intro out hout
    obtain ⟨hclean, -, rfl⟩ := assemble_success_iff.mp hout
    exact ⟨_, rfl, values_of_clean h hadds hclean⟩
  · intro out
    rw [assemble_success_iff, assemble_success_iff, undeclared_nil_iff hreserved]
    simp only [hdeclared, forall_const, reduceCtorEq, false_implies, true_and]
    constructor
    · rintro ⟨hclean, hknown, hvalue⟩
      exact ⟨⟨hclean, hvalue⟩, hknown⟩
    · rintro ⟨⟨hclean, hvalue⟩, hknown⟩
      exact ⟨hclean, hknown, hvalue⟩
  · simp [assemble_success_iff]
  · intro values out hignore hallow
    obtain ⟨-, -, hvalues⟩ := assemble_success_iff.mp hignore
    obtain ⟨-, -, rfl⟩ := assemble_success_iff.mp hallow
    obtain ⟨all, hall, hallnodup, hget⟩ := get?_assembled .allow hms hnodup
    obtain ⟨own, hown, -, hgetown⟩ := get?_assembled .ignore hms hnodup
    obtain rfl : own = values := by
      rw [hown] at hvalues
      cases hvalues
      rfl
    refine ⟨all, hall, hallnodup, fun name => ?_⟩
    rw [hget, hgetown]
    simp only [hdeclared, true_and, reduceCtorEq, false_and, if_false, Option.or_none]
    by_cases hname : name ∈ d.declared
    · simp [hname]
    · have hnone : Members.get? name cs = none :=
        Members.get?_eq_none_iff.mpr (mt (hdeclared name).mp hname)
      rw [hnone, if_neg hname]
      simp only [Option.bind_none, Option.none_or]
      by_cases hres : name = reservedName
      · subst hres
        simp [Members.get?_eq_none_iff.mpr hreserved]
      · simp [hres, hname]

end

/-! ## A model of tickets -/

/-- A ticket has a holder and a row. -/
def ticketSchema : Members Json :=
  [("properties", .obj
      [("holder", .obj [("type", .str "string")]), ("10", .obj [("type", .str "integer")])]),
    ("required", .arr [.str "holder"])]

def ticketModel : Definition :=
  ⟨fallbackName, [],
    [⟨"holder", .primitive .string, true, false, none, [], {}⟩,
      ⟨"10", .nullable (.primitive .integer), false, true, none, [], {}⟩], {}⟩

/-- A group ticket has a number of persons, and its holder may be missing. -/
def groupSchema : Members Json :=
  [("properties", .obj
      [("2", .obj [("type", .str "integer")]), ("holder", .obj [("type", .str "string")])]),
    ("required", .arr [.str "2"])]

/-- The overrides that only say how undeclared keys are treated. -/
def treating (mode : ExtraMode) : Overrides where
  carried := [("config", .obj [("extra", .str mode.name)])]

def groupModel (mode : ExtraMode) : Definition :=
  ⟨fallbackName, [],
    [⟨"2", .primitive .integer, true, false, none, [], {}⟩,
      ⟨"holder", .nullable (.primitive .string), false, true, none, [], {}⟩], treating mode⟩

/-- A group ticket without a holder, and with a remark. -/
def groupTicket : Members Value := [("remark", .str "window"), ("2", .num (.ofNat 7))]

theorem ticketSchema_distinct : (Json.obj ticketSchema).Distinct := by
  simp [ticketSchema, Json.Distinct, Json.Every, Json.EveryMember, Json.EveryItem]

theorem groupSchema_distinct : (Json.obj groupSchema).Distinct := by
  simp [groupSchema, Json.Distinct, Json.Every, Json.EveryMember, Json.EveryItem]

/-! ## Models under three configurations -/

/-- Whatever a compiled model extends, its answers to an object, with undeclared keys ignored,
forbidden or allowed, agree on what is declared. -/
theorem extra_modes_agree_on_declared_keys {places : Places} {schema : Members Json}
    {root : Option (Members Json)} {overrides : ExtraMode → Overrides}
    {d : ExtraMode → Definition} {base : Option Definition} {origin : Origin} {ms : Members Value}
    (h : ∀ mode, compileSchema schema root (overrides mode) = .ok (d mode))
    (hschema : (Json.obj schema).Distinct) (hroot : ∀ r ∈ root, (Json.obj r).Distinct)
    (hmode : ∀ mode, (overrides mode).extra = mode ∧ (overrides mode).validators = [])
    (hown : (d .ignore).OwnNames) (hbase : ∀ b ∈ base, b.FromDocument ∧ b.OwnNames)
    (hms : (Members.names ms).Nodup) (hreserved : reservedName ∉ Members.names ms)
    (hreturns : ∃ mode result,
      ((d mode).extend (fieldsOfBase base) []).safeParse places (.obj origin ms) = .ok result) :
    ∃ results : ExtraMode → ParseResult,
      (∀ mode, ((d mode).extend (fieldsOfBase base) []).safeParse places (.obj origin ms) =
        .ok (results mode)) ∧
      AgreeOnDeclared places ((d .ignore).extend (fieldsOfBase base) []) (.obj origin ms) ms
        results := by
  have hfields : ∀ mode, d mode = { d .ignore with overrides := overrides mode } :=
    fun mode => compileSchema_overrides (h .ignore) (h mode)
  have hcheck : ∀ mode, ((d mode).extend (fieldsOfBase base) []).check places (.obj origin ms) =
      (inOrder (Field.checkAll places (fieldsOfBase base) (.obj origin ms) ++
        Field.checkAll places (d .ignore).fields (.obj origin ms))).map (assemble mode ms) := by
    intro mode
    rw [check_obj, hfields mode]
    simp only [Definition.extend, (hmode mode).2, List.append_nil, runValidators_nil]
    have hextra : ({ carried := (overrides mode).carried } : Overrides).extra = mode :=
      (hmode mode).1
    rw [hextra]
  obtain ⟨mode, result, hresult⟩ := hreturns
  unfold Definition.safeParse at hresult ⊢
  simp only [hcheck] at hresult ⊢
  obtain ⟨o, ho, -⟩ := map_ok_iff.mp hresult
  obtain ⟨cs, hcs, -⟩ := map_ok_iff.mp ho
  obtain ⟨hbuilt, -⟩ := built_of_compile (h .ignore) hschema hroot
  have hlisted := listed_extend hbuilt hown hbase []
  rw [hcs]
  exact ⟨_, fun mode => rfl, assembled_agree hlisted hms hreserved (adds_of_inOrder hlisted hcs)⟩

theorem a_group_ticket_is_answered_alike :
    compileSchema ticketSchema = .ok ticketModel ∧
      (∀ mode, compileSchema groupSchema none (treating mode) = .ok (groupModel mode)) ∧
      ∃ results : ExtraMode → ParseResult,
        (∀ mode, ((groupModel mode).extend (fieldsOfBase (some ticketModel)) []).safeParse
          ⟨fun _ => false, fun _ => false⟩ (.obj .given groupTicket) = .ok (results mode)) ∧
        AgreeOnDeclared ⟨fun _ => false, fun _ => false⟩
          ((groupModel .ignore).extend (fieldsOfBase (some ticketModel)) [])
          (.obj .given groupTicket) groupTicket results := by
  have hticket : compileSchema ticketSchema = .ok ticketModel := rfl
  have hgroup : ∀ mode, compileSchema groupSchema none (treating mode) = .ok (groupModel mode) :=
    fun _ => rfl
  refine ⟨hticket, hgroup, ?_⟩
  apply extra_modes_agree_on_declared_keys hgroup groupSchema_distinct (by simp)
  · intro mode
    cases mode <;> exact ⟨rfl, rfl⟩
  · unfold Definition.OwnNames
    decide
  · rintro _ ⟨⟩
    refine ⟨⟨ticketSchema, none, ticketSchema_distinct, by simp, hticket⟩, ?_⟩
    unfold Definition.OwnNames
    decide
  · decide
  · decide
  · exact ⟨.ignore, _, rfl⟩

/-- The number of persons is an index, so it comes first, before the holder, although the holder is
declared earlier. -/
example : keyOrder ((groupModel .ignore).extend (fieldsOfBase (some ticketModel)) []).declared =
    ["2", "10", "holder"] := by decide

end JsonModel
