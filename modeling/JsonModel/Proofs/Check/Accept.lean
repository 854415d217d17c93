-- Which data a type accepts, said by recursion on the type alone, without issues, values and
-- clashes. The check agrees with it wherever no text is changed and no field has a name that every
-- object answers to.
import JsonModel.Check.Model
import JsonModel.Proofs.Check.Fields
import JsonModel.Proofs.Compile.Shape

namespace JsonModel

/-! ## Accepted data -/

mutual

/-- Whether a type accepts some data. Limits reach the leaves through unions alone. -/
def TypeDescriptor.accepts (places : Places) : TypeDescriptor → Limits → Json → Bool
  | .primitive kind, limits, d => (kind.check limits (.ofJson d)).accepted
  | .semantic kind, limits, d => (kind.check places limits (.ofJson d)).accepted
  | .mapping, _, d => d.members?.isSome
  | .anyList, _, d => d.items?.isSome
  | .listOf type, _, d =>
    match d with
    | .arr items => items.all fun item => type.accepts places {} item
    | _ => false
  | .union variants, limits, d => TypeDescriptor.anyAccepts places variants limits d
  | .intersection members, _, d => TypeDescriptor.allAccept places members d
  | .composite model, _, d => model.accepts places d

/-- Some variant accepts. -/
def TypeDescriptor.anyAccepts (places : Places) : List TypeDescriptor → Limits → Json → Bool
  | [], _, _ => false
  | t :: ts, limits, d => t.accepts places limits d || TypeDescriptor.anyAccepts places ts limits d

/-- Every member accepts. -/
def TypeDescriptor.allAccept (places : Places) : List TypeDescriptor → Json → Bool
  | [], _ => true
  | t :: ts, d => t.accepts places {} d && TypeDescriptor.allAccept places ts d

/-- What is under the name of a field is accepted, and is there if it is required. -/
def Field.allAccept (places : Places) : List Field → Members Json → Bool
  | [], _ => true
  | ⟨name, type, required, _, _, _, limits⟩ :: fields, ms =>
    (match ms.get? name with
      | some d => type.accepts places limits d
      | none => !required) && Field.allAccept places fields ms

/-- Whether a model accepts some data: an object that all of its fields accept. -/
def Definition.accepts (places : Places) : Definition → Json → Bool
  | ⟨_, _, fields, _⟩, d =>
    match d with
    | .obj ms => Field.allAccept places fields ms
    | _ => false

end

variable {places : Places}

theorem anyAccepts_eq_any (ts : List TypeDescriptor) (limits : Limits) (d : Json) :
    TypeDescriptor.anyAccepts places ts limits d = ts.any fun t => t.accepts places limits d := by
  induction ts with
  | nil => rfl
  | cons t ts ih => rw [TypeDescriptor.anyAccepts, ih, List.any_cons]

theorem allAccept_eq_all (ts : List TypeDescriptor) (d : Json) :
    TypeDescriptor.allAccept places ts d = ts.all fun t => t.accepts places {} d := by
  induction ts with
  | nil => rfl
  | cons t ts ih => rw [TypeDescriptor.allAccept, ih, List.all_cons]

/-- Whether a field accepts what some members hold under its name. -/
def Field.accepts (places : Places) (f : Field) (ms : Members Json) : Bool :=
  match ms.get? f.name with
  | some d => f.type.accepts places f.limits d
  | none => !f.required

theorem allAccept_eq_fields (fields : List Field) (ms : Members Json) :
    Field.allAccept places fields ms = fields.all fun f => f.accepts places ms := by
  induction fields with
  | nil => rfl
  | cons f fields ih =>
    obtain ⟨_, _, _, _, _, _, _⟩ := f
    unfold Field.allAccept
    rw [ih]
    rfl

theorem joinable_undefined : Joinable (· = .undefined) := by
  rintro v w rfl rfl
  exact ⟨.undefined, rfl, rfl⟩

theorem answers_wrongType_undefined (expected : Expected) :
    Answers (· = .undefined) (.ok (wrongType expected .undefined)) :=
  answers_wrongType (P := (· = .undefined)) rfl _

mutual

/-- The check of a missing value answers with that value, whatever its type. -/
theorem check_undefined {kind : Semantic → Prop} {model : Definition → Prop}
    (hkeeps : ∀ k, kind k → k.Keeps) : ∀ (t : TypeDescriptor) (limits : Limits),
      t.Every kind model → Answers (· = .undefined) (t.check places limits .undefined)
  | .primitive k, _, _ => ⟨_, rfl, k.check_value _ _, k.check_plain _ _⟩
  | .semantic k, _, h => ⟨_, rfl, k.check_value (hkeeps k h) _ _ _, k.check_plain _ _ _⟩
  | .mapping, _, _ => answers_wrongType_undefined _
  | .anyList, _, _ => answers_wrongType_undefined _
  | .listOf _, _, _ => answers_wrongType_undefined _
  | .union variants, _, h =>
    (union_answers (P := (· = .undefined)) rfl fun t ht =>
      check_undefined_of_mem hkeeps variants _ h t ht).1
  | .intersection members, _, h =>
    (intersection_answers joinable_undefined rfl
      fun t ht => check_undefined_of_mem hkeeps members _ h t ht).1
  | .composite ⟨_, _, _, _⟩, _, _ => by
    unfold TypeDescriptor.check Definition.check
    exact answers_wrongType_undefined _

theorem check_undefined_of_mem {kind : Semantic → Prop} {model : Definition → Prop}
    (hkeeps : ∀ k, kind k → k.Keeps) : ∀ (ts : List TypeDescriptor) (limits : Limits),
      TypeDescriptor.EveryOf kind model ts →
        ∀ t ∈ ts, Answers (· = .undefined) (t.check places limits .undefined)
  | [], _, _, _, hmem => absurd hmem List.not_mem_nil
  | first :: rest, limits, h, t, hmem => by
    rcases List.mem_cons.mp hmem with heq | hmem
    · rw [heq]
      exact check_undefined hkeeps first limits h.1
    · exact check_undefined_of_mem hkeeps rest limits h.2 t hmem

end

/-! ## Data -/

/-- The check of some data answers, follows it, and accepts it as it should. -/
structure Agrees (d : Json) (accepts : Bool) (r : Except Clash Outcome) : Prop where
  answers : Answers (Follows d) r
  accepting : accepting r = accepts

theorem agrees_wrongType {d : Json} (hdata : d.IsData) (expected : Expected) :
    Agrees d false (.ok (wrongType expected (.ofJson d))) :=
  ⟨answers_wrongType (follows_ofJson hdata) expected, rfl⟩

/-- A model as it is built, all of whose fields have names of their own. -/
def Definition.Plain (d : Definition) : Prop := d.Built {} ∧ d.OwnNames

/-- The check of a type agrees on all data. -/
def TypeDescriptor.Agreeing (places : Places) (t : TypeDescriptor) : Prop :=
  ∀ limits d, d.IsData → Agrees d (t.accepts places limits d) (t.check places limits (.ofJson d))

theorem agreeing_mapping : TypeDescriptor.mapping.Agreeing places := by
  intro limits d hdata
  unfold TypeDescriptor.check TypeDescriptor.accepts
  cases d with
  | obj ms =>
    refine ⟨⟨_, rfl, follows_obj_iff.mpr fun name value hmem => ?_, plain_accept _⟩, rfl⟩
    exact followsAt_ofMembers hdata (List.mem_filter.mp hmem).1
  | _ => exact agrees_wrongType hdata _

theorem agreeing_anyList : TypeDescriptor.anyList.Agreeing places := by
  intro limits d hdata
  unfold TypeDescriptor.check TypeDescriptor.accepts
  cases d with
  | arr items =>
    refine ⟨⟨_, rfl, ?_, plain_accept _⟩, rfl⟩
    have hself := follows_ofJson hdata
    cases hself with
    | arr hlength hvalues => exact .arr hlength hvalues
  | _ => exact agrees_wrongType hdata _

theorem agreeing_listOf {type : TypeDescriptor} (h : type.Agreeing places) :
    (TypeDescriptor.listOf type).Agreeing places := by
  intro limits d hdata
  unfold TypeDescriptor.accepts
  cases d with
  | arr items =>
    have hitem : ∀ item ∈ items, Agrees item (type.accepts places {} item)
        (type.check places {} (.ofJson item)) :=
      fun item hmem => h {} item (Json.hereditary_every.item hdata hmem)
    have hvalues : Value.ofJson (.arr items) = .arr .given (items.map Value.ofJson) := by
      rw [Value.ofJson, Value.ofItems_eq_map]
    have hanswers : ∀ value ∈ items.map Value.ofJson,
        ∃ o, type.check places {} value = .ok o := by
      intro value hmem
      obtain ⟨item, hitem', rfl⟩ := List.mem_map.mp hmem
      obtain ⟨o, ho, -⟩ := (hitem item hitem').answers
      exact ⟨o, ho⟩
    obtain ⟨o, outcomes, ho, hvalue, hplain, hall, haccepted⟩ :=
      @listOf_answers places limits type .given _ hanswers
    rw [hvalues, ho]
    refine ⟨⟨o, rfl, ?_, hplain⟩, ?_⟩
    · rw [hvalue]
      have hlength : items.length = (outcomes.map Outcome.value).length := by
        rw [List.length_map, ← hall.length_eq, List.length_map]
      refine .arr hlength fun i item value hi hvalue => ?_
      rw [List.getElem?_map, Option.map_eq_some_iff] at hvalue
      obtain ⟨outcome, houtcome, rfl⟩ := hvalue
      have hcheck := rel_of_getElem? hall (by rw [List.getElem?_map, hi]; rfl) houtcome
      obtain ⟨o', ho', hfollows, -⟩ := (hitem item (List.mem_of_getElem? hi)).answers
      rw [hcheck] at ho'
      cases ho'
      exact hfollows
    · rw [accepting, haccepted, List.all_map]
      exact all_congr_of_mem fun item hmem => (hitem item hmem).accepting
  | _ => exact agrees_wrongType hdata _

/-! ## Models -/

/-- The type of a field agrees on all data, and answers where there is none. -/
def Field.Agreeing (places : Places) (f : Field) : Prop :=
  f.type.Agreeing places ∧ ∃ o, f.type.check places f.limits .undefined = .ok o

theorem fits_eq_accepts {f : Field} (h : f.Agreeing places) {ms : Members Json}
    (hdata : (Json.obj ms).IsData) : f.fits places ms = f.accepts places ms := by
  unfold Field.fits Field.accepts
  cases hget : ms.get? f.name with
  | none => rfl
  | some d => exact (h.1 f.limits d (Json.hereditary_every.found hdata hget)).accepting

theorem contribute_agrees {f : Field} (hown : f.name ∉ inheritedNames)
    (hdefault : f.defaultsToNull = !f.required) (h : f.Agreeing places) {ms : Members Json}
    (hdata : (Json.obj ms).IsData) :
    ∃ c, f.contribute places (.ofJson (.obj ms)) = .ok c ∧ c.AddsTo ms f.name ∧
      c.issues.isEmpty = f.accepts places ms := by
  rw [← fits_eq_accepts h hdata]
  refine contribute_answers hown hdefault (fun j hj => ?_) h.2
  exact (h.1 f.limits j (Json.hereditary_every.found hdata hj)).answers

/-- Fields of distinct names of their own are all there, each with what it adds. -/
theorem fields_in_order {fields : List Field} (hnames : (fields.map Field.name).Nodup)
    (hdefaults : ∀ f ∈ fields, f.defaultsToNull = !f.required)
    (hown : ∀ f ∈ fields, f.name ∉ inheritedNames) (hfields : ∀ f ∈ fields, f.Agreeing places)
    {ms : Members Json} (hdata : (Json.obj ms).IsData) :
    ∃ cs, inOrder (Field.checkAll places fields (.ofJson (.obj ms))) = .ok cs ∧
      ∀ name c, (name, c) ∈ cs ↔
        ∃ f ∈ fields, f.name = name ∧ f.contribute places (.ofJson (.obj ms)) = .ok c := by
  rw [checkAll_eq_map]
  have hentries : (fields.map fun f => (f.name, f.contribute places (.ofJson (.obj ms)))).map
      Prod.fst = fields.map Field.name := by
    rw [List.map_map]
    rfl
  have hreserved : reservedName ∉ fields.map Field.name := by
    intro hmem
    obtain ⟨f, hf, heq⟩ := List.mem_map.mp hmem
    apply hown f hf
    rw [heq]
    exact List.mem_cons_self
  have hanswers : ∀ entry ∈ fields.map fun f =>
      (f.name, f.contribute places (.ofJson (.obj ms))), ∃ c, entry.2 = .ok c := by
    intro entry hentry
    obtain ⟨f, hf, rfl⟩ := List.mem_map.mp hentry
    obtain ⟨c, hc, -⟩ := contribute_agrees (hown f hf) (hdefaults f hf) (hfields f hf) hdata
    exact ⟨c, hc⟩
  rw [← hentries] at hnames hreserved
  obtain ⟨cs, hcs, hmem⟩ := inOrder_answers hnames hreserved hanswers
  refine ⟨cs, hcs, fun name c => ?_⟩
  rw [hmem, List.mem_map]
  exact exists_congr fun f => and_congr_right fun _ => by rw [Prod.mk.injEq]

/-- None of the fields adds an issue exactly if all of them accept. -/
theorem added_clean_iff {fields : List Field} {ms : Members Json}
    (hadd : ∀ f ∈ fields, ∃ c, f.contribute places (.ofJson (.obj ms)) = .ok c ∧
      c.AddsTo ms f.name ∧ c.issues.isEmpty = f.accepts places ms)
    {cs : List (String × Contribution)} (hmem : ∀ name c, (name, c) ∈ cs ↔
      ∃ f ∈ fields, f.name = name ∧ f.contribute places (.ofJson (.obj ms)) = .ok c) :
    (∀ name c, (name, c) ∈ cs → c.issues = []) ↔ ∀ f ∈ fields, f.accepts places ms = true := by
  constructor
  · intro hall f hf
    obtain ⟨c, hc, -, hclean⟩ := hadd f hf
    rw [← hclean, List.isEmpty_iff]
    exact hall f.name c ((hmem _ _).mpr ⟨f, hf, rfl, hc⟩)
  · intro hall name c hc
    obtain ⟨f, hf, rfl, hadded⟩ := (hmem name c).mp hc
    obtain ⟨c', hc', -, hclean⟩ := hadd f hf
    rw [hadded] at hc'
    cases hc'
    rw [← List.isEmpty_iff, hclean]
    exact hall f hf

/-- Fields of distinct names of their own all add what follows the data, and none adds an issue
exactly if all of them accept. -/
theorem fields_agree {fields : List Field} (hnames : (fields.map Field.name).Nodup)
    (hdefaults : ∀ f ∈ fields, f.defaultsToNull = !f.required)
    (hown : ∀ f ∈ fields, f.name ∉ inheritedNames) (hfields : ∀ f ∈ fields, f.Agreeing places)
    {ms : Members Json} (hdata : (Json.obj ms).IsData) :
    ∃ cs, inOrder (Field.checkAll places fields (.ofJson (.obj ms))) = .ok cs ∧
      (∀ name c, (name, c) ∈ cs → c.AddsTo ms name) ∧
      (cs.all fun c => c.2.issues.isEmpty) = Field.allAccept places fields ms := by
  have hadd : ∀ f ∈ fields, ∃ c, f.contribute places (.ofJson (.obj ms)) = .ok c ∧
      c.AddsTo ms f.name ∧ c.issues.isEmpty = f.accepts places ms :=
    fun f hf => contribute_agrees (hown f hf) (hdefaults f hf) (hfields f hf) hdata
  obtain ⟨cs, hcs, hmem⟩ := fields_in_order hnames hdefaults hown hfields hdata
  refine ⟨cs, hcs, fun name c hc => ?_, ?_⟩
  · obtain ⟨f, hf, rfl, heq⟩ := (hmem name c).mp hc
    obtain ⟨c', hc', hadds, -⟩ := hadd f hf
    rw [hc'] at heq
    cases heq
    exact hadds
  · rw [allAccept_eq_fields, Bool.eq_iff_iff, List.all_eq_true, List.all_eq_true,
      ← added_clean_iff hadd hmem]
    simp only [Prod.forall, List.isEmpty_iff]

/-- A model that extends nothing and has no validators answers with what its fields add. -/
theorem check_eq_assemble {d : Definition} (hbase : d.base = [])
    (hvalidators : d.overrides.validators = []) {ms : Members Json}
    {cs : List (String × Contribution)}
    (h : inOrder (Field.checkAll places d.fields (.ofJson (.obj ms))) = .ok cs) :
    d.check places (.ofJson (.obj ms)) =
      .ok (assemble d.overrides.extra (Value.ofMembers ms) cs) := by
  have hmembers : (Value.ofJson (.obj ms)).members? = some (Value.ofMembers ms) := by
    unfold Value.ofJson
    rfl
  rw [check_of_members hmembers, hbase, Field.checkAll, List.nil_append, h, hvalidators]
  simp only [Except.map, runValidators_nil]

/-- The check of an object by a model as it is built, for every treatment of undeclared keys. -/
theorem check_object {d : Definition} {overrides : Overrides} (hbuilt : d.Built overrides)
    (hvalidators : overrides.validators = []) (hown : d.OwnNames)
    (hfields : ∀ f ∈ d.fields, f.Agreeing places) {ms : Members Json}
    (hdata : (Json.obj ms).IsData) :
    ∃ cs, d.check places (.ofJson (.obj ms)) =
        .ok (assemble overrides.extra (Value.ofMembers ms) cs) ∧
      (∀ name c, (name, c) ∈ cs → c.AddsTo ms name) ∧
      (cs.all fun c => c.2.issues.isEmpty) = d.accepts places (.obj ms) := by
  obtain ⟨hbase, hoverrides, hnames, hdefaults⟩ := hbuilt
  subst hoverrides
  obtain ⟨cs, hcs, hadds, hclean⟩ := fields_agree hnames hdefaults hown hfields hdata
  obtain ⟨_, _, _, _⟩ := d
  exact ⟨cs, check_eq_assemble hbase hvalidators hcs, hadds, hclean⟩

theorem check_noObject {d : Definition} {j : Json} (hj : j.members? = none) :
    d.check places (.ofJson j) = .ok (wrongType .object (.ofJson j)) ∧
      d.accepts places j = false := by
  obtain ⟨_, _, _, _⟩ := d
  unfold Definition.check Definition.accepts
  cases j with
  | obj ms => simp [Json.members?] at hj
  | _ => exact ⟨rfl, rfl⟩

/-- A model that ignores undeclared keys agrees on all data. -/
theorem agrees_model {d : Definition} {overrides : Overrides} (hbuilt : d.Built overrides)
    (hvalidators : overrides.validators = []) (hextra : overrides.extra = .ignore)
    (hown : d.OwnNames) (hfields : ∀ f ∈ d.fields, f.Agreeing places) {j : Json}
    (hdata : j.IsData) : Agrees j (d.accepts places j) (d.check places (.ofJson j)) := by
  cases hj : j.members? with
  | none =>
    obtain ⟨hcheck, haccepts⟩ := @check_noObject places d j hj
    rw [hcheck, haccepts]
    exact agrees_wrongType hdata _
  | some ms =>
    obtain rfl := Json.eq_obj_of_members? hj
    obtain ⟨cs, hcheck, hadds, hclean⟩ := check_object hbuilt hvalidators hown hfields hdata
    rw [hcheck, hextra, ← hclean]
    refine ⟨⟨_, rfl, ?_, ?_⟩, ?_⟩
    · exact assemble_follows hdata hadds _
    · intro issue hissue
      rw [assemble_ignore] at hissue
      obtain ⟨⟨name, c⟩, hc, hmem⟩ := List.mem_flatMap.mp hissue
      exact (hadds name c hc).plain issue hmem
    · unfold accepting Outcome.accepted
      simp only
      rw [assemble_ignore, Bool.eq_iff_iff]
      simp

/-! ## Types -/

mutual

/-- Every type that keeps texts, and whose models are as they are built, agrees on all data. -/
theorem agreeing : ∀ t : TypeDescriptor, t.Every Semantic.Keeps Definition.Plain →
    t.Agreeing places
  | .primitive k, _ => fun limits d hdata =>
    ⟨⟨_, rfl, by rw [k.check_value]; exact follows_ofJson hdata, k.check_plain _ _⟩, rfl⟩
  | .semantic k, h => fun limits d hdata =>
    ⟨⟨_, rfl, by rw [k.check_value h]; exact follows_ofJson hdata, k.check_plain _ _ _⟩, rfl⟩
  | .mapping, _ => agreeing_mapping
  | .anyList, _ => agreeing_anyList
  | .listOf type, h => agreeing_listOf (agreeing type h)
  | .union variants, h => fun limits d hdata => by
    have hall := agreeing_of_mem variants h
    obtain ⟨hanswers, haccepting⟩ := union_answers (follows_ofJson hdata)
      fun t ht => (hall t ht limits d hdata).answers
    refine ⟨hanswers, ?_⟩
    unfold TypeDescriptor.accepts
    rw [haccepting, anyAccepts_eq_any]
    exact any_congr_of_mem fun t ht => (hall t ht limits d hdata).accepting
  | .intersection members, h => fun limits d hdata => by
    have hall := agreeing_of_mem members h
    obtain ⟨hanswers, haccepting⟩ := @intersection_answers places limits _ _
      (fun _ _ => join_follows hdata) (follows_ofJson hdata) members
      fun t ht => (hall t ht {} d hdata).answers
    refine ⟨hanswers, ?_⟩
    unfold TypeDescriptor.accepts
    rw [haccepting, allAccept_eq_all]
    exact all_congr_of_mem fun t ht => (hall t ht {} d hdata).accepting
  | .composite ⟨_, _, fields, _⟩, h => fun limits d hdata => by
    unfold TypeDescriptor.check TypeDescriptor.accepts
    exact agrees_model h.1.1 rfl rfl h.1.2 (agreeing_fields fields h.2.2) hdata

theorem agreeing_of_mem : ∀ ts : List TypeDescriptor,
    TypeDescriptor.EveryOf Semantic.Keeps Definition.Plain ts → ∀ t ∈ ts, t.Agreeing places
  | [], _, _, hmem => absurd hmem List.not_mem_nil
  | first :: rest, h, t, hmem => by
    rcases List.mem_cons.mp hmem with heq | hmem
    · rw [heq]
      exact agreeing first h.1
    · exact agreeing_of_mem rest h.2 t hmem

theorem agreeing_fields : ∀ fields : List Field,
    Field.EveryOf Semantic.Keeps Definition.Plain fields → ∀ f ∈ fields, f.Agreeing places
  | [], _, _, hmem => absurd hmem List.not_mem_nil
  | ⟨_, type, _, _, _, _, limits⟩ :: rest, h, f, hmem => by
    rcases List.mem_cons.mp hmem with heq | hmem
    · rw [heq]
      obtain ⟨o, ho, -⟩ := @check_undefined places _ _ (fun _ hk => hk) type limits h.1
      exact ⟨agreeing type h.1, o, ho⟩
    · exact agreeing_fields rest h.2 f hmem

end

end JsonModel
