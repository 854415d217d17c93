-- Secrets stay out of sight. Two values that differ in their secrets alone are checked alike: the
-- same issues are found, and where there are none, the same is shown.
import JsonModel.Proofs.Check.Runs
import JsonModel.Proofs.Compile.WellFormed
import JsonModel.Settings.Basic
import JsonModel.Tool.Answer

namespace JsonModel

/-! ## Values that differ in secrets -/

/-- Two values are equal but for the texts of secrets, which a type finds on its way through models,
lists and optional fields. -/
inductive Twins : TypeDescriptor → Value → Value → Prop
  | same (t : TypeDescriptor) (v : Value) : Twins t v v
  | secretText (s s' : String) : Twins (.semantic .secretString) (.str s) (.str s')
  | secretBytes (s s' : String) : Twins (.semantic .secretBytes) (.str s) (.str s')
  | list {t : TypeDescriptor} {origin : Origin} {xs ys : List Value} :
      xs.length = ys.length →
      (∀ (i : Nat) (x y : Value), xs[i]? = some x → ys[i]? = some y → Twins t x y) →
      Twins (.listOf t) (.arr origin xs) (.arr origin ys)
  | model {d : Definition} {origin : Origin} {ms ns : Members Value} :
      ms.names = ns.names →
      (∀ (i : Nat) (name : String) (x y : Value), ms[i]? = some (name, x) →
        ns[i]? = some (name, y) → name ∉ d.fields.map Field.name → x = y) →
      (∀ f ∈ d.fields, ∀ (i : Nat) (x y : Value), ms[i]? = some (f.name, x) →
        ns[i]? = some (f.name, y) → Twins f.type x y) →
      Twins (.composite d) (.obj origin ms) (.obj origin ns)
  | optional {t : TypeDescriptor} {v w : Value} :
      Twins t v w → Twins (.union [t, .primitive .null]) v w

/-- Twins are of one kind, and so are their twins. -/
theorem Twins.cases {t : TypeDescriptor} {v w : Value} (h : Twins t v w) :
    v = w ∨ (∃ s s', v = .str s ∧ w = .str s') ∨
      (∃ origin xs ys, v = .arr origin xs ∧ w = .arr origin ys) ∨
      ∃ origin ms ns, v = .obj origin ms ∧ w = .obj origin ns := by
  induction h with
  | same t v => exact .inl rfl
  | secretText s s' => exact .inr (.inl ⟨s, s', rfl, rfl⟩)
  | secretBytes s s' => exact .inr (.inl ⟨s, s', rfl, rfl⟩)
  | list _ _ => exact .inr (.inr (.inl ⟨_, _, _, rfl, rfl⟩))
  | model _ _ _ => exact .inr (.inr (.inr ⟨_, _, _, rfl, rfl⟩))
  | optional _ ih => exact ih

/-- Both are undefined, or none is. -/
theorem Twins.undefined_iff {t : TypeDescriptor} {v w : Value} (h : Twins t v w) :
    v = .undefined ↔ w = .undefined := by
  rcases h.cases with rfl | ⟨_, _, rfl, rfl⟩ | ⟨_, _, _, rfl, rfl⟩ | ⟨_, _, _, rfl, rfl⟩ <;> simp

/-- Twins item by item make twin lists. -/
theorem twins_list {t : TypeDescriptor} {origin : Origin} {xs ys : List Value}
    (h : List.Forall₂ (Twins t) xs ys) : Twins (.listOf t) (.arr origin xs) (.arr origin ys) :=
  .list h.length_eq fun _ _ _ hx hy => rel_of_getElem? h hx hy

/-- Twins member by member make twin objects. -/
theorem twins_model {d : Definition} {origin : Origin} {ms ns : Members Value}
    (h : Members.Pairs (fun name x y => (name ∉ d.fields.map Field.name → x = y) ∧
      ∀ f ∈ d.fields, f.name = name → Twins f.type x y) ms ns) :
    Twins (.composite d) (.obj origin ms) (.obj origin ns) := by
  refine .model h.names_eq (fun i name x y hx hy hfree => ?_) (fun f hf i x y hx hy => ?_)
  · exact (rel_of_getElem? h hx hy).2.1 hfree
  · exact (rel_of_getElem? h hx hy).2.2 f hf rfl

/-! ## Outcomes that look alike -/

/-- Two outcomes have the same issues, and show the same if there are none. -/
abbrev Outcome.Alike : Outcome → Outcome → Prop := Outcome.Like fun v w => v.shown? = w.shown?

/-- Two checks end with outcomes that look alike, or with the same clash. -/
abbrev RunAlike : Except Clash Outcome → Except Clash Outcome → Prop := EndAlike Outcome.Alike

theorem runAlike_refl (r : Except Clash Outcome) : RunAlike r r := by
  refine EndAlike.refl (Outcome.Like.refl ?_) r
  exact fun _ => rfl

variable {places : Places} {limits : Limits}

/-- Two answers look alike: both show the same, or both fail with the same issues. -/
abbrev ParseResult.Alike : ParseResult → ParseResult → Prop :=
  ParseResult.Like fun v w => v.shown? = w.shown?

/-- The null type tells twins apart as little as any other. -/
theorem null_alike {t : TypeDescriptor} {v w : Value} (h : Twins t v w) :
    RunAlike ((TypeDescriptor.primitive .null).check places limits v)
      ((TypeDescriptor.primitive .null).check places limits w) := by
  rcases h.cases with rfl | ⟨_, _, rfl, rfl⟩ | ⟨_, _, _, rfl, rfl⟩ | ⟨_, _, _, rfl, rfl⟩
  · exact runAlike_refl _
  all_goals exact .ok (like_reject _ _ _)

/-! ## Lists -/

theorem shownItems_eq {vs ws : List Value}
    (h : List.Forall₂ (fun v w => v.shown? = w.shown?) vs ws) :
    Value.shownItems vs = Value.shownItems ws := by
  induction h with
  | nil => rfl
  | cons hhead _ ih =>
    unfold Value.shownItems
    rw [hhead, ih]

/-- A list checks alike what its items check alike. -/
theorem listOf_alike {t : TypeDescriptor} {origin : Origin} {xs ys : List Value}
    (h : List.Forall₂ (fun x y => RunAlike (t.check places {} x) (t.check places {} y)) xs ys) :
    RunAlike ((TypeDescriptor.listOf t).check places limits (.arr origin xs))
      ((TypeDescriptor.listOf t).check places limits (.arr origin ys)) := by
  refine listOf_like (fun us us' hus => ?_) h
  unfold Value.shown?
  rw [shownItems_eq hus]

/-! ## Models -/

/-- Two fields add the same issues, and what they add looks alike if there are none. -/
abbrev Contribution.Alike : Contribution → Contribution → Prop :=
  Contribution.Like fun v w => v.shown? = w.shown?

/-- What two objects have under a name is checked alike by the fields of that name, and is the same
where no field has the name. -/
def SeenAlike (places : Places) (fields : List Field) (name : String) (x y : Value) : Prop :=
  (name ∉ fields.map Field.name → x = y) ∧
    ∀ f ∈ fields, f.name = name → (x = .undefined ↔ y = .undefined) ∧
      RunAlike (f.type.check places f.limits x) (f.type.check places f.limits y)

theorem contribute_alike {fields : List Field} {f : Field} (hf : f ∈ fields) {origin : Origin}
    {ms ns : Members Value} (h : Members.Pairs (SeenAlike places fields) ms ns) :
    EndAlike Contribution.Alike (f.contribute places (.obj origin ms))
      (f.contribute places (.obj origin ns)) := by
  refine contribute_like ?_ ?_
  · exact fun _ => rfl
  · rw [read?_obj, read?_obj]
    cases hx : Members.get? f.name ms with
    | none => exact .inl (by rw [h.get?_none hx])
    | some x =>
      obtain ⟨y, hy, hxy⟩ := h.found hx
      obtain ⟨hundefined, hcheck⟩ := hxy.2 f hf rfl
      rw [hy, Option.some_or, Option.some_or]
      by_cases hmissing : x = .undefined
      · exact .inl (by rw [hmissing, hundefined.mp hmissing])
      · exact .inr ⟨x, y, rfl, rfl, hmissing, mt hundefined.mpr hmissing, hcheck⟩

theorem shownMembers_eq {ms ns : Members Value}
    (h : Members.Pairs (fun _ x y => x.shown? = y.shown?) ms ns) :
    Value.shownMembers ms = Value.shownMembers ns := by
  induction h with
  | nil => rfl
  | @cons m n _ _ hhead _ ih =>
    obtain ⟨name, x⟩ := m
    obtain ⟨_, y⟩ := n
    obtain ⟨rfl, hxy⟩ := hhead
    unfold Value.shownMembers
    simp only at hxy
    rw [hxy, ih]

/-- What no field declares is the same in both objects. -/
theorem undeclared_eq {fields : List Field} {declared : List String} {ms ns : Members Value}
    (hdeclared : ∀ name ∈ fields.map Field.name, name ≠ reservedName → name ∈ declared)
    (h : Members.Pairs (SeenAlike places fields) ms ns) :
    undeclared declared ms = undeclared declared ns := by
  unfold undeclared
  induction h with
  | nil => rfl
  | @cons m n _ _ hhead _ ih =>
    obtain ⟨name, x⟩ := m
    obtain ⟨_, y⟩ := n
    obtain ⟨rfl, hxy⟩ := hhead
    simp only at hxy
    rw [List.filter_cons, List.filter_cons, ih]
    simp only
    by_cases hkept : (name != reservedName && !declared.contains name) = true
    · have hfree : name ∉ fields.map Field.name := by
        intro hmem
        simp only [Bool.and_eq_true, bne_iff_ne, Bool.not_eq_true', List.contains_eq_mem,
          decide_eq_false_iff_not] at hkept
        exact hkept.2 (hdeclared name hmem hkept.1)
      rw [if_pos hkept, if_pos hkept, hxy.1 hfree]
    · rw [if_neg hkept, if_neg hkept]

/-- Objects that are put together alike look alike. -/
theorem assemble_alike (mode : ExtraMode) {fields : List Field} {ms ns : Members Value}
    (h : Members.Pairs (SeenAlike places fields) ms ns) {cs cs' : List (String × Contribution)}
    (hcs : Members.Pairs (fun _ => Contribution.Alike) cs cs')
    (hdeclared : ∀ name ∈ fields.map Field.name, name ≠ reservedName → name ∈ cs.map Prod.fst) :
    (assemble mode ms cs).Alike (assemble mode ns cs') := by
  have hnames : cs.map Prod.fst = cs'.map Prod.fst := hcs.names_eq
  have hissues := addedIssues_eq hcs
  have hvalues := addedValues_like hcs
  have hextra : Members.Pairs (fun _ (x y : Value) => x.shown? = y.shown?)
      (undeclared (cs'.map Prod.fst) ns) (undeclared (cs'.map Prod.fst) ns) :=
    List.forall₂_same.mpr fun _ _ => ⟨rfl, rfl⟩
  unfold assemble
  rw [undeclared_eq hdeclared h, hnames]
  unfold addedValues at hvalues
  cases mode with
  | ignore =>
    refine ⟨hissues, rfl, fun hnone => ?_⟩
    unfold Value.shown?
    rw [shownMembers_eq (hvalues hnone).ofList]
  | allow =>
    refine ⟨hissues, rfl, fun hnone => ?_⟩
    have hall := List.rel_append (hvalues hnone) hextra
    unfold Value.shown?
    rw [shownMembers_eq (Members.Pairs.ofList hall)]
  | forbid =>
    refine ⟨by rw [hissues], rfl, fun hnone => ?_⟩
    unfold Value.shown?
    rw [shownMembers_eq (hvalues (List.append_eq_nil_iff.mp hnone).1).ofList]

/-- A model that extends nothing and has no validators checks alike what its fields check alike. -/
theorem model_alike {d : Definition} (hbase : d.base = [])
    (hvalidators : d.overrides.validators = []) {origin : Origin} {ms ns : Members Value}
    (h : Members.Pairs (SeenAlike places d.fields) ms ns) :
    RunAlike (d.check places (.obj origin ms)) (d.check places (.obj origin ns)) := by
  refine model_like hvalidators rfl rfl ?_ fun cs cs' _ hnames hcs => ?_
  · rw [hbase]
    exact fun f hf => contribute_alike hf h
  · rw [hbase] at hnames
    exact assemble_alike _ h hcs fun name hname hne => (hnames name).mpr ⟨hname, hne⟩

/-- The models in a type extend nothing and have no validators. -/
def TypeDescriptor.Unvalidated (t : TypeDescriptor) : Prop :=
  ∀ d, Piece.Contains (.type t) (.model d) → d.base = [] ∧ d.overrides.validators = []

/-- Twins of one type are checked alike. -/
theorem twins_alike {t : TypeDescriptor} {v w : Value} (h : Twins t v w) (hmodels : t.Unvalidated)
    (limits : Limits) : RunAlike (t.check places limits v) (t.check places limits w) := by
  induction h generalizing limits with
  | same t v => exact runAlike_refl _
  | secretText s s' => exact .ok ⟨rfl, rfl, fun _ => rfl⟩
  | secretBytes s s' => exact .ok ⟨rfl, rfl, fun _ => rfl⟩
  | list hlength _ ih =>
    refine listOf_alike (forall₂_of_getElem? hlength fun i x y hx hy => ?_)
    exact ih i x y hx hy (fun d hd => hmodels d (.head .items hd)) {}
  | @model d origin ms ns hnames hsame htwins ih =>
    obtain ⟨hbase, hvalidators⟩ := hmodels d (.single .composite)
    unfold TypeDescriptor.check
    apply model_alike hbase hvalidators
    have hlength : ms.length = ns.length := by
      simpa [Members.names] using congrArg List.length hnames
    apply forall₂_of_getElem? hlength
    rintro i ⟨name, x⟩ ⟨name', y⟩ hx hy
    have hname : name = name' := by
      have hat := congrArg (·[i]?) hnames
      simpa [Members.names, hx, hy] using hat
    subst hname
    refine ⟨rfl, fun hfree => hsame i name x y hx hy hfree, ?_⟩
    rintro f hf rfl
    refine ⟨(htwins f hf i x y hx hy).undefined_iff, ih f hf i x y hx hy (fun d' hd' => ?_) f.limits⟩
    exact hmodels d' (.head .composite (.head (.field hf) (.head .fieldType hd')))
  | @optional t v w htwins ih =>
    apply union_like
    intro u hu
    rcases List.mem_cons.mp hu with rfl | hu
    · exact ih (fun d hd => hmodels d (.head (.variant List.mem_cons_self) hd)) limits
    · rw [List.mem_singleton.mp hu]
      exact null_alike htwins

/-! ## Compiled models -/

/-- Inside a compiled model, only the model itself can have validators. -/
theorem unvalidated_of_compiled {d : Definition} {overrides : Overrides}
    (h : d.Compiled overrides) (hvalidators : overrides.validators = []) :
    (TypeDescriptor.composite d).Unvalidated := by
  intro d' hd'
  rcases Relation.ReflTransGen.cases_tail hd' with heq | ⟨q, hq, hholds⟩
  · cases heq
  · cases hholds
    rcases Relation.ReflTransGen.cases_head hq with heq | ⟨r, hr, hrest⟩
    · cases heq
      exact ⟨h.base, by rw [h.overrides, hvalidators]⟩
    · cases hr
      obtain ⟨-, hbase, hoverrides⟩ := @pieces_model Piece.WellFormed d trivial h.base h.fields _ hrest
      exact ⟨hbase, by rw [hoverrides]⟩

/-- The answer and the report to some data are the same whatever the secrets in it are. -/
theorem secrets_never_show {places : Places} {settings : Settings} {schema : Members Json}
    {v w : Value}
    (h : ∀ d, compileSchema schema none settings.overrides = .ok d → Twins (.composite d) v w) :
    validateAnswer places settings.overrides schema v =
        validateAnswer places settings.overrides schema w ∧
      ∀ d, compileSchema schema none settings.overrides = .ok d → ∀ text,
        (∃ issues, d.safeParse places v = .ok (.failure issues) ∧ d.report issues = text) ↔
          ∃ issues, d.safeParse places w = .ok (.failure issues) ∧ d.report issues = text := by
  have hparse : ∀ d, compileSchema schema none settings.overrides = .ok d →
      EndAlike ParseResult.Alike (d.safeParse places v) (d.safeParse places w) := by
    intro d hd
    have hmodels := unvalidated_of_compiled (compiled_of_compile hd) rfl
    exact (twins_alike (h d hd) hmodels {}).map fun o o' ho => toResult_like ho
  constructor
  · unfold validateAnswer
    cases hcompile : compileSchema schema none settings.overrides with
    | error e => rfl
    | ok d =>
      have hend := hparse d hcompile
      simp only
      generalize d.safeParse places v = r at hend
      generalize d.safeParse places w = r' at hend
      cases hend with
      | error clash => rfl
      | ok halike =>
        cases halike with
        | success hshown => simp only [Value.shown, hshown]
        | failure issues => rfl
  · intro d hd text
    have hend := hparse d hd
    generalize d.safeParse places v = r at hend
    generalize d.safeParse places w = r' at hend
    cases hend with
    | error clash => simp
    | ok halike => cases halike <;> simp

/-- A sign-in has a password, and devices with a key each. -/
def signInSchema : Members Json :=
  [("title", .str "SignIn"), ("type", .str "object"),
    ("properties", .obj
      [("user", .obj [("type", .str "string")]),
        ("password", .obj [("type", .str "string"), ("format", .str "password")]),
        ("devices", .obj [("type", .str "array"), ("items", .obj [("type", .str "object"),
          ("properties", .obj [("key", .obj [("type", .str "string"), ("format", .str "password"),
            ("writeOnly", .bool true)])])])])]),
    ("required", .arr [.str "user", .str "password"])]

/-- The sign-in of a user with a password and the key of one device. -/
def signInData (password key : String) : Value :=
  .obj .given [("user", .str "ada"), ("password", .str password),
    ("devices", .arr .given [.obj .given [("key", .str key)]])]

def deviceModel : Definition :=
  ⟨"Devices", [], [⟨"key", .nullable (.semantic .secretBytes), false, true, none, [], {}⟩], {}⟩

def signInModel : Definition :=
  ⟨"SignIn", [],
    [⟨"user", .primitive .string, true, false, none, [], {}⟩,
      ⟨"password", .semantic .secretString, true, false, none, [], {}⟩,
      ⟨"devices", .nullable (.listOf (.composite deviceModel)), false, true, none, [], {}⟩],
    Settings.overrides {}⟩

theorem compile_signIn : compileSchema signInSchema none (Settings.overrides {}) = .ok signInModel :=
  rfl

/-- Two sign-ins of one user are twins. -/
theorem twin_signIns (password password' key key' : String) :
    Twins (.composite signInModel) (signInData password key) (signInData password' key') := by
  have hdevice : Twins (.composite deviceModel) (.obj .given [("key", .str key)])
      (.obj .given [("key", .str key')]) := by
    refine twins_model (.cons ⟨rfl, ?_, ?_⟩ .nil)
    · simp [deviceModel]
    · simpa [deviceModel, TypeDescriptor.nullable] using Twins.optional (.secretBytes key key')
  refine twins_model (.cons ⟨rfl, ?_, ?_⟩ (.cons ⟨rfl, ?_, ?_⟩ (.cons ⟨rfl, ?_, ?_⟩ .nil)))
  · simp
  · simp [signInModel, Twins.same]
  · simp [signInModel]
  · simpa [signInModel] using Twins.secretText password password'
  · simp [signInModel]
  · simp only [signInModel, TypeDescriptor.nullable]
    simpa using Twins.optional (twins_list (.cons hdevice .nil))

theorem a_sign_in_is_shown_without_its_secrets :
    validateAnswer ⟨fun _ => false, fun _ => false⟩ (Settings.overrides {}) signInSchema
        (signInData "lovelace" "engine") =
      validateAnswer ⟨fun _ => false, fun _ => false⟩ (Settings.overrides {}) signInSchema
        (signInData "babbage" "difference") := by
  have h : ∀ d, compileSchema signInSchema none (Settings.overrides {}) = .ok d →
      Twins (.composite d) (signInData "lovelace" "engine") (signInData "babbage" "difference") := by
    intro d hd
    rw [compile_signIn] at hd
    cases hd
    exact twin_signIns _ _ _ _
  exact (secrets_never_show h).1

end JsonModel
