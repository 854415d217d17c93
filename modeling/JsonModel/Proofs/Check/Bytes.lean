-- Bytes in documents. A property of base64 text takes the text of any bytes, and what comes out are the
-- bytes themselves, be the property required or not.
import JsonModel.Proofs.Bytes.Base64
import JsonModel.Proofs.Check.Bounds
import JsonModel.Proofs.Check.Links

namespace JsonModel

/-! ## What a model takes for a value -/

/-- Apart from one field, nothing objects to some data: no other field that is checked, no rule on
undeclared keys, and no validator that is asked about an object with the value of the field. -/
structure Definition.SilentBeside (places : Places) (m : Definition) (data : Value) (name : String)
    (value : Value) : Prop where
  fields : ∀ entry ∈ m.checked, entry.1 ≠ name → entry.2.Clean places data
  keys : m.overrides.extra = .forbid → ∀ ms, data.members? = some ms →
    undeclared (Members.names m.checked) ms = []
  validators : ∀ values, Members.get? name values = some value →
    complaints m.overrides.validators (.obj .made values) = []

/-- What the data has under a name is taken, and a value comes out for it. -/
structure Definition.TakesFor (places : Places) (m : Definition) (data : Value) (name : String)
    (value : Value) : Prop where
  /-- Whatever is wrong with the data, it is not what stands under the name. -/
  untold : ∀ result, m.safeParse places data = .ok result → issuesUnder name result.issues = []
  comes_out : ∀ out, m.safeParse places data = .ok (.success out) →
    ∃ values, out = .obj .made values ∧ Members.get? name values = some value
  /-- The data is accepted if nothing else objects to it. -/
  accepted : m.SilentBeside places data name value →
    ∃ out, m.safeParse places data = .ok (.success out)

section

variable {places : Places} {m : Definition} {f : Field} {name : String} {data value : Value}
  {ms : Members Value} {o : Outcome} {validators : List Validator}

/-- What a field gives for the value that it reads is all that it adds. -/
theorem contribute_of_gives {read : Value} (hread : data.read? f.name = some read)
    (hdefined : read ≠ .undefined) (h : f.Gives places read value) :
    f.contribute places data = .ok ⟨[], some value⟩ := by
  unfold Field.Gives TypeDescriptor.Gives TypeDescriptor.safeParse at h
  obtain ⟨o, ho, hresult⟩ := map_ok_iff.mp h
  obtain ⟨haccepted, rfl⟩ := toResult_eq_success.mp hresult
  have hclean : o.issues = [] := List.isEmpty_iff.mp haccepted
  rw [contribute_found hread hdefined, ho]
  simp [Except.map, hclean]

/-- Validators have nothing to say about a single name. -/
theorem issuesUnder_runValidators :
    issuesUnder name (runValidators validators o).issues = issuesUnder name o.issues := by
  unfold runValidators
  split
  · rfl
  · unfold issuesUnder
    simp only [complaints_eq_flatMap, List.filter_append, List.append_right_eq_self,
      List.filter_eq_nil_iff]
    intro issue hissue
    obtain ⟨_, -, _, -, rfl⟩ := mem_complaints.mp hissue
    simp

theorem value_runValidators : (runValidators validators o).value = o.value := by
  unfold runValidators
  split <;> rfl

/-- The field that is checked under a name is the one that the model has for it. -/
theorem get?_checked (hname : name ≠ reservedName) : Members.get? name m.checked = m.field? name := by
  unfold Definition.checked
  rw [Members.get?_erase, if_neg hname, Members.get?_ofList_last, ← List.map_reverse,
    get?_map_field fun f => f]
  exact Option.map_id'

/-- Before the validators are asked, nothing is reported under a name whose field has nothing to report,
and the value that the field adds is there. -/
theorem plain_of_contribute (hname : name ≠ reservedName) (hdata : data.members? = some ms)
    (hfield : m.field? name = some f) (hadds : f.contribute places data = .ok ⟨[], some value⟩)
    (ho : m.withoutValidators.check places data = .ok o) :
    issuesUnder name o.issues = [] ∧
      ∃ values, o.value = .obj .made values ∧ Members.get? name values = some value := by
  rw [check_withoutValidators hdata] at ho
  obtain ⟨cs, hcs, rfl⟩ := map_ok_iff.mp ho
  obtain ⟨c, hadded, hc⟩ := get?_inOrder hcs hname hfield
  rw [hadds] at hadded
  cases hadded
  have hnames := (inOrder_names hcs).1
  exact ⟨issuesUnder_assemble (underNames_of_inOrder hcs) hnames hc,
    get?_assembled_added hnames hc rfl⟩

/-- Where nothing else objects and the field has nothing to report, no field has. -/
theorem Definition.SilentBeside.clean (h : m.SilentBeside places data name value)
    (hname : name ≠ reservedName) (hfield : m.field? name = some f) (hclean : f.Clean places data) :
    ∀ entry ∈ m.checked, entry.2.Clean places data := by
  intro entry hentry
  by_cases hother : entry.1 = name
  · have hfound := Members.get?_of_mem (nodup_checked m) hentry
    rw [hother, get?_checked hname, hfield] at hfound
    cases hfound
    exact hclean
  · exact h.fields entry hentry hother

/-- Where the field of a name adds a value and reports nothing, the model takes what is there. -/
theorem takesFor_of_contribute (hname : name ≠ reservedName) (hdata : data.members? = some ms)
    (hfield : m.field? name = some f) (hadds : f.contribute places data = .ok ⟨[], some value⟩) :
    m.TakesFor places data name value where
  untold result hresult := by
    unfold Definition.safeParse at hresult
    rw [check_eq_runValidators] at hresult
    obtain ⟨_, hchecked, rfl⟩ := map_ok_iff.mp hresult
    obtain ⟨o, ho, rfl⟩ := map_ok_iff.mp hchecked
    rw [issues_toResult, issuesUnder_runValidators]
    exact (plain_of_contribute hname hdata hfield hadds ho).1
  comes_out out hout := by
    unfold Definition.safeParse at hout
    rw [check_eq_runValidators] at hout
    obtain ⟨_, hchecked, hsuccess⟩ := map_ok_iff.mp hout
    obtain ⟨o, ho, rfl⟩ := map_ok_iff.mp hchecked
    obtain ⟨-, rfl⟩ := toResult_eq_success.mp hsuccess
    rw [value_runValidators]
    exact (plain_of_contribute hname hdata hfield hadds ho).2
  accepted hsilent := by
    obtain ⟨cs, hcs, haccepted⟩ :=
      assembled_of_clean (hsilent.clean hname hfield ⟨_, hadds, rfl⟩) fun hforbid =>
        hsilent.keys hforbid ms hdata
    have ho : m.withoutValidators.check places data = .ok (assemble m.overrides.extra ms cs) := by
      rw [check_withoutValidators hdata, hcs]
      rfl
    have hissues : (assemble m.overrides.extra ms cs).issues = [] := List.isEmpty_iff.mp haccepted
    obtain ⟨-, values, hvalues, hget⟩ := plain_of_contribute hname hdata hfield hadds ho
    refine ⟨.obj .made values, ?_⟩
    rw [safeParse_of_unstopped ho (by simp [hissues]), hissues, hvalues,
      hsilent.validators values hget]
    rfl

end

/-! ## Bytes and their text -/

/-- A node describes bytes: its type counts, and is a text with the format of base64. -/
structure DescribesBytes (node : Members Json) : Prop where
  reads_type : readsType node = true
  type_eq : node.get? "type" = some (.str "string")
  format_eq : node.get? "format" = some (.str "base64")

section

variable {places : Places} {schema node : Members Json} {root : Option (Members Json)}
  {overrides : Overrides} {d m : Definition} {name : String} {requiredNames : List String}
  {data : Value} {ms : Members Value}

theorem DescribesBytes.settled {root : Members Json} {hint : Option String}
    (h : DescribesBytes node) : Settled root hint node (.primitive .string) :=
  settled_scalar h.reads_type h.type_eq rfl

theorem DescribesBytes.refine_eq (h : DescribesBytes node) :
    refine (.primitive .string) node = (.semantic .base64Bytes, {}) := by
  have hformat : format? node = some .base64 := by
    unfold format?
    rw [h.format_eq]
    rfl
  unfold refine
  rw [hformat]
  rfl

theorem base64Bytes_gives (content : List UInt8) (limits : Limits) :
    (TypeDescriptor.semantic .base64Bytes).Gives places limits (.str (Base64.encode content))
      (.bytes .made content) := by
  have hcheck : Semantic.base64Bytes.check places limits (.str (Base64.encode content)) =
      .accept (.bytes .made content) := by
    unfold Semantic.check changed
    simp only [Base64.decode?_encode]
  unfold TypeDescriptor.Gives TypeDescriptor.safeParse TypeDescriptor.check
  rw [hcheck]
  rfl

/-- The field of such a node gives the bytes for their text, required or not. -/
theorem gives_fieldOf_bytes (hnode : DescribesBytes node) (content : List UInt8) :
    (fieldOf requiredNames name node (.primitive .string)).Gives places
      (.str (Base64.encode content)) (.bytes .made content) := by
  rw [gives_fieldOf rfl, hnode.refine_eq]
  exact base64Bytes_gives content {}

/-- The base64 text of any bytes is taken for a property of base64 text, required or not, and what
comes out are the bytes. The model is that of the schema, or one that extends it or is extended by it
without another field of that name. -/
theorem bytes_come_back_from_their_text {content : List UInt8}
    (h : compileSchema schema root overrides = .ok d) (hschema : (Json.obj schema).Distinct)
    (hproperty : (name, .obj node) ∈ propertiesOf schema) (hname : name ≠ reservedName)
    (hnode : DescribesBytes node) (hchecked : m.field? name = d.field? name)
    (hdata : data.members? = some ms)
    (hread : data.read? name = some (.str (Base64.encode content))) :
    m.TakesFor places data name (.bytes .made content) := by
  obtain ⟨base, hbase, hfield⟩ := field?_of_compile h hschema hproperty
  obtain rfl := hbase.unique hnode.settled
  rw [← hchecked] at hfield
  have hgives : (fieldOf (textsOf (schema.get? "required")) name node (.primitive .string)).Gives
      places (.str (Base64.encode content)) (.bytes .made content) :=
    gives_fieldOf_bytes hnode content
  exact takesFor_of_contribute hname hdata hfield (contribute_of_gives hread (by simp) hgives)

end

/-- A member has a portrait, may have a greeting, and has nothing else. -/
def memberSchema : Members Json :=
  [("properties", .obj
      [("greeting", .obj [("type", .str "string"), ("format", .str "base64")]),
        ("portrait", .obj [("format", .str "base64"), ("type", .str "string")])]),
    ("required", .arr [.str "portrait"])]

def memberOverrides : Overrides where
  carried := [("config", .obj [("extra", .str "forbid")])]

def memberModel : Definition :=
  ⟨fallbackName, [],
    [⟨"greeting", .nullable (.semantic .base64Bytes), false, true, none, [], {}⟩,
      ⟨"portrait", .semantic .base64Bytes, true, false, none, [], {}⟩], memberOverrides⟩

/-- A member whose greeting has no sound. -/
def silentMember : Value := .obj .given [("portrait", .str "/9gBAA=="), ("greeting", .str "")]

theorem a_silent_member_has_no_bytes_for_a_greeting :
    compileSchema memberSchema none memberOverrides = .ok memberModel ∧
      ∃ values, memberModel.safeParse ⟨fun _ => false, fun _ => false⟩ silentMember =
          .ok (.success (.obj .made values)) ∧
        Members.get? "portrait" values = some (.bytes .made [255, 216, 1, 0]) ∧
        Members.get? "greeting" values = some (.bytes .made []) := by
  have hcompile : compileSchema memberSchema none memberOverrides = .ok memberModel := rfl
  have hdistinct : (Json.obj memberSchema).Distinct := by
    simp [memberSchema, Json.Distinct, Json.Every, Json.EveryMember, Json.EveryItem]
  have hportrait : silentMember.read? "portrait" = some (.str (Base64.encode [255, 216, 1, 0])) := by
    have htext : Base64.encode [255, 216, 1, 0] = "/9gBAA==" := by decide +kernel
    rw [htext]
    rfl
  have hportraits : memberModel.TakesFor ⟨fun _ => false, fun _ => false⟩ silentMember "portrait"
      (.bytes .made [255, 216, 1, 0]) :=
    bytes_come_back_from_their_text hcompile hdistinct (List.mem_cons_of_mem _ List.mem_cons_self)
      (by decide) ⟨rfl, rfl, rfl⟩ rfl rfl hportrait
  have hgreetings : memberModel.TakesFor ⟨fun _ => false, fun _ => false⟩ silentMember "greeting"
      (.bytes .made []) :=
    bytes_come_back_from_their_text hcompile hdistinct List.mem_cons_self
      (by decide) ⟨rfl, rfl, rfl⟩ rfl rfl rfl
  refine ⟨hcompile, ?_⟩
  have hsilent : memberModel.SilentBeside ⟨fun _ => false, fun _ => false⟩ silentMember "portrait"
      (.bytes .made [255, 216, 1, 0]) := by
    refine ⟨fun entry hentry hother => ?_, fun _ ms hms => ?_, fun _ _ => rfl⟩
    · have hchecked : memberModel.checked = memberModel.fields.map fun f => (f.name, f) := rfl
      rw [hchecked] at hentry
      simp only [memberModel, List.map_cons, List.map_nil, List.mem_cons, List.not_mem_nil,
        or_false] at hentry
      rcases hentry with rfl | rfl
      · exact ⟨⟨[], some (.bytes .made [])⟩, rfl, rfl⟩
      · exact absurd rfl hother
    · cases hms
      decide
  obtain ⟨out, hout⟩ := hportraits.accepted hsilent
  obtain ⟨values, rfl, hvalue⟩ := hportraits.comes_out out hout
  obtain ⟨_, heq, hvalue'⟩ := hgreetings.comes_out _ hout
  cases heq
  exact ⟨values, hout, hvalue, hvalue'⟩

/-- Under the reserved name nothing comes out, whatever the data has there. -/
theorem nothing_comes_out_under_the_reserved_name {places : Places} {m : Definition} {data out : Value}
    (h : m.safeParse places data = .ok (.success out)) :
    ∃ values, out = .obj .made values ∧ Members.get? reservedName values = none := by
  obtain ⟨o, ho, hsuccess⟩ := map_ok_iff.mp h
  obtain ⟨haccepted, rfl⟩ := toResult_eq_success.mp hsuccess
  cases hdata : data.members? with
  | none =>
    rw [check_of_no_members hdata] at ho
    cases ho
    cases haccepted
  | some ms =>
    rw [check_of_members hdata] at ho
    obtain ⟨cs, hcs, rfl⟩ := map_ok_iff.mp ho
    have hadded : reservedName ∉ Members.names (addedValues cs) := fun hmem =>
      (((inOrder_names hcs).2 _).mp ((names_addedValues cs).subset hmem)).2 rfl
    have hextra : Members.get? reservedName (undeclared (cs.map Prod.fst) ms) = none := by
      rw [get?_undeclared, if_neg fun hkept => hkept.1 rfl]
    rw [value_runValidators]
    cases m.overrides.extra with
    | ignore | forbid =>
      exact ⟨_, rfl, Members.get?_eq_none_iff.mpr (mt Members.mem_names_ofList.mp hadded)⟩
    | allow =>
      refine ⟨_, rfl, Members.get?_eq_none_iff.mpr (mt Members.mem_names_ofList.mp ?_)⟩
      rw [List.map_append, List.mem_append, not_or]
      exact ⟨hadded, Members.get?_eq_none_iff.mp hextra⟩

end JsonModel
