-- Printed definitions. Whichever way the definition of a schema is printed, the text is read back as a
-- definition of the same fields, at any depth, and that definition answers to all data as the first one.
import JsonModel.Proofs.Compile.Taken
import JsonModel.Proofs.Tool.Surfaces

namespace JsonModel

/-! ## What is carried -/

/-- Overrides that a document can record: entries of three names, and no validators. -/
structure Overrides.Recordable (overrides : Overrides) : Prop where
  names : ∀ name ∈ Members.names overrides.carried, name ∈ ["config", "module", "classArgs"]
  in_order : (Json.obj overrides.carried).KeysInOrder
  no_validators : overrides.validators = []

theorem Json.get?_reread (name : String) (j : Json) :
    j.reread.get? name = (j.get? name).map Json.reread := by
  cases j with
  | obj ms =>
    rw [Json.reread_obj]
    exact Json.get?_rereadMembers name ms
  | num n =>
    rw [Json.reread]
    cases n.reread? <;> rfl
  | _ => simp [Json.reread, Json.get?, Json.members?]

theorem Json.str?_reread (j : Json) : j.reread.str? = j.str? := by
  cases j with
  | num n =>
    rw [Json.reread]
    cases n.reread? <;> rfl
  | _ => simp [Json.reread, Json.str?]

/-- How undeclared keys are treated is told by a text. -/
theorem extra_reread (carried : Members Json) (validators validators' : List Validator) :
    Overrides.extra ⟨Json.rereadMembers carried, validators⟩ = Overrides.extra ⟨carried, validators'⟩ := by
  have hsetting : (Overrides.setting? ⟨Json.rereadMembers carried, validators⟩ "extra").bind
      Json.str? = (Overrides.setting? ⟨carried, validators'⟩ "extra").bind Json.str? := by
    unfold Overrides.setting?
    simp only [Json.get?_rereadMembers]
    cases carried.get? "config" with
    | none => rfl
    | some config =>
      simp only [Option.map_some, Option.bind_some, Json.get?_reread]
      cases config.get? "extra" with
      | none => rfl
      | some extra => exact Json.str?_reread extra
  unfold Overrides.extra
  rw [hsetting]

/-- Entries without validators are read back as overrides without validators. -/
theorem ofMembers_eq {carried : Members Json} (h : "validators" ∉ Members.names carried) :
    Overrides.ofMembers carried = ⟨carried, []⟩ := by
  unfold Overrides.ofMembers
  rw [Members.get?_eq_none_iff.mpr h]
  rfl

/-- The fields, the treatment of undeclared keys and the validators are all that a check depends on. -/
theorem safeParse_congr {d d' : Definition} (hbase : d'.base = d.base) (hfields : d'.fields = d.fields)
    (hextra : d'.overrides.extra = d.overrides.extra)
    (hvalidators : d'.overrides.validators = d.overrides.validators) (places : Places) (v : Value) :
    d'.safeParse places v = d.safeParse places v := by
  unfold Definition.safeParse
  cases hmembers : v.members? with
  | none => rw [check_of_no_members hmembers, check_of_no_members hmembers]
  | some ms =>
    rw [check_of_members hmembers, check_of_members hmembers, hbase, hfields, hextra, hvalidators]

/-- What the settings of a project add to a definition is told by a text. -/
theorem told_settings (s : Settings) : (Json.obj s.overrides.carried).Told := by
  simp only [Settings.overrides, Settings.modelMembers, Json.Told, Json.Every, Json.EveryMember,
    List.map_cons, List.map_nil]
  decide

theorem recordable_settings (s : Settings) : s.overrides.Recordable where
  names := by simp [Settings.overrides, Members.names]
  in_order := (told_settings s).keysInOrder
  no_validators := rfl

/-! ## What comes back -/

/-- What comes back from a text of a definition: its name and fields, and what a text tells of what it
carries. -/
def Definition.reread (d : Definition) : Definition :=
  ⟨d.name, [], d.fields, ⟨Json.rereadMembers d.overrides.carried, []⟩⟩

/-- A definition that came back is the one that was printed. -/
structure Definition.Restores (d back : Definition) : Prop where
  name_eq : back.name = d.name
  base_eq : back.base = d.base
  fields_eq : back.fields = d.fields
  /-- It carries what a text tells of what was carried. -/
  overrides_eq : back.overrides = ⟨Json.rereadMembers d.overrides.carried, []⟩
  /-- If a text tells all of that, the two are one. -/
  eq_of_told : (Json.obj d.overrides.carried).Told → back = d
  /-- It answers to all data as the one that was printed. -/
  answers : ∀ places v, back.safeParse places v = d.safeParse places v

/-- The texts that the definition of a schema is printed in: on one line, indented, as the answer of a
tool, and as the output of a command. -/
inductive Definition.PrintedAs (schema : Members Json) (root : Option (Members Json))
    (overrides : Overrides) (d : Definition) : String → Prop
  | compact : PrintedAs schema root overrides d d.toJson.compact
  | pretty : PrintedAs schema root overrides d d.toJson.pretty
  | answer : root = none → PrintedAs schema root overrides d (compileAnswer overrides schema).text
  | output {disk : Disk} {settings : Settings} {path : String} {printout : Printout} :
      root = none → settings.overrides = overrides → readDocument disk path = .ok (.obj schema) →
      Request.perform disk settings (.compile (some path)) = .ok printout →
      PrintedAs schema root overrides d printout.output

section

variable {schema : Members Json} {root : Option (Members Json)} {overrides : Overrides}
  {d : Definition}

/-- However it is printed, the text is that of the document of the definition. -/
theorem read_printed (h : compileSchema schema root overrides = .ok d) {text : String}
    (htext : d.PrintedAs schema root overrides text) : Json.read text = .ok d.toJson.restored := by
  cases htext with
  | compact => exact Json.read_compact _
  | pretty => exact Json.read_pretty _
  | answer hroot =>
    subst hroot
    unfold compileAnswer
    rw [h]
    exact Json.read_pretty _
  | output hroot hsettings hschema hperform =>
    subst hroot hsettings
    unfold Request.perform need at hperform
    simp only [bind, Except.bind, readDefinition_of_object hschema, h, Except.mapError] at hperform
    cases hperform
    exact Json.read_pretty_line _

/-- Where the fields are told by a text, so is the whole definition but for what it carries. -/
theorem restored_toJson (hfields : ∀ f ∈ d.fields, f.toJson.Told)
    (hcarried : (Json.obj d.overrides.carried).KeysInOrder) :
    d.toJson.restored = d.reread.toJson := by
  have htold := told_fields hfields
  rw [Json.restored_eq_reread (every_definition htold.keysInOrder hcarried)]
  obtain ⟨name, base, fields, overrides⟩ := d
  unfold Definition.reread Definition.toJson
  simp only [Json.reread_obj, Json.rereadMembers, Json.reread_str, Json.reread_of_told htold]

/-- Where all pieces of the fields are told by a text, the definition is read back. -/
theorem ofJson?_restored (hpieces : ∀ f ∈ d.fields, ∀ p, Piece.Contains (.field f) p → p.Told)
    (hcarried : (Json.obj d.overrides.carried).KeysInOrder)
    (hnames : "validators" ∉ Members.names d.overrides.carried) :
    Definition.ofJson? d.toJson.restored = some d.reread := by
  have htypes : ∀ f ∈ d.fields, ∀ p, Piece.Contains (.type f.type) p → p.Told :=
    fun f hf p hp => hpieces f hf p (.head .fieldType hp)
  have hfields : ∀ f ∈ d.fields, f.toJson.Told := fun f hf =>
    told_field (hpieces f hf _ .refl) (told_type f.type (htypes f hf))
  have hread : Definition.ofJson? d.reread.toJson = some d.reread.recorded :=
    readBack_definition (d := d.reread) (fun f hf => readBack_type f.type (htypes f hf))
      (Nat.le_succ _)
  have hrecorded : d.reread.recorded = d.reread := by
    unfold Definition.recorded Definition.reread
    rw [ofMembers_eq]
    rwa [Json.names_rereadMembers]
  rw [restored_toJson hfields hcarried, hread, hrecorded]

theorem reread_of_told_carried (hbase : d.base = []) (hvalidators : d.overrides.validators = [])
    (htold : (Json.obj d.overrides.carried).Told) : d.reread = d := by
  have hcarried : Json.rereadMembers d.overrides.carried = d.overrides.carried := by
    simpa using Json.reread_of_told htold
  obtain ⟨name, base, fields, carried, validators⟩ := d
  cases hbase
  cases hvalidators
  unfold Definition.reread
  rw [hcarried]

/-- What comes back is the definition that was printed, if it extends nothing and has no validators. -/
theorem restores_reread (hbase : d.base = []) (hvalidators : d.overrides.validators = []) :
    d.Restores d.reread where
  name_eq := rfl
  base_eq := hbase.symm
  fields_eq := rfl
  overrides_eq := rfl
  eq_of_told := reread_of_told_carried hbase hvalidators
  answers := safeParse_congr hbase.symm rfl (extra_reread _ _ _) hvalidators.symm

end

/-- The definition of a schema survives its text. A schema whose numbers are finite, and none of which is
zero with a sign, compiles to a definition that comes back from every text that it is printed in. -/
theorem a_definition_comes_back_from_its_text {schema : Members Json}
    {root : Option (Members Json)} {overrides : Overrides} {d : Definition}
    (h : compileSchema schema root overrides = .ok d) (hschema : (Json.obj schema).Told)
    (hroot : ∀ r ∈ root, (Json.obj r).Told) (hoverrides : overrides.Recordable) :
    ∃ back, d.Restores back ∧ ∀ text, d.PrintedAs schema root overrides text →
      ∃ document, Json.read text = .ok document ∧ Definition.ofJson? document = some back := by
  have hcompiled := compiled_of_compile h
  have hcarried : (Json.obj d.overrides.carried).KeysInOrder := by
    rw [hcompiled.overrides]
    exact hoverrides.in_order
  have hnames : "validators" ∉ Members.names d.overrides.carried := by
    rw [hcompiled.overrides]
    intro hmem
    simpa using hoverrides.names _ hmem
  have hvalidators : d.overrides.validators = [] := by
    rw [hcompiled.overrides]
    exact hoverrides.no_validators
  have hread := ofJson?_restored (told_of_compile h hschema hroot) hcarried hnames
  exact ⟨d.reread, restores_reread hcompiled.base hvalidators,
    fun text htext => ⟨_, read_printed h htext, hread⟩⟩

/-! ## A definition of a stock -/

/-- A stock has a count, which is not below zero, and perhaps some items. -/
def stockSchema : Members Json :=
  [("title", .str "Stock"),
    ("properties", .obj
      [("count", .obj [("type", .str "integer"), ("minimum", .num .zero),
          ("description", .str "How many there are"), ("examples", .arr [.num .zero])]),
        ("items", .obj [("type", .str "array"), ("items", .obj [("anyOf", .arr
          [.obj [("type", .str "string")],
            .obj [("type", .str "object"), ("properties", .obj [("site", .obj
              [("type", .str "string"), ("format", .str "uri"),
                ("scheme", .arr [.str "https", .str "ftp"])])])]])])])]),
    ("required", .arr [.str "count"])]

def stockModel : Definition :=
  let place : Definition :=
    ⟨fallbackName, [], [⟨"site", .nullable (.semantic .uri), false, true, none, [],
      { schemes := some ["https", "ftp"] }⟩], {}⟩
  ⟨"Stock", [],
    [⟨"count", .primitive .integer, true, false, some "How many there are", [.num .zero],
        { atLeast := some .zero }⟩,
      ⟨"items", .nullable (.listOf (.union [.primitive .string, .composite place])), false, true, none,
        [], {}⟩],
    Settings.overrides {}⟩

theorem told_zero : Number.zero.Told := by
  unfold Number.Told Number.zero Number.negativeZero Number.ofUnits
  rw [dif_pos representable_zero, dif_pos representable_zero]
  exact ⟨rfl, by simp⟩

theorem stockSchema_told : (Json.obj stockSchema).Told := by
  simp only [stockSchema, Json.Told, Json.Every, Json.EveryMember, Json.EveryItem, told_zero,
    List.map_cons, List.map_nil]
  decide

theorem a_stock_comes_back :
    compileSchema stockSchema none (Settings.overrides {}) = .ok stockModel ∧
      ∃ document, Json.read (compileAnswer (Settings.overrides {}) stockSchema).text = .ok document ∧
        Definition.ofJson? document = some stockModel := by
  have hcompile : compileSchema stockSchema none (Settings.overrides {}) = .ok stockModel := rfl
  obtain ⟨back, hback, hprinted⟩ := a_definition_comes_back_from_its_text hcompile stockSchema_told
    (by simp) (recordable_settings {})
  obtain rfl : back = stockModel := hback.eq_of_told (told_settings {})
  exact ⟨hcompile, hprinted _ (.answer rfl)⟩

end JsonModel
