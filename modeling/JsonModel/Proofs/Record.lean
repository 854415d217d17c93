-- Definitions that are recorded as documents and read back. The document of a type says what the type is
-- and holds the documents of its parts, so that each part is read back before the whole is; what is not
-- set has no member, and a member that is missing sets nothing.
import JsonModel.Proofs.Descriptor
import JsonModel.Proofs.Json.Told
import JsonModel.Schema.Record

namespace JsonModel

/-! ## Members that may be missing -/

theorem get?_optionalMember (name key : String) (value : Option Json) :
    Members.get? key (optionalMember name value) = if key = name then value else none := by
  cases value with
  | none => simp [optionalMember]
  | some value => simp [optionalMember, Members.get?_cons]

theorem names_optionalMember (name : String) (value : Option Json) :
    (Members.names (optionalMember name value)).Sublist [name] := by
  cases value with
  | none => exact List.nil_sublist _
  | some value => exact List.Sublist.refl _

/-- One more member that may be missing adds at most its name. -/
theorem names_append_optional {ms : Members Json} {names : List String}
    (h : (Members.names ms).Sublist names) (name : String) (value : Option Json) :
    (Members.names (ms ++ optionalMember name value)).Sublist (names ++ [name]) := by
  have hlast := names_optionalMember name value
  unfold Members.names at h hlast ⊢
  rw [List.map_append]
  exact h.append hlast

theorem mem_optionalMember {name : String} {value : Option Json} {m : String × Json}
    (h : m ∈ optionalMember name value) : value = some m.2 := by
  cases value with
  | none => simp [optionalMember] at h
  | some value =>
    rw [List.mem_singleton.mp h]

/-! ## Lists -/

theorem TypeDescriptor.listToJson_eq_map (ts : List TypeDescriptor) :
    TypeDescriptor.listToJson ts = ts.map TypeDescriptor.toJson := by
  induction ts with
  | nil => rw [TypeDescriptor.listToJson, List.map_nil]
  | cons t ts ih => rw [TypeDescriptor.listToJson, ih, List.map_cons]

theorem Field.listToJson_eq_map (fields : List Field) :
    Field.listToJson fields = fields.map Field.toJson := by
  induction fields with
  | nil => rw [Field.listToJson, List.map_nil]
  | cons f fields ih => rw [Field.listToJson, ih, List.map_cons]

/-- A list is read back as each of its items is. -/
theorem mapM_map_eq_some {α β : Type _} {write : α → β} {read : β → Option α} {xs : List α}
    (h : ∀ x ∈ xs, read (write x) = some x) : (xs.map write).mapM read = some xs := by
  induction xs with
  | nil => rfl
  | cons x xs ih =>
    rw [List.map_cons, List.mapM_cons, h x List.mem_cons_self,
      ih fun y hy => h y (List.mem_cons_of_mem _ hy)]
    rfl

/-! ## Kinds and limits -/

theorem Primitive.ofName?_name (kind : Primitive) : Primitive.ofName? kind.name = some kind := by
  cases kind <;> decide

theorem Semantic.ofName?_name (kind : Semantic) : Semantic.ofName? kind.name = some kind := by
  cases kind <;> decide

theorem filterMap_str (names : List String) : (names.map Json.str).filterMap Json.str? = names := by
  induction names with
  | nil => rfl
  | cons name names ih => simp [Json.str?, ih]

/-- Limits are read back from their document. -/
theorem Limits.ofJson_toMembers (limits : Limits) : Limits.ofJson (.obj limits.toMembers) = limits := by
  obtain ⟨atLeast, above, atMost, below, multipleOf, minLength, maxLength, schemes, strict⟩ := limits
  have hnum : ∀ bound : Option Number, (bound.map Json.num).bind Json.num? = bound := by
    intro bound
    cases bound <;> rfl
  have hschemes : ((schemes.map fun names => Json.arr (names.map .str)).bind Json.items?).map
      (·.filterMap Json.str?) = schemes := by
    cases schemes with
    | none => rfl
    | some names => exact congrArg some (filterMap_str names)
  have hstrict : (if strict then some (Json.bool true).isTruthy else none).getD false = strict := by
    cases strict <;> rfl
  unfold Limits.ofJson Limits.toMembers Json.get? Json.members?
  simp only [Option.bind_some, Members.get?_append, get?_optionalMember]
  simp [hnum, hschemes, hstrict]

/-! ## What documents tell -/

/-- The numbers that limits can set. -/
def Limits.bounds (limits : Limits) : List (Option Number) :=
  [limits.atLeast, limits.above, limits.atMost, limits.below, limits.multipleOf, limits.minLength,
    limits.maxLength]

/-- All of a field that is no type is told by a text: the numbers of its limits, and its examples. -/
structure Field.Told (f : Field) : Prop where
  limits : ∀ n, some n ∈ f.limits.bounds → n.Told
  examples : ∀ j ∈ f.examples, j.Told

/-- A piece whose document tells all of it: fields are told, and a model inside a type extends nothing
and carries nothing of its own. -/
def Piece.Told : Piece → Prop
  | .field f => f.Told
  | .type (.composite d) => d.base = [] ∧ d.overrides = {}
  | _ => True

open Json (Keywords every_of_keywords)

/-- What a limit is recorded under. -/
def Limits.recordKeywords : List String :=
  ["ge", "gt", "le", "lt", "multipleOf", "minLength", "maxLength", "allowedSchemes", "strict"]

/-- What the parts of a type are recorded under. -/
def TypeDescriptor.recordKeywords : List String :=
  ["kind", "primitive", "semantic", "items", "variants", "members", "model"]

/-- What the parts of a field are recorded under. -/
def Field.recordKeywords : List String :=
  ["name", "type", "required", "constraints", "default", "description", "examples"]

/-- What the parts of a definition are recorded under. -/
def Definition.recordKeywords : List String := ["name", "fields", "overrides"]

theorem limits_keywords : Keywords Limits.recordKeywords := ⟨by decide, by decide⟩

theorem type_keywords : Keywords TypeDescriptor.recordKeywords := ⟨by decide, by decide⟩

theorem field_keywords : Keywords Field.recordKeywords := ⟨by decide, by decide⟩

theorem definition_keywords : Keywords Definition.recordKeywords := ⟨by decide, by decide⟩

theorem told_str (s : String) : (Json.str s).Told := trivial

theorem told_bool (b : Bool) : (Json.bool b).Told := trivial

/-- A list is told if the documents of its items are. -/
theorem told_map {α : Type _} {write : α → Json} {xs : List α} (h : ∀ x ∈ xs, (write x).Told) :
    (Json.arr (xs.map write)).Told := by
  refine Json.every_arr.mpr fun item hitem => ?_
  obtain ⟨x, hx, rfl⟩ := List.mem_map.mp hitem
  exact h x hx

theorem told_limits {limits : Limits} (h : ∀ n, some n ∈ limits.bounds → n.Told) :
    (Json.obj limits.toMembers).Told := by
  have hbound : ∀ {name : String} {bound : Option Number}, bound ∈ limits.bounds →
      ∀ m ∈ optionalMember name (bound.map .num), m.2.Told := by
    intro name bound hbound m hm
    obtain ⟨n, hn, hvalue⟩ := Option.map_eq_some_iff.mp (mem_optionalMember hm)
    rw [← hvalue]
    exact h n (hn ▸ hbound)
  have hnames : (Members.names limits.toMembers).Sublist Limits.recordKeywords := by
    unfold Limits.toMembers
    change (Members.names _).Sublist (["ge"] ++ ["gt"] ++ ["le"] ++ ["lt"] ++ ["multipleOf"]
      ++ ["minLength"] ++ ["maxLength"] ++ ["allowedSchemes"] ++ ["strict"])
    iterate 8 apply names_append_optional
    exact names_optionalMember "ge" _
  refine every_of_keywords limits_keywords hnames fun m hm => ?_
  unfold Limits.toMembers at hm
  simp only [List.mem_append] at hm
  obtain (((((((hm | hm) | hm) | hm) | hm) | hm) | hm) | hm) | hm := hm
  case inr =>
    have hstrict := mem_optionalMember hm
    rw [Option.ite_none_right_eq_some, Option.some.injEq] at hstrict
    rw [← hstrict.2]
    exact told_bool true
  case inl.inr =>
    obtain ⟨names, -, hvalue⟩ := Option.map_eq_some_iff.mp (mem_optionalMember hm)
    rw [← hvalue]
    exact told_map fun name _ => told_str name
  all_goals exact hbound (by simp [Limits.bounds]) m hm

theorem told_field {f : Field} (h : f.Told) (htype : f.type.toJson.Told) : f.toJson.Told := by
  obtain ⟨name, type, required, defaultsToNull, description, examples, limits⟩ := f
  unfold Field.toJson
  refine every_of_keywords field_keywords ?_ fun m hm => ?_
  · change (Members.names _).Sublist
      (["name", "type", "required", "constraints"] ++ ["default"] ++ ["description"] ++ ["examples"])
    iterate 3 apply names_append_optional
    exact List.Sublist.refl _
  · simp only [List.mem_append, List.mem_cons, List.not_mem_nil, or_false] at hm
    obtain (((rfl | rfl | rfl | rfl) | hm) | hm) | hm := hm
    · exact told_str name
    · exact htype
    · exact told_bool required
    · exact told_limits h.limits
    · have hdefault := mem_optionalMember hm
      rw [Option.ite_none_right_eq_some, Option.some.injEq] at hdefault
      rw [← hdefault.2]
      trivial
    · obtain ⟨text, -, hvalue⟩ := Option.map_eq_some_iff.mp (mem_optionalMember hm)
      rw [← hvalue]
      exact told_str text
    · have hexamples := mem_optionalMember hm
      rw [Option.ite_none_left_eq_some, Option.some.injEq] at hexamples
      rw [← hexamples.2]
      exact Json.every_arr.mpr h.examples

theorem told_fields {fields : List Field} (h : ∀ f ∈ fields, f.toJson.Told) :
    (Json.arr (Field.listToJson fields)).Told := by
  rw [Field.listToJson_eq_map]
  exact told_map h

theorem told_types {ts : List TypeDescriptor} (h : ∀ t ∈ ts, t.toJson.Told) :
    (Json.arr (TypeDescriptor.listToJson ts)).Told := by
  rw [TypeDescriptor.listToJson_eq_map]
  exact told_map h

theorem every_definition {number : Number → Prop} {d : Definition}
    (hfields : (Json.arr (Field.listToJson d.fields)).Every number
      fun names => names.Nodup ∧ keyOrder names = names)
    (hcarried : (Json.obj d.overrides.carried).Every number
      fun names => names.Nodup ∧ keyOrder names = names) :
    d.toJson.Every number fun names => names.Nodup ∧ keyOrder names = names := by
  obtain ⟨name, base, fields, overrides⟩ := d
  unfold Definition.toJson
  refine every_of_keywords definition_keywords (List.Sublist.refl _) fun m hm => ?_
  simp only [List.mem_cons, List.not_mem_nil, or_false] at hm
  obtain rfl | rfl | rfl := hm
  · trivial
  · exact hfields
  · exact hcarried

/-- The document of a type is told if all its pieces are. -/
theorem told_type (t : TypeDescriptor) :
    (∀ p, Piece.Contains (.type t) p → p.Told) → t.toJson.Told := by
  have hpart : ∀ {ms : Members Json} {kind name : String} {j : Json},
      ms = [("kind", .str kind), (name, j)] → ["kind", name].Sublist TypeDescriptor.recordKeywords →
        j.Told → (Json.obj ms).Told := by
    rintro _ kind name j rfl hnames hj
    refine every_of_keywords type_keywords hnames fun m hm => ?_
    simp only [List.mem_cons, List.not_mem_nil, or_false] at hm
    obtain rfl | rfl := hm
    · exact told_str kind
    · exact hj
  induction t using TypeDescriptor.induction with
  | primitive kind =>
    intro _
    unfold TypeDescriptor.toJson
    exact hpart rfl (by decide) (told_str _)
  | semantic kind =>
    intro _
    unfold TypeDescriptor.toJson
    exact hpart rfl (by decide) (told_str _)
  | mapping | anyList =>
    intro _
    unfold TypeDescriptor.toJson
    refine every_of_keywords type_keywords (by decide) fun m hm => ?_
    rw [List.mem_singleton.mp hm]
    exact told_str _
  | listOf t ih =>
    intro h
    unfold TypeDescriptor.toJson
    exact hpart rfl (by decide) (ih fun p hp => h p (.head .items hp))
  | union ts ih =>
    intro h
    unfold TypeDescriptor.toJson
    exact hpart rfl (by decide)
      (told_types fun t ht => ih t ht fun p hp => h p (.head (.variant ht) hp))
  | intersection ts ih =>
    intro h
    unfold TypeDescriptor.toJson
    exact hpart rfl (by decide)
      (told_types fun t ht => ih t ht fun p hp => h p (.head (.member ht) hp))
  | composite d ih =>
    intro h
    unfold TypeDescriptor.toJson
    refine hpart rfl (by decide) (every_definition (told_fields fun f hf => ?_) ?_)
    · have hfield : ∀ p, Piece.Contains (.field f) p → p.Told := fun p hp =>
        h p (.head .composite (.head (.field hf) hp))
      exact told_field (hfield _ .refl) (ih f hf fun p hp => hfield p (.head .fieldType hp))
    · have hnothing : d.base = [] ∧ d.overrides = {} := h _ .refl
      rw [hnothing.2]
      exact every_of_keywords type_keywords (List.nil_sublist _) (by simp)

/-! ## Reading back -/

/-- The type is read back from its document, whatever fuel its height allows. -/
def TypeDescriptor.ReadBack (t : TypeDescriptor) : Prop :=
  ∀ fuel, t.toJson.height ≤ fuel → TypeDescriptor.ofJsonWith fuel t.toJson = some t

theorem height_lt_of_found {j k : Json} {name : String} (h : j.get? name = some k) :
    k.height < j.height := by
  obtain ⟨ms, hms, hget⟩ := Option.bind_eq_some_iff.mp h
  obtain rfl := Json.eq_obj_of_members? hms
  exact Nat.lt_succ_of_le (Json.height_le_of_member (Members.mem_of_get? hget))

theorem height_lt_of_item {items : List Json} {j : Json} (h : j ∈ items) :
    j.height < (Json.arr items).height := Nat.lt_succ_of_le (Json.height_le_of_item h)

theorem exists_fuel {limit fuel : Nat} (h : limit < fuel) : ∃ less, fuel = less + 1 ∧ limit ≤ less :=
  ⟨fuel - 1, by omega, by omega⟩

/-- To read a type back it is enough to read it in one step, with fuel left for a part of its document. -/
theorem readBack_of_part {t : TypeDescriptor} {name : String} {part : Json}
    (hpart : t.toJson.get? name = some part)
    (hstep : ∀ fuel, part.height ≤ fuel → TypeDescriptor.ofJsonWith (fuel + 1) t.toJson = some t) :
    t.ReadBack := by
  intro fuel hfuel
  obtain ⟨less, rfl, hless⟩ := exists_fuel ((height_lt_of_found hpart).trans_le hfuel)
  exact hstep less hless

theorem readBack_primitive (kind : Primitive) : (TypeDescriptor.primitive kind).ReadBack := by
  have hname : (TypeDescriptor.primitive kind).toJson.get? "primitive" = some (.str kind.name) := rfl
  refine readBack_of_part hname fun fuel _ => ?_
  have hkind : (((TypeDescriptor.primitive kind).toJson.get? "primitive").bind Json.str?).bind
      Primitive.ofName? = some kind := Primitive.ofName?_name kind
  unfold TypeDescriptor.ofJsonWith
  rw [hkind]
  rfl

theorem readBack_semantic (kind : Semantic) : (TypeDescriptor.semantic kind).ReadBack := by
  have hname : (TypeDescriptor.semantic kind).toJson.get? "semantic" = some (.str kind.name) := rfl
  refine readBack_of_part hname fun fuel _ => ?_
  have hkind : (((TypeDescriptor.semantic kind).toJson.get? "semantic").bind Json.str?).bind
      Semantic.ofName? = some kind := Semantic.ofName?_name kind
  unfold TypeDescriptor.ofJsonWith
  rw [hkind]
  rfl

theorem readBack_mapping : TypeDescriptor.mapping.ReadBack :=
  have hkind : TypeDescriptor.mapping.toJson.get? "kind" = some (.str "mapping") := rfl
  readBack_of_part hkind fun _ _ => rfl

theorem readBack_anyList : TypeDescriptor.anyList.ReadBack :=
  have hkind : TypeDescriptor.anyList.toJson.get? "kind" = some (.str "collection") := rfl
  readBack_of_part hkind fun _ _ => rfl

theorem readBack_listOf {t : TypeDescriptor} (h : t.ReadBack) :
    (TypeDescriptor.listOf t).ReadBack := by
  have hitems : (TypeDescriptor.listOf t).toJson.get? "items" = some t.toJson := rfl
  refine readBack_of_part hitems fun fuel hfuel => ?_
  unfold TypeDescriptor.ofJsonWith
  rw [hitems]
  simp only [h fuel hfuel]
  rfl

/-- Types are read back one by one, with the fuel that the list of their documents allows. -/
theorem readBack_types {ts : List TypeDescriptor} (h : ∀ t ∈ ts, t.ReadBack) {fuel : Nat}
    (hfuel : (Json.arr (TypeDescriptor.listToJson ts)).height ≤ fuel) :
    (TypeDescriptor.listToJson ts).mapM (TypeDescriptor.ofJsonWith fuel) = some ts := by
  rw [TypeDescriptor.listToJson_eq_map] at hfuel ⊢
  refine mapM_map_eq_some fun t ht => h t ht fuel ?_
  exact (height_lt_of_item (List.mem_map_of_mem ht)).le.trans hfuel

theorem readBack_union {ts : List TypeDescriptor} (h : ∀ t ∈ ts, t.ReadBack) :
    (TypeDescriptor.union ts).ReadBack := by
  have hvariants : (TypeDescriptor.union ts).toJson.get? "variants" =
      some (.arr (TypeDescriptor.listToJson ts)) := rfl
  refine readBack_of_part hvariants fun fuel hfuel => ?_
  unfold TypeDescriptor.ofJsonWith
  rw [hvariants]
  simp only [Json.items?, Option.bind_eq_bind, Option.bind_some, readBack_types h hfuel]
  rfl

theorem readBack_intersection {ts : List TypeDescriptor} (h : ∀ t ∈ ts, t.ReadBack) :
    (TypeDescriptor.intersection ts).ReadBack := by
  have hmembers : (TypeDescriptor.intersection ts).toJson.get? "members" =
      some (.arr (TypeDescriptor.listToJson ts)) := rfl
  refine readBack_of_part hmembers fun fuel hfuel => ?_
  unfold TypeDescriptor.ofJsonWith
  rw [hmembers]
  simp only [Json.items?, Option.bind_eq_bind, Option.bind_some, readBack_types h hfuel]
  rfl

/-- What stands under the keywords of a field that may be missing. -/
theorem get?_field_optional (f : Field) :
    f.toJson.get? "default" = (if f.defaultsToNull then some .null else none) ∧
      f.toJson.get? "description" = f.description.map .str ∧
        f.toJson.get? "examples" = if f.examples.isEmpty then none else some (.arr f.examples) := by
  obtain ⟨name, type, required, defaultsToNull, description, examples, limits⟩ := f
  unfold Field.toJson Json.get? Json.members?
  simp [Members.get?_append, Members.get?_cons, get?_optionalMember]

/-- A field is read back as soon as its type is. -/
theorem readBack_field {f : Field} (h : f.type.ReadBack) {fuel : Nat} (hfuel : f.toJson.height ≤ fuel) :
    Field.ofJsonWith fuel f.toJson = some f := by
  obtain ⟨hdefault, hdescription, hexamples⟩ := get?_field_optional f
  obtain ⟨name, type, required, defaultsToNull, description, examples, limits⟩ := f
  generalize hj : (Field.mk name type required defaultsToNull description examples limits).toJson = j
    at *
  have hname : (j.get? "name").bind Json.str? = some name := hj ▸ rfl
  have htype : j.get? "type" = some type.toJson := hj ▸ rfl
  have hrequired : ((j.get? "required").map Json.isTruthy).getD false = required := hj ▸ rfl
  have hlimits : ((j.get? "constraints").map Limits.ofJson).getD {} = limits := by
    rw [← hj]
    exact limits.ofJson_toMembers
  have hdescription' : (j.get? "description").bind Json.str? = description := by
    rw [hdescription]
    cases description <;> rfl
  have hexamples' : ((j.get? "examples").bind Json.items?).getD [] = examples := by
    rw [hexamples]
    cases examples <;> rfl
  obtain ⟨fuel, rfl, hless⟩ := exists_fuel ((height_lt_of_found htype).trans_le hfuel)
  unfold Field.ofJsonWith
  rw [hname, htype, hrequired, hlimits, hdefault, hdescription', hexamples']
  simp only [Option.bind_eq_bind, Option.bind_some, h fuel hless]
  cases defaultsToNull <;> rfl

/-- The definition that comes back: its validators are lost, as they are not part of the document, and
so are the fields of what it extends. -/
def Definition.recorded (d : Definition) : Definition :=
  { d with base := [], overrides := .ofMembers d.overrides.carried }

/-- A definition is read back as soon as the types of its fields are. -/
theorem readBack_definition {d : Definition} (h : ∀ f ∈ d.fields, f.type.ReadBack) {fuel : Nat}
    (hfuel : d.toJson.height ≤ fuel) : Definition.ofJsonWith fuel d.toJson = some d.recorded := by
  obtain ⟨name, base, fields, overrides⟩ := d
  generalize hj : (Definition.mk name base fields overrides).toJson = j at *
  have hfields : j.get? "fields" = some (.arr (Field.listToJson fields)) := hj ▸ rfl
  have hitems : (j.get? "fields").bind Json.items? = some (Field.listToJson fields) := hj ▸ rfl
  have hname : (j.get? "name").bind Json.str? = some name := hj ▸ rfl
  have hcarried : ((j.get? "overrides").bind Json.members?).getD [] = overrides.carried := hj ▸ rfl
  obtain ⟨fuel, rfl, hless⟩ := exists_fuel ((height_lt_of_found hfields).trans_le hfuel)
  have hread : (Field.listToJson fields).mapM (Field.ofJsonWith fuel) = some fields := by
    rw [Field.listToJson_eq_map] at hless ⊢
    refine mapM_map_eq_some fun f hf => readBack_field (h f hf) ?_
    exact (height_lt_of_item (List.mem_map_of_mem hf)).le.trans hless
  unfold Definition.ofJsonWith
  rw [hitems, hname, hcarried]
  simp only [Option.bind_eq_bind, Option.bind_some, hread]
  rfl

/-- A type is read back if no model inside it extends anything or carries anything of its own. -/
theorem readBack_type (t : TypeDescriptor) :
    (∀ p, Piece.Contains (.type t) p → p.Told) → t.ReadBack := by
  induction t using TypeDescriptor.induction with
  | primitive kind => exact fun _ => readBack_primitive kind
  | semantic kind => exact fun _ => readBack_semantic kind
  | mapping => exact fun _ => readBack_mapping
  | anyList => exact fun _ => readBack_anyList
  | listOf t ih => exact fun h => readBack_listOf (ih fun p hp => h p (.head .items hp))
  | union ts ih =>
    exact fun h => readBack_union fun t ht => ih t ht fun p hp => h p (.head (.variant ht) hp)
  | intersection ts ih =>
    exact fun h =>
      readBack_intersection fun t ht => ih t ht fun p hp => h p (.head (.member ht) hp)
  | composite d ih =>
    intro h
    have hnothing : d.base = [] ∧ d.overrides = {} := h _ .refl
    have hmodel : (TypeDescriptor.composite d).toJson.get? "model" = some d.toJson := rfl
    have hrecorded : d.recorded = d := by
      obtain ⟨name, base, fields, overrides⟩ := d
      obtain ⟨rfl, rfl⟩ := hnothing
      rfl
    have htypes : ∀ f ∈ d.fields, f.type.ReadBack := fun f hf => ih f hf fun p hp =>
      h p (.head .composite (.head (.field hf) (.head .fieldType hp)))
    refine readBack_of_part hmodel fun fuel hfuel => ?_
    have hread := readBack_definition htypes hfuel
    unfold TypeDescriptor.ofJsonWith
    rw [hmodel]
    simp only [Option.bind_eq_bind, Option.bind_some, hread, hrecorded]
    rfl

end JsonModel
