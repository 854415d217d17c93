-- Checks by types in another order. They accept the same data, and what they make of it is the same
-- at every depth, since an intersection makes the least value that holds what its members make.
import JsonModel.Proofs.Check.Make
import JsonModel.Proofs.Compile.Rearrange

namespace JsonModel

variable {places : Places} {limits : Limits} {d : Json} {v v' : Value}

/-! ## Plain types -/

theorem names_of_frames {fields fields' : List Field}
    (h : List.Forall₂ Field.SameFrame fields fields') :
    fields'.map Field.name = fields.map Field.name := by
  induction h with
  | nil => rfl
  | cons hhead _ ih => rw [List.map_cons, List.map_cons, hhead.name, ih]

/-- Fields that are declared alike make a model regular if they are plain. -/
theorem regular_of_frames {m m' : Definition} (h : m.Regular) (hbase : m'.base = m.base)
    (hoverrides : m'.overrides = m.overrides)
    (hframes : List.Forall₂ Field.SameFrame m.fields m'.fields)
    (hfields : ∀ f ∈ m'.fields, f.type.Plain) : m'.Regular := by
  have hnames := names_of_frames hframes
  refine ⟨⟨hbase.trans h.built.no_base, rfl, ?_, fun f' hf' => ?_⟩, ?_, fun f' hf' => ?_, hfields⟩
  · rw [hnames]
    exact h.built.names_nodup
  · obtain ⟨f, hf, hframe⟩ := exists_of_forall₂ hframes.flip hf'
    rw [hframe.defaultsToNull, hframe.required]
    exact h.built.default_iff f hf
  · rw [hoverrides]
    exact h.validators
  · obtain ⟨f, hf, hframe⟩ := exists_of_forall₂ hframes.flip hf'
    rw [hframe.name]
    exact h.own f hf

theorem plain_of_regular {m : Definition} (h : m.Regular) (hoverrides : m.overrides = {}) :
    (TypeDescriptor.composite m).Plain := by
  obtain ⟨name, base, fields, overrides⟩ := m
  obtain rfl : base = [] := h.built.no_base
  obtain rfl : overrides = {} := hoverrides
  exact ⟨⟨h.built, h.own⟩, trivial, Field.everyOf_iff.mpr h.fields⟩

theorem plain_reordered {t t' : TypeDescriptor} (h : t.Reordered t') (ht : t.Plain) :
    t'.Plain := by
  induction h with
  | same => exact ht
  | listOf _ ih => exact ih ht
  | union hlength _ ih =>
    refine TypeDescriptor.everyOf_iff.mpr fun u hu => ?_
    obtain ⟨t, ht', hplain⟩ := exists_of_forall₂ (forall₂_of_getElem? hlength ih).flip hu
    exact hplain (TypeDescriptor.everyOf_iff.mp ht t ht')
  | intersection hlength _ hperm ih =>
    refine TypeDescriptor.everyOf_iff.mpr fun u hu => ?_
    obtain ⟨t, ht', hplain⟩ :=
      exists_of_forall₂ (forall₂_of_getElem? hlength ih).flip (hperm.mem_iff.mpr hu)
    exact hplain (TypeDescriptor.everyOf_iff.mp ht t ht')
  | composite hbase hoverrides hframes _ ih =>
    obtain ⟨hregular, hnone⟩ := regular_of_plain ht
    refine plain_of_regular (regular_of_frames hregular hbase hoverrides hframes ?_)
      (hoverrides.trans hnone)
    intro f' hf'
    obtain ⟨f, hf, hplain⟩ :=
      exists_of_forall₂ (forall₂_of_getElem? hframes.length_eq ih).flip hf'
    exact hplain (hregular.fields f hf)

theorem regular_reordered {m m' : Definition} (h : m.Reordered m') (hm : m.Regular) :
    m'.Regular := by
  refine regular_of_frames hm h.base h.overrides (h.fields.imp fun _ _ hf => hf.toSameFrame) ?_
  intro f' hf'
  obtain ⟨f, hf, hreordered⟩ := exists_of_forall₂ h.fields.flip hf'
  exact plain_reordered hreordered.type (hm.fields f hf)

/-! ## What is accepted -/

theorem field_accepts_eq {f f' : Field} (h : f.SameFrame f')
    (htype : ∀ limits d, f'.type.accepts places limits d = f.type.accepts places limits d)
    (ms : Members Json) : f'.accepts places ms = f.accepts places ms := by
  unfold Field.accepts
  rw [h.name, h.limits, h.required]
  simp only [htype]

/-- Types in another order accept the same data. -/
theorem accepts_reordered {t t' : TypeDescriptor} (h : t.Reordered t') (limits : Limits)
    (d : Json) : t'.accepts places limits d = t.accepts places limits d := by
  induction h generalizing limits d with
  | same => rfl
  | listOf _ ih =>
    unfold TypeDescriptor.accepts
    simp only [ih]
  | union hlength _ ih =>
    unfold TypeDescriptor.accepts
    rw [anyAccepts_eq_any, anyAccepts_eq_any]
    exact any_of_forall₂ (forall₂_of_getElem? hlength ih) fun _ _ heq => heq limits d
  | intersection hlength _ hperm ih =>
    unfold TypeDescriptor.accepts
    rw [allAccept_eq_all, allAccept_eq_all, ← hperm.all_eq]
    exact all_of_forall₂ (forall₂_of_getElem? hlength ih) fun _ _ heq => heq {} d
  | @composite m m' _ _ hframes _ ih =>
    have hfields : List.Forall₂ (fun f f' => f.SameFrame f' ∧ ∀ limits d,
        f'.type.accepts places limits d = f.type.accepts places limits d) m.fields m'.fields :=
      forall₂_of_getElem? hframes.length_eq fun i f f' hf hf' =>
        ⟨rel_of_getElem? hframes hf hf', ih i f f' hf hf'⟩
    obtain ⟨_, _, _, _⟩ := m
    obtain ⟨_, _, _, _⟩ := m'
    unfold TypeDescriptor.accepts Definition.accepts
    cases d with
    | obj ms =>
      simp only
      rw [allAccept_eq_fields, allAccept_eq_fields]
      exact all_of_forall₂ hfields fun f f' hf => field_accepts_eq hf.1 hf.2 ms
    | _ => rfl

/-! ## What is made -/

/-- Two types make the same of the same data, each no more than the other. -/
def TypeDescriptor.MakesAlike (places : Places) (t t' : TypeDescriptor) : Prop :=
  ∀ limits d v v', d.IsData → t.Makes places limits d v → t'.Makes places limits d v' →
    v ≤ v' ∧ v' ≤ v

theorem field_makes_alike {f f' : Field} (hframe : f.SameFrame f')
    (htype : f.type.MakesAlike places f'.type) {ms : Members Json} (hd : (Json.obj ms).IsData)
    (h : f.Makes places ms v) (h' : f'.Makes places ms v') : v ≤ v' ∧ v' ≤ v := by
  unfold Field.Makes at h'
  rw [hframe.name, hframe.limits] at h'
  cases hget : ms.get? f.name with
  | some d =>
    exact htype f.limits d v v' (Json.hereditary_every.found hd hget) (h.1 d hget) (h'.1 d hget)
  | none =>
    obtain ⟨-, rfl⟩ := h.2 hget
    obtain ⟨-, rfl⟩ := h'.2 hget
    exact ⟨le_rfl, le_rfl⟩

/-- Models whose fields make the same make the same objects. -/
theorem fills_alike {m m' : Definition} (hoverrides : m'.overrides = m.overrides)
    (hfields : List.Forall₂ (fun f f' => f.SameFrame f' ∧ f.type.MakesAlike places f'.type)
      m.fields m'.fields)
    {ms : Members Json} {values values' : Members Value} (hd : (Json.obj ms).IsData)
    (hfills : m.Fills places ms values) (hfills' : m'.Fills places ms values') :
    Value.obj .made values ≤ .obj .made values' ∧ Value.obj .made values' ≤ .obj .made values := by
  have hnames := names_of_frames (hfields.imp fun _ _ hf => hf.1)
  have hmembers : ∀ name, (values.get? name = none ∧ values'.get? name = none) ∨
      ∃ v v', values.get? name = some v ∧ values'.get? name = some v' ∧ v ≤ v' ∧ v' ≤ v := by
    intro name
    by_cases hname : name ∈ m.fields.map Field.name
    · obtain ⟨f, hf, rfl⟩ := List.mem_map.mp hname
      obtain ⟨f', hf', hframe, htype⟩ := exists_of_forall₂ hfields hf
      obtain ⟨v, hv, hmakes⟩ := hfills.declared f hf
      obtain ⟨v', hv', hmakes'⟩ := hfills'.declared f' hf'
      rw [hframe.name] at hv'
      exact .inr ⟨v, v', hv, hv', field_makes_alike hframe htype hd hmakes hmakes'⟩
    · rw [hfills.undeclared name hname, hfills'.undeclared name (hnames ▸ hname), hoverrides]
      cases if m.overrides.extra = .allow ∧ name ≠ reservedName then
        (ms.get? name).map Value.ofJson else none with
      | none => exact .inl ⟨rfl, rfl⟩
      | some v => exact .inr ⟨v, v, rfl, rfl, le_rfl, le_rfl⟩
  constructor
  · refine obj_le_iff.mpr ⟨_, _, rfl, fun name v hv => ?_⟩
    rcases hmembers name with ⟨hnone, -⟩ | ⟨w, w', hw, hw', hle, -⟩
    · simp [hnone] at hv
    · rw [hv] at hw
      cases hw
      exact ⟨w', hw', hle⟩
  · refine obj_le_iff.mpr ⟨_, _, rfl, fun name v hv => ?_⟩
    rcases hmembers name with ⟨-, hnone⟩ | ⟨w, w', hw, hw', -, hge⟩
    · simp [hnone] at hv
    · rw [hv] at hw'
      cases hw'
      exact ⟨w, hw, hge⟩

theorem listOf_makes_alike {t t' : TypeDescriptor} (h : t.MakesAlike places t') :
    (TypeDescriptor.listOf t).MakesAlike places (.listOf t') := by
  intro limits d v v' hd hmakes hmakes'
  obtain ⟨items, values, rfl, rfl, hall⟩ := makes_listOf hmakes
  obtain ⟨_, values', heq, rfl, hall'⟩ := makes_listOf hmakes'
  cases heq
  have hitem : ∀ (i : Nat) (x y : Value), values[i]? = some x → values'[i]? = some y →
      x ≤ y ∧ y ≤ x := by
    intro i x y hx hy
    obtain ⟨item, hitem⟩ := exists_getElem? hall.length_eq.symm hx
    exact h {} item x y (Json.hereditary_every.item hd (List.mem_of_getElem? hitem))
      (rel_of_getElem? hall hitem hx) (rel_of_getElem? hall' hitem hy)
  have hlength := hall.length_eq.symm.trans hall'.length_eq
  exact ⟨arr_le_iff.mpr ⟨_, _, rfl, hlength, fun i x y hx hy => (hitem i x y hx hy).1⟩,
    arr_le_iff.mpr ⟨_, _, rfl, hlength.symm, fun i y x hy hx => (hitem i x y hx hy).2⟩⟩

/-- Each member on either side makes no more than what its counterpart makes, which the other
intersection holds. -/
theorem intersection_makes_alike {ts us : List TypeDescriptor} (hts : ∀ t ∈ ts, t.Plain)
    (hus : ∀ u ∈ us, u.Plain) (hlength : ts.length = us.length)
    (hleft : ∀ t ∈ ts, ∃ u ∈ us, t.MakesAlike places u)
    (hright : ∀ u ∈ us, ∃ t ∈ ts, t.MakesAlike places u) :
    (TypeDescriptor.intersection ts).MakesAlike places (.intersection us) := by
  intro limits d v v' hd hmakes hmakes'
  cases ts with
  | nil =>
    obtain rfl := List.length_eq_zero_iff.mp hlength.symm
    obtain rfl := hmakes.unique hmakes'
    exact ⟨le_rfl, le_rfl⟩
  | cons t ts =>
    obtain ⟨u, us, rfl⟩ := List.exists_cons_of_length_eq_add_one hlength.symm
    obtain ⟨-, made, hmade, hlub⟩ := makes_intersection hts hd
      (fun t ht v hv => derives_of_makes (hts t ht) hd hv) hmakes
    obtain ⟨-, made', hmade', hlub'⟩ := makes_intersection hus hd
      (fun u hu v hv => derives_of_makes (hus u hu) hd hv) hmakes'
    constructor
    · refine hlub.2 fun x hx => ?_
      obtain ⟨t, ht, hmakesT⟩ := exists_of_forall₂ hmade.flip hx
      obtain ⟨u, hu, halike⟩ := hleft t ht
      obtain ⟨x', hx', hmakesU⟩ := exists_of_forall₂ hmade' hu
      exact (halike {} d x x' hd hmakesT hmakesU).1.trans (hlub'.1 hx')
    · refine hlub'.2 fun x' hx' => ?_
      obtain ⟨u, hu, hmakesU⟩ := exists_of_forall₂ hmade'.flip hx'
      obtain ⟨t, ht, halike⟩ := hright u hu
      obtain ⟨x, hx, hmakesT⟩ := exists_of_forall₂ hmade ht
      exact (halike {} d x x' hd hmakesT hmakesU).2.trans (hlub.1 hx)

/-- Types in another order make the same of the same data. -/
theorem makes_reordered {t t' : TypeDescriptor} (h : t.Reordered t') (ht : t.Plain) :
    t.MakesAlike places t' := by
  have ht' := plain_reordered h ht
  induction h with
  | same =>
    intro limits d v v' hd hmakes hmakes'
    obtain rfl := hmakes.unique hmakes'
    exact ⟨le_rfl, le_rfl⟩
  | listOf _ ih => exact listOf_makes_alike (ih ht ht')
  | @union ts us hlength hreordered ih =>
    intro limits d v v' hd hmakes hmakes'
    obtain ⟨t, hfirst, hmakesFirst⟩ := makes_union ht hd hmakes
    obtain ⟨u, hfirst', hmakesFirst'⟩ := makes_union ht' hd hmakes'
    have hvariants : List.Forall₂ (fun t u => t.Reordered u ∧
        (t.Plain → u.Plain → t.MakesAlike places u)) ts us :=
      forall₂_of_getElem? hlength fun i t u ht hu => ⟨hreordered i t u ht hu, ih i t u ht hu⟩
    obtain ⟨u', hfound, -, halike⟩ := find?_of_forall₂ hvariants
      (fun _ _ h => accepts_reordered h.1 limits d) hfirst
    rw [hfirst'] at hfound
    cases hfound
    exact halike (TypeDescriptor.everyOf_iff.mp ht t (List.mem_of_find?_eq_some hfirst))
      (TypeDescriptor.everyOf_iff.mp ht' u (List.mem_of_find?_eq_some hfirst'))
      limits d v v' hd hmakesFirst hmakesFirst'
  | @intersection ts us vs hlength _ hperm ih =>
    have hplain : ∀ t ∈ ts, t.Plain := TypeDescriptor.everyOf_iff.mp ht
    have hplain' : ∀ u ∈ vs, u.Plain := TypeDescriptor.everyOf_iff.mp ht'
    have hmembers := forall₂_of_getElem? hlength ih
    refine intersection_makes_alike hplain hplain' (hlength.trans hperm.length_eq) ?_ ?_
    · intro t hmem
      obtain ⟨u, hu, halike⟩ := exists_of_forall₂ hmembers hmem
      have hshuffled := hperm.mem_iff.mp hu
      exact ⟨u, hshuffled, halike (hplain t hmem) (hplain' u hshuffled)⟩
    · intro u hmem
      obtain ⟨t, hmemT, halike⟩ := exists_of_forall₂ hmembers.flip (hperm.mem_iff.mpr hmem)
      exact ⟨t, hmemT, halike (hplain t hmemT) (hplain' u hmem)⟩
  | composite _ hoverrides hframes _ ih =>
    intro limits d v v' hd hmakes hmakes'
    obtain ⟨hregular, -⟩ := regular_of_plain ht
    obtain ⟨hregular', -⟩ := regular_of_plain ht'
    obtain ⟨ms, values, rfl, rfl, hfills⟩ := makes_model hregular hd hmakes
    obtain ⟨_, values', heq, rfl, hfills'⟩ := makes_model hregular' hd hmakes'
    cases heq
    refine fills_alike hoverrides (forall₂_of_getElem? hframes.length_eq ?_) hd hfills hfills'
    intro i f f' hf hf'
    exact ⟨rel_of_getElem? hframes hf hf', ih i f f' hf hf'
      (hregular.fields f (List.mem_of_getElem? hf)) (hregular'.fields f' (List.mem_of_getElem? hf'))⟩

/-! ## Models -/

/-- A card has an owner, who is whatever all of the parts say. -/
def cardSchema (parts : List Json) : Members Json :=
  [("properties", .obj [("owner", .obj [("allOf", .arr parts)])])]

/-- A person, as letters know one, and somebody who may be a member since some year. -/
def ownerParts : List Json :=
  [.obj [("$ref", .str "#/$defs/Person")],
    .obj [("type", .str "object"),
      ("properties", .obj [("since", .obj [("type", .str "integer")])])]]

def cardModel : Definition :=
  let owner := TypeDescriptor.intersection
    [.intersection
      [.composite ⟨fallbackName, [],
          [⟨"name", .primitive .string, true, false, none, [], {}⟩], {}⟩,
        .composite ⟨fallbackName, [],
          [⟨"title", .nullable (.primitive .string), false, true, none, [], {}⟩], {}⟩],
      .composite ⟨fallbackName, [],
        [⟨"since", .nullable (.primitive .integer), false, true, none, [], {}⟩], {}⟩]
  ⟨fallbackName, [], [⟨"owner", .nullable owner, false, true, none, [], {}⟩], {}⟩

theorem cardModel_preserving : cardModel.Preserving := by
  constructor
  · unfold Definition.OwnNames
    decide
  · simp only [cardModel, TypeDescriptor.nullable, Definition.Every, Field.EveryOf,
      TypeDescriptor.Every, TypeDescriptor.EveryOf, Definition.OwnNames, and_true, true_and]
    decide

/-- The order of the parts that must all hold does not matter: a schema in another order compiles
too, to a model that accepts the same data and makes the same of it, the order of members apart.
References start from one document, whichever it is, or from documents in either order, if no
pointer leads into the parts. -/
theorem the_order_of_parts_does_not_matter {schema schema' : Members Json}
    {root root' : Option (Members Json)} {overrides : Overrides} {m : Definition}
    (h : compileSchema schema root overrides = .ok m) (hschema : (Json.obj schema).Distinct)
    (hroot : ∀ r ∈ root, (Json.obj r).Distinct) (hpreserving : m.Preserving)
    (hvalidators : overrides.validators = []) (horder : Members.Reordered schema schema')
    (hplaces : SamePlaces ((Json.obj schema).refs ++ (Json.obj (root.getD schema)).refs)
      (root.getD schema) (root'.getD schema')) :
    ∃ m', compileSchema schema' root' overrides = .ok m' ∧ ∀ data : Json, data.IsData →
      ((∃ v, m.safeParse places (.ofJson data) = .ok (.success v)) ↔
        ∃ v, m'.safeParse places (.ofJson data) = .ok (.success v)) ∧
      ∀ v v', m.safeParse places (.ofJson data) = .ok (.success v) →
        m'.safeParse places (.ofJson data) = .ok (.success v') → SameMap v v' := by
  have hregular := regular_of_compile h hschema hroot hpreserving hvalidators
  obtain ⟨m', hm', hreordered⟩ := compile_reordered h horder hplaces
  have hregular' := regular_reordered hreordered hregular
  have hnames := names_of_frames (hreordered.fields.imp fun _ _ hf => hf.toSameFrame)
  refine ⟨m', hm', fun data hdata => ⟨?_, fun v v' hv hv' => ?_⟩⟩
  · simp only [← makes_iff_safeParse]
    rw [exists_makes_model_iff hregular hdata, exists_makes_model_iff hregular' hdata, hnames,
      hreordered.overrides]
    have hfields : ∀ ms : Members Json, (∀ f ∈ m'.fields, f.accepts places ms = true) ↔
        ∀ f ∈ m.fields, f.accepts places ms = true := by
      intro ms
      rw [← List.all_eq_true, ← List.all_eq_true, ← Bool.eq_iff_iff]
      exact all_of_forall₂ hreordered.fields fun f f' hf =>
        field_accepts_eq hf.toSameFrame (accepts_reordered hf.type) ms
    simp only [hfields]
  · obtain ⟨ms, values, rfl, rfl, hfills⟩ :=
      makes_model hregular hdata (makes_iff_safeParse.mpr hv)
    obtain ⟨_, values', heq, rfl, hfills'⟩ :=
      makes_model hregular' hdata (makes_iff_safeParse.mpr hv')
    cases heq
    have hfields : List.Forall₂ (fun f f' => f.SameFrame f' ∧ f.type.MakesAlike places f'.type)
        m.fields m'.fields := by
      refine forall₂_of_getElem? hreordered.fields.length_eq fun i f f' hf hf' => ?_
      have hfield := rel_of_getElem? hreordered.fields hf hf'
      exact ⟨hfield.toSameFrame,
        makes_reordered hfield.type (hregular.fields f (List.mem_of_getElem? hf))⟩
    obtain ⟨hle, hge⟩ := fills_alike hreordered.overrides hfields hdata hfills hfills'
    exact sameMap_of_le_of_le hle hge

/-- Whether the owner of a card is a person first or a member first, it is the same Ida. -/
theorem the_owner_of_a_card_is_the_same :
    ∃ m', compileSchema (cardSchema ownerParts.reverse) (some letterSchema) = .ok m' ∧
      ∃ v v', cardModel.safeParse ⟨fun _ => false, fun _ => false⟩
          (.ofJson (.obj [("owner", .obj [("name", .str "Ida")])])) = .ok (.success v) ∧
        m'.safeParse ⟨fun _ => false, fun _ => false⟩
          (.ofJson (.obj [("owner", .obj [("name", .str "Ida")])])) = .ok (.success v') ∧
        SameMap v v' := by
  have hcompile : compileSchema (cardSchema ownerParts) (some letterSchema) = .ok cardModel := rfl
  have hschema : (Json.obj (cardSchema ownerParts)).Distinct := by
    simp [cardSchema, ownerParts, Json.Distinct, Json.Every, Json.EveryMember, Json.EveryItem]
  have hroot : ∀ r ∈ some letterSchema, (Json.obj r).Distinct := by
    rintro _ ⟨⟩
    exact letterSchema_distinct
  have hparts : Json.Reordered true (.arr ownerParts) (.arr ownerParts.reverse) :=
    reordered_of_perm (List.reverse_perm ownerParts).symm
  have howner : Json.Reordered false (.obj [("allOf", .arr ownerParts)])
      (.obj [("allOf", .arr ownerParts.reverse)]) :=
    reordered_obj_iff.mpr ⟨_, rfl, .cons ⟨rfl, hparts⟩ .nil⟩
  have horder : Members.Reordered (cardSchema ownerParts) (cardSchema ownerParts.reverse) :=
    .cons ⟨rfl, reordered_obj_iff.mpr ⟨_, rfl, .cons ⟨rfl, howner⟩ .nil⟩⟩ .nil
  have hdata : (Json.obj [("owner", .obj [("name", .str "Ida")])]).IsData := by
    simp [Json.IsData, Json.Every, Json.EveryMember]
  obtain ⟨m', hm', hall⟩ := @the_order_of_parts_does_not_matter
    ⟨fun _ => false, fun _ => false⟩ _ _ _ (some letterSchema) _ _ hcompile hschema hroot
    cardModel_preserving rfl horder (.inl rfl)
  obtain ⟨haccepts, hsame⟩ := hall _ hdata
  have hfirst : ∃ v, cardModel.safeParse ⟨fun _ => false, fun _ => false⟩
      (.ofJson (.obj [("owner", .obj [("name", .str "Ida")])])) = .ok (.success v) := ⟨_, rfl⟩
  obtain ⟨v', hv'⟩ := haccepts.mp hfirst
  obtain ⟨v, hv⟩ := hfirst
  exact ⟨m', hm', v, v', hv, hv', hsame v v' hv hv'⟩

end JsonModel
