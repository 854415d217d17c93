-- Where issues are. The path of an issue leads through objects and lists of the data to the value
-- that has the fault, or one step further, to a key that a model requires and the data does not have.
import JsonModel.Proofs.Check.Checked
import JsonModel.Proofs.Check.Extra
import JsonModel.Proofs.Check.Optional

namespace JsonModel

/-! ## Walking into the data -/

/-- What stands one step further in a document: a member of an object or an item of a list. -/
def Json.inside? : Json → Step → Option Json
  | .obj ms, .key name => Members.get? name ms
  | .arr items, .index i => items[i]?
  | _, _ => none

/-- What a path leads to in a document. -/
def Json.at? (j : Json) : List Step → Option Json
  | [] => some j
  | step :: steps => (j.inside? step).bind fun next => next.at? steps

theorem Json.at?_append (j : Json) (path path' : List Step) :
    j.at? (path ++ path') = (j.at? path).bind fun next => next.at? path' := by
  induction path generalizing j with
  | nil => rfl
  | cons step steps ih =>
    rw [List.cons_append, Json.at?, Json.at?, Option.bind_assoc]
    simp only [ih]

/-- The check of a type on a document comes along a path to the check of a type on a part of it. -/
inductive Leads : TypeDescriptor → Json → List Step → TypeDescriptor → Json → Prop
  | here {t : TypeDescriptor} {j : Json} : Leads t j [] t j
  | variant {ts : List TypeDescriptor} {t u : TypeDescriptor} {j k : Json} {path : List Step} :
      t ∈ ts → Leads t j path u k → Leads (.union ts) j path u k
  | member {ts : List TypeDescriptor} {t u : TypeDescriptor} {j k : Json} {path : List Step} :
      t ∈ ts → Leads t j path u k → Leads (.intersection ts) j path u k
  | item {t u : TypeDescriptor} {items : List Json} {i : Nat} {j k : Json} {path : List Step} :
      items[i]? = some j → Leads t j path u k → Leads (.listOf t) (.arr items) (.index i :: path) u k
  | field {d : Definition} {f : Field} {u : TypeDescriptor} {ms : Members Json} {j k : Json}
      {path : List Step} : f ∈ d.base ++ d.fields → ms.get? f.name = some j →
      Leads f.type j path u k → Leads (.composite d) (.obj ms) (.key f.name :: path) u k

theorem Leads.at? {t u : TypeDescriptor} {j k : Json} {path : List Step}
    (h : Leads t j path u k) : j.at? path = some k := by
  induction h with
  | here => rfl
  | variant _ _ ih | member _ _ ih => exact ih
  | item hitem _ ih =>
    rw [Json.at?, Json.inside?, hitem]
    exact ih
  | field _ hget _ ih =>
    rw [Json.at?, Json.inside?, hget]
    exact ih

/-- A path that an issue of a type on some data may have: the type is led along it, or it is led to
a model, and a key follows that the model requires and the object there does not have. -/
inductive MayReport (t : TypeDescriptor) (j : Json) : List Step → Prop
  | found {path : List Step} {u : TypeDescriptor} {k : Json} : Leads t j path u k →
      MayReport t j path
  | missing {path : List Step} {d : Definition} {ms : Members Json} {f : Field} :
      Leads t j path (.composite d) (.obj ms) → f ∈ d.base ++ d.fields → f.required = true →
      ms.get? f.name = none → MayReport t j (path ++ [.key f.name])

theorem mayReport_here {t : TypeDescriptor} {j : Json} {path : List Step} (h : path = []) :
    MayReport t j path := h ▸ .found .here

/-- What may be reported of a part of a type may be reported of the type, behind the way to the
part. -/
theorem MayReport.lift {t t' : TypeDescriptor} {j j' : Json} {path : List Step}
    (h : MayReport t j path) (start : List Step)
    (hleads : ∀ path u k, Leads t j path u k → Leads t' j' (start ++ path) u k) :
    MayReport t' j' (start ++ path) := by
  cases h with
  | found hpath => exact .found (hleads _ _ _ hpath)
  | missing hpath hf hrequired hnone =>
    rw [← List.append_assoc]
    exact .missing (hleads _ _ _ hpath) hf hrequired hnone

/-! ## Types without parts -/

variable {places : Places}

/-- All issues are about the value itself. -/
def Outcome.Here (o : Outcome) : Prop := ∀ issue ∈ o.issues, issue.path = []

theorem here_keep (v : Value) (faults : List Fault) : (Outcome.keep v faults).Here := by
  intro issue hissue
  obtain ⟨fault, -, rfl⟩ := List.mem_map.mp hissue
  rfl

theorem here_accept (v : Value) : (Outcome.accept v).Here := here_keep v []

theorem here_reject (v : Value) (fault : Fault) : (Outcome.reject v fault).Here :=
  here_keep v [fault]

theorem here_haveLength (limits : Limits) (v : Value) : (haveLength limits v).Here := by
  unfold haveLength
  split <;> exact here_keep _ _

theorem Primitive.check_here (kind : Primitive) (limits : Limits) (v : Value) :
    (kind.check limits v).Here := by
  unfold Primitive.check
  split
  · exact here_haveLength _ _
  · split
    · exact here_reject _ _
    · split
      · exact here_reject _ _
      · exact here_keep _ _
  · exact here_reject _ _
  · split
    · exact here_keep _ _
    · exact here_reject _ _
  · exact here_reject _ _
  · exact here_accept _
  · exact here_reject _ _
  · exact here_accept _
  · exact here_reject _ _
  · exact here_accept _

theorem here_onText {v : Value} {check : String → Outcome} (h : ∀ s, (check s).Here) :
    (onText v check).Here := by
  unfold onText
  split
  · exact h _
  · exact here_reject _ _

theorem here_haveForm (v : Value) (form : String) (test : List Char → Bool) :
    (haveForm v form test).Here :=
  here_onText fun _ => here_keep _ _

theorem here_haveSomeForm (v : Value) (tests : List (List Char → Bool)) :
    (haveSomeForm v tests).Here := by
  unfold haveSomeForm
  split
  · split
    · exact here_accept _
    · exact here_reject _ _
  · exact here_reject _ _

theorem here_changed (v : Value) (change : String → Except Fault Value) :
    (changed v change).Here := by
  unfold changed
  split
  · split
    · exact here_accept _
    · rename_i s _ fault _
      exact here_reject (.str s) fault
  · exact here_reject v _

theorem Semantic.check_here (kind : Semantic) (limits : Limits) (v : Value) :
    (kind.check places limits v).Here := by
  cases kind with
  | base64Bytes | jsonString | secretString | secretBytes => exact here_changed _ _
  | strictBytes =>
    unfold Semantic.check
    simp only
    split
    · exact here_accept _
    · exact here_reject _ _
  | uri | httpUri | fileUri | directoryPath | filePath | uuid1 | uuid3 | uuid4 | uuid5 =>
    unfold Semantic.check
    exact here_onText fun _ => here_keep _ _
  | path => exact here_haveLength _ _
  | ipAnyAddress | ipAnyInterface | ipAnyNetwork => exact here_haveSomeForm _ _
  | _ => exact here_haveForm _ _ _

/-! ## Types with parts -/

variable {limits : Limits} {v : Value} {j : Json}

/-- What an intersection reports is what one of its members reports, or is about the value itself. -/
theorem mem_members_issues {ts : List TypeDescriptor} {sofar o : Outcome}
    (h : TypeDescriptor.checkMembers places sofar ts v = .ok o) {issue : Issue}
    (hissue : issue ∈ o.issues) : issue.path = [] ∨ issue ∈ sofar.issues ∨
      ∃ t ∈ ts, ∃ o', t.check places {} v = .ok o' ∧ issue ∈ o'.issues := by
  induction ts generalizing sofar with
  | nil =>
    cases h
    exact .inr (.inl hissue)
  | cons t ts ih =>
    unfold TypeDescriptor.checkMembers at h
    obtain ⟨right, hright, h⟩ := bind_ok_iff.mp h
    obtain ⟨both, hboth, h⟩ := bind_ok_iff.mp h
    rcases ih h with hhere | hsofar | ⟨u, hu, o', ho', hmem⟩
    · exact .inl hhere
    · rw [issues_of_both hboth] at hsofar
      rcases mem_joinIssues hsofar with hleft | hmem | ⟨names, rfl⟩
      · exact .inr (.inl hleft)
      · exact .inr (.inr ⟨t, List.mem_cons_self, right, hright, hmem⟩)
      · exact .inl rfl
    · exact .inr (.inr ⟨u, List.mem_cons_of_mem _ hu, o', ho', hmem⟩)

theorem mem_intersection_issues {ts : List TypeDescriptor} {o : Outcome}
    (h : (TypeDescriptor.intersection ts).check places limits v = .ok o) {issue : Issue}
    (hissue : issue ∈ o.issues) : issue.path = [] ∨
      ∃ t ∈ ts, ∃ o', t.check places {} v = .ok o' ∧ issue ∈ o'.issues := by
  cases ts with
  | nil =>
    cases h
    simp [Outcome.accept] at hissue
  | cons first rest =>
    unfold TypeDescriptor.check at h
    obtain ⟨o', ho', h⟩ := bind_ok_iff.mp h
    rcases mem_members_issues h hissue with hhere | hfirst | ⟨t, ht, hmem⟩
    · exact .inl hhere
    · exact .inr ⟨first, List.mem_cons_self, o', ho', hfirst⟩
    · exact .inr ⟨t, List.mem_cons_of_mem _ ht, hmem⟩

/-- What a list reports is what its type reports of an item, under the index of the item. -/
theorem mem_items_issues {t : TypeDescriptor} {origin : Origin} {items : List Value} {o : Outcome}
    (h : (TypeDescriptor.listOf t).check places limits (.arr origin items) = .ok o) {issue : Issue}
    (hissue : issue ∈ o.issues) : ∃ i item o' inner, items[i]? = some item ∧
      t.check places {} item = .ok o' ∧ inner ∈ o'.issues ∧ issue = inner.under (.index i) := by
  unfold TypeDescriptor.check at h
  obtain ⟨outcomes, houtcomes, h⟩ := bind_ok_iff.mp h
  cases h
  obtain ⟨⟨o', i⟩, ho', hmem⟩ := List.mem_flatMap.mp hissue
  obtain ⟨inner, hinner, rfl⟩ := List.mem_map.mp hmem
  have hanswer := List.mk_mem_zipIdx_iff_getElem?.mp ho'
  have hall := mapM_ok_iff.mp houtcomes
  obtain ⟨item, hitem⟩ := exists_getElem? hall.length_eq.symm hanswer
  exact ⟨i, item, o', inner, hitem, rel_of_getElem? hall hitem hanswer, hinner, rfl⟩

theorem mem_validated_issues {validators : List Validator} {o : Outcome} {issue : Issue}
    (h : issue ∈ (runValidators validators o).issues) : issue.path = [] ∨ issue ∈ o.issues := by
  unfold runValidators at h
  split at h
  · exact .inr h
  · rcases List.mem_append.mp h with h | h
    · exact .inr h
    · obtain ⟨validator, -, hreport⟩ := List.mem_flatMap.mp h
      unfold Validator.report at hreport
      split at hreport
      · simp at hreport
      · rw [List.mem_singleton.mp hreport]
        exact .inl rfl
      · rw [List.mem_singleton.mp hreport]
        exact .inl rfl

/-- What a model reports is about the value itself, or is what one of its fields adds. -/
theorem mem_model_issues {d : Definition} {o : Outcome} (h : d.check places v = .ok o)
    {issue : Issue} (hissue : issue ∈ o.issues) : issue.path = [] ∨ v.members?.isSome = true ∧
      ∃ f ∈ d.base ++ d.fields, ∃ c, f.contribute places v = .ok c ∧ issue ∈ c.issues := by
  cases hms : v.members? with
  | none =>
    rw [check_of_no_members hms] at h
    cases h
    exact .inl (here_reject _ _ issue hissue)
  | some ms =>
    rw [check_of_members hms] at h
    obtain ⟨cs, hcs, rfl⟩ := map_ok_iff.mp h
    rcases mem_validated_issues hissue with hhere | hissue
    · exact .inl hhere
    · rcases mem_assembled_iff hissue with hhere | ⟨name, c, hc, hmem⟩
      · exact .inl hhere
      · obtain ⟨m, hm, -, hadded⟩ := exists_of_forall₂ (inOrder_checked_iff.mp hcs).flip hc
        exact .inr ⟨rfl, m.2, (mem_of_mem_checked hm).1, c, hadded, hmem⟩

/-! ## The places of issues -/

/-- A field has a name of its own, a default unless it is required, and such fields in its type. -/
structure Field.Regular (f : Field) : Prop where
  own : f.name ∉ inheritedNames
  default_eq : f.defaultsToNull = !f.required
  type : f.type.Every (fun _ => True) Definition.Plain

/-- The issues of a type are where they may be. -/
def TypeDescriptor.WellPlaced (places : Places) (t : TypeDescriptor) : Prop :=
  ∀ limits j o, t.check places limits (.ofJson j) = .ok o →
    ∀ issue ∈ o.issues, MayReport t j issue.path

theorem wellPlaced_field {d : Definition} {f : Field} {ms : Members Json} {c : Contribution}
    (hf : f ∈ d.base ++ d.fields) (hown : f.name ∉ inheritedNames)
    (hdefault : f.defaultsToNull = !f.required) (htype : f.type.WellPlaced places)
    (hc : f.contribute places (.ofJson (.obj ms)) = .ok c) :
    ∀ issue ∈ c.issues, MayReport (.composite d) (.obj ms) issue.path := by
  have hread := read?_ofJson hown ms
  intro issue hissue
  cases hget : ms.get? f.name with
  | some j =>
    rw [hget] at hread
    rw [contribute_found hread (ofJson_ne_undefined j)] at hc
    obtain ⟨o, ho, rfl⟩ := map_ok_iff.mp hc
    obtain ⟨inner, hinner, rfl⟩ := List.mem_map.mp hissue
    exact (htype _ j o ho inner hinner).lift [.key f.name] fun _ _ _ hleads => .field hf hget hleads
  | none =>
    rw [hget] at hread
    cases hrequired : f.required with
    | false =>
      rw [contribute_default hread (by rw [hdefault, hrequired]; rfl)] at hc
      cases hc
      simp at hissue
    | true =>
      have hmissing := contribute_required hc hread (by rw [hdefault, hrequired]; rfl)
      rw [hmissing.2 issue hissue]
      exact .missing .here hf hrequired hget

theorem wellPlaced_model {d : Definition}
    (hfields : ∀ f ∈ d.base ++ d.fields, f.name ∉ inheritedNames ∧
      f.defaultsToNull = !f.required ∧ f.type.WellPlaced places) {o : Outcome}
    (h : d.check places (.ofJson j) = .ok o) :
    ∀ issue ∈ o.issues, MayReport (.composite d) j issue.path := by
  intro issue hissue
  rcases mem_model_issues h hissue with hhere | ⟨hms, f, hf, c, hc, hmem⟩
  · exact mayReport_here hhere
  · obtain ⟨hown, hdefault, htype⟩ := hfields f hf
    cases j with
    | obj ms => exact wellPlaced_field hf hown hdefault htype hc issue hmem
    | _ => simp [Value.ofJson, Value.members?] at hms

theorem every_fields {kind : Semantic → Prop} {model : Definition → Prop} {d : Definition}
    (h : d.Every kind model) : ∀ f ∈ d.base ++ d.fields, f.type.Every kind model := by
  obtain ⟨_, base, fields, _⟩ := d
  obtain ⟨hbase, hfields⟩ := h
  intro f hf
  rcases List.mem_append.mp hf with hf | hf
  · exact Field.everyOf_iff.mp hbase f hf
  · exact Field.everyOf_iff.mp hfields f hf

/-- Whatever a type reports of a document is where it may be. -/
theorem wellPlaced (t : TypeDescriptor) (ht : t.Every (fun _ => True) Definition.Plain) :
    t.WellPlaced places := by
  induction t using TypeDescriptor.induction with
  | primitive kind =>
    rintro limits j o ⟨⟩ issue hissue
    exact mayReport_here (Primitive.check_here kind limits _ issue hissue)
  | semantic kind =>
    rintro limits j o ⟨⟩ issue hissue
    exact mayReport_here (Semantic.check_here kind limits _ issue hissue)
  | mapping =>
    intro limits j o h issue hissue
    unfold TypeDescriptor.check at h
    split at h <;> cases h
    · exact mayReport_here (here_accept _ issue hissue)
    · exact mayReport_here (here_reject _ _ issue hissue)
  | anyList =>
    intro limits j o h issue hissue
    unfold TypeDescriptor.check at h
    split at h <;> cases h
    · exact mayReport_here (here_accept _ issue hissue)
    · exact mayReport_here (here_reject _ _ issue hissue)
  | listOf t ih =>
    intro limits j o h issue hissue
    cases j with
    | arr items =>
      unfold Value.ofJson at h
      obtain ⟨i, item, o', inner, hitem, ho', hinner, rfl⟩ := mem_items_issues h hissue
      rw [Value.ofItems_eq_map, List.getElem?_map] at hitem
      obtain ⟨k, hk, rfl⟩ := Option.map_eq_some_iff.mp hitem
      exact (ih ht {} k o' ho' inner hinner).lift [.index i] fun _ _ _ hleads => .item hk hleads
    | _ =>
      cases h
      exact mayReport_here (here_reject _ _ issue hissue)
  | union ts ih =>
    intro limits j o h issue hissue
    unfold TypeDescriptor.Every at ht
    rw [TypeDescriptor.everyOf_iff] at ht
    rcases union_outcome h with ⟨t, hmem, hcheck⟩ | rfl
    · exact (ih t hmem (ht t hmem) limits j o hcheck issue hissue).lift []
        fun _ _ _ hleads => .variant hmem hleads
    · exact mayReport_here (here_reject _ _ issue hissue)
  | intersection ts ih =>
    intro limits j o h issue hissue
    unfold TypeDescriptor.Every at ht
    rw [TypeDescriptor.everyOf_iff] at ht
    rcases mem_intersection_issues h hissue with hhere | ⟨t, hmem, o', ho', hissue'⟩
    · exact mayReport_here hhere
    · exact (ih t hmem (ht t hmem) {} j o' ho' issue hissue').lift []
        fun _ _ _ hleads => .member hmem hleads
  | composite d ih =>
    intro limits j o h
    obtain ⟨⟨hbuilt, hown⟩, hinside⟩ := ht
    have hcheck : d.check places (.ofJson j) = .ok o := h
    refine wellPlaced_model (fun f hf => ?_) hcheck
    rw [hbuilt.no_base, List.nil_append] at hf
    have htype := every_fields hinside f (List.mem_append_right _ hf)
    exact ⟨hown f hf, hbuilt.default_iff f hf, ih f hf htype⟩

/-! ## Issues of a model -/

/-- The path of an issue points into the data. -/
structure PointsInto (d : Definition) (data : Json) (path : List Step) : Prop where
  /-- Every proper start of the path leads to an object or a list. -/
  containers : ∀ before step after, path = before ++ step :: after →
    (∃ ms, data.at? before = some (.obj ms)) ∨ ∃ items, data.at? before = some (.arr items)
  /-- An index is that of an item of the list. -/
  indices : ∀ before i after, path = before ++ .index i :: after →
    ∃ items, data.at? before = some (.arr items) ∧ i < items.length
  /-- The last step leads to something, or is the name of a required field, missing there, of a
  model that the data is checked against at that place. -/
  last : ∀ before step, path = before ++ [step] → (∃ j, data.at? path = some j) ∨
    ∃ m ms f, Leads (.composite d) data before (.composite m) (.obj ms) ∧
      data.at? before = some (.obj ms) ∧ f ∈ m.base ++ m.fields ∧ f.required = true ∧
      step = .key f.name ∧ Members.get? f.name ms = none

/-- A step can be taken in a document: by a name in an object, or by an index of a list. -/
inductive Json.Enters : Json → Step → Prop
  | key {ms : List (String × Json)} (name : String) : Enters (.obj ms) (.key name)
  | index {items : List Json} {i : Nat} : i < items.length → Enters (.arr items) (.index i)

theorem Json.enters_of_inside? {k next : Json} {step : Step} (h : k.inside? step = some next) :
    k.Enters step := by
  unfold Json.inside? at h
  split at h
  · exact .key _
  · exact .index (List.getElem?_eq_some_iff.mp h).1
  · simp at h

theorem Json.enters_of_at? {data found : Json} {before after : List Step} {step : Step}
    (h : data.at? (before ++ step :: after) = some found) :
    ∃ k, data.at? before = some k ∧ k.Enters step := by
  rw [Json.at?_append, Option.bind_eq_some_iff] at h
  obtain ⟨k, hk, h⟩ := h
  rw [Json.at?, Option.bind_eq_some_iff] at h
  obtain ⟨next, hnext, -⟩ := h
  exact ⟨k, hk, Json.enters_of_inside? hnext⟩

/-- Every step of a path that may be reported can be taken. -/
theorem MayReport.enters {t : TypeDescriptor} {path before after : List Step} {step : Step}
    (h : MayReport t j path) (hpath : path = before ++ step :: after) :
    ∃ k, j.at? before = some k ∧ k.Enters step := by
  cases h with
  | found hleads => exact Json.enters_of_at? (hpath ▸ hleads.at?)
  | @missing place m ms f hleads _ _ _ =>
    rcases List.eq_nil_or_concat after with rfl | ⟨after', last, rfl⟩
    · obtain ⟨rfl, hstep⟩ := List.append_inj' hpath rfl
      cases hstep
      exact ⟨_, hleads.at?, .key _⟩
    · rw [List.concat_eq_append, ← List.cons_append, ← List.append_assoc] at hpath
      obtain ⟨rfl, -⟩ := List.append_inj' hpath rfl
      exact Json.enters_of_at? hleads.at?

theorem pointsInto_of_mayReport {d : Definition} {data : Json} {path : List Step}
    (h : MayReport (.composite d) data path) : PointsInto d data path where
  containers before step after hpath := by
    obtain ⟨k, hk, henters⟩ := h.enters hpath
    cases henters with
    | key => exact .inl ⟨_, hk⟩
    | index => exact .inr ⟨_, hk⟩
  indices before i after hpath := by
    obtain ⟨k, hk, henters⟩ := h.enters hpath
    cases henters with
    | index hlt => exact ⟨_, hk, hlt⟩
  last before step hpath := by
    cases h with
    | found hleads => exact .inl ⟨_, hleads.at?⟩
    | missing hleads hf hrequired hnone =>
      obtain ⟨rfl, hstep⟩ := List.append_inj' hpath rfl
      cases hstep
      exact .inr ⟨_, _, _, hleads, hleads.at?, hf, hrequired, rfl, hnone⟩

theorem fields_regular_of_compile {schema : Members Json} {root : Option (Members Json)}
    {overrides : Overrides} {d : Definition} (h : compileSchema schema root overrides = .ok d)
    (hschema : (Json.obj schema).Distinct) (hroot : ∀ r ∈ root, (Json.obj r).Distinct)
    (hown : d.OwnNames) (hinside : d.Every (fun _ => True) Definition.OwnNames) :
    ∀ f ∈ d.fields, f.Regular := by
  obtain ⟨hbuilt, hevery⟩ := built_of_compile h hschema hroot
  have hplain : d.Every (fun _ => True) Definition.Plain :=
    hevery.zip (fun _ _ _ => trivial) (fun _ hmodel hnames => ⟨hmodel, hnames⟩) hinside
  intro f hf
  exact ⟨hown f hf, hbuilt.default_iff f hf, every_fields hplain f (List.mem_append_right _ hf)⟩

/-- Whatever a compiled model extends, and whatever validators it has, the path of every issue that
it finds in a document points into the document. -/
theorem issues_point_into_the_data {places : Places} {schema : Members Json}
    {root : Option (Members Json)} {overrides : Overrides} {d : Definition} {base : List Field}
    {validators : List Validator} {data : Json} {issues : List Issue}
    (h : compileSchema schema root overrides = .ok d) (hschema : (Json.obj schema).Distinct)
    (hroot : ∀ r ∈ root, (Json.obj r).Distinct) (hown : d.OwnNames)
    (hinside : d.Every (fun _ => True) Definition.OwnNames) (hbase : ∀ f ∈ base, f.Regular)
    (hfailure : (d.extend base validators).safeParse places (.ofJson data) =
      .ok (.failure issues)) :
    ∀ issue ∈ issues, PointsInto (d.extend base validators) data issue.path := by
  have hregular : ∀ f ∈ (d.extend base validators).base ++ (d.extend base validators).fields,
      f.Regular := by
    intro f hf
    rcases List.mem_append.mp hf with hf | hf
    · exact hbase f hf
    · exact fields_regular_of_compile h hschema hroot hown hinside f hf
  obtain ⟨o, ho, hresult⟩ := map_ok_iff.mp hfailure
  obtain rfl := toResult_eq_failure hresult
  intro issue hissue
  apply pointsInto_of_mayReport
  refine wellPlaced_model (fun f hf => ?_) ho issue hissue
  have hf := hregular f hf
  exact ⟨hf.own, hf.default_eq, wellPlaced f.type hf.type⟩

/-- A letter whose sender has no name, and whose second line is a number. -/
def garbledLetter : Json :=
  .obj [("sender", .obj []), ("lines", .arr [.str "Dear", .num (.ofNat 1)])]

theorem the_faults_of_a_garbled_letter_are_in_it :
    compileSchema letterSchema = .ok letterModel ∧ ∃ issues,
      (letterModel.extend ticketModel.fields []).safeParse ⟨fun _ => false, fun _ => false⟩
        (.ofJson garbledLetter) = .ok (.failure issues) ∧
      issues.map Issue.path =
        [[.key "holder"], [.key "sender", .key "name"], [.key "lines"]] ∧
      ∀ issue ∈ issues,
        PointsInto (letterModel.extend ticketModel.fields []) garbledLetter issue.path := by
  have hletter : compileSchema letterSchema = .ok letterModel := rfl
  have hticket : compileSchema ticketSchema = .ok ticketModel := rfl
  have hbase : ∀ f ∈ ticketModel.fields, f.Regular := by
    apply fields_regular_of_compile hticket ticketSchema_distinct (by simp)
    · unfold Definition.OwnNames
      decide
    · simp [ticketModel, Definition.Every, Field.EveryOf, TypeDescriptor.Every,
        TypeDescriptor.nullable, TypeDescriptor.EveryOf]
  have hinside : letterModel.Every (fun _ => True) Definition.OwnNames :=
    letterModel_preserving.inside.zip (fun _ _ _ => trivial) (fun _ h _ => h)
      letterModel_preserving.inside
  have hanswer : ∃ issues, (letterModel.extend ticketModel.fields []).safeParse
      ⟨fun _ => false, fun _ => false⟩ (.ofJson garbledLetter) = .ok (.failure issues) ∧
        issues.map Issue.path =
          [[.key "holder"], [.key "sender", .key "name"], [.key "lines"]] :=
    ⟨_, rfl, rfl⟩
  obtain ⟨issues, hissues, hpaths⟩ := hanswer
  exact ⟨hletter, issues, hissues, hpaths, issues_point_into_the_data hletter
    letterSchema_distinct (by simp) letterModel_preserving.own hinside hbase hissues⟩

end JsonModel
