-- A model over another one. Its keys stand in the order in which they are declared first, and of two
-- fields of one name the model's own one is checked, not the one of the model that it extends.
import JsonModel.Proofs.Check.Fields
import JsonModel.Proofs.Compile.Shape
import JsonModel.Proofs.KeyOrder

namespace JsonModel

/-! ## Declared keys -/

namespace Definition

/-- The names that a model declares: those of what it extends, then those that it adds. -/
def declared (d : Definition) : List String :=
  d.base.map Field.name ++
    (d.fields.map Field.name).filter fun name => !(d.base.map Field.name).contains name

/-- The fields that are checked: those of what the model extends, unless it has a field of that
name itself, and its own. -/
def effective (d : Definition) : List Field :=
  (d.base.filter fun f => !(d.fields.map Field.name).contains f.name) ++ d.fields

/-- No name stands twice among the fields of a model, nor among those that it extends. -/
structure Named (d : Definition) : Prop where
  base_nodup : (d.base.map Field.name).Nodup
  fields_nodup : (d.fields.map Field.name).Nodup

/-- Beside that, no name is the reserved one. -/
structure Listed (d : Definition) : Prop extends d.Named where
  unreserved : ∀ f ∈ d.base ++ d.fields, f.name ≠ reservedName

variable {d : Definition}

theorem OwnNames.unreserved (h : d.OwnNames) : ∀ f ∈ d.fields, f.name ≠ reservedName := by
  rintro f hf heq
  apply h f hf
  rw [heq]
  exact List.mem_cons_self

theorem Built.named {overrides : Overrides} (h : d.Built overrides) : d.Named := by
  refine ⟨?_, h.names_nodup⟩
  rw [h.no_base]
  exact List.nodup_nil

theorem Built.listed {overrides : Overrides} (h : d.Built overrides) (hown : d.OwnNames) :
    d.Listed := by
  refine ⟨h.named, ?_⟩
  rw [h.no_base]
  exact hown.unreserved

theorem effective_of_no_base (h : d.base = []) : d.effective = d.fields := by
  unfold effective
  rw [h]
  rfl

theorem Named.declared_nodup (h : d.Named) : d.declared.Nodup := by
  unfold declared
  rw [List.nodup_append]
  refine ⟨h.base_nodup, h.fields_nodup.sublist List.filter_sublist, ?_⟩
  rintro name hbase _ hadded rfl
  have hnew := (List.mem_filter.mp hadded).2
  rw [Bool.not_eq_true', List.contains_eq_mem, decide_eq_false_iff_not] at hnew
  exact hnew hbase

theorem mem_declared {name : String} :
    name ∈ d.declared ↔ name ∈ (d.base ++ d.fields).map Field.name := by
  unfold declared
  rw [List.map_append, List.mem_append, List.mem_append, List.mem_filter]
  by_cases hbase : name ∈ d.base.map Field.name
  · simp only [hbase, true_or]
  · simp [hbase]

/-- Every declared name has a field that is checked, and no other name has. -/
theorem mem_names_effective {name : String} :
    name ∈ d.effective.map Field.name ↔ name ∈ d.declared := by
  rw [mem_declared]
  unfold effective
  rw [List.map_append, List.map_append, List.mem_append, List.mem_append]
  constructor
  · rintro (hbase | hown)
    · exact .inl ((List.filter_sublist.map Field.name).subset hbase)
    · exact .inr hown
  · intro h
    by_cases hown : name ∈ d.fields.map Field.name
    · exact .inr hown
    · obtain ⟨f, hf, rfl⟩ := List.mem_map.mp (h.resolve_right hown)
      exact .inl (List.mem_map_of_mem (List.mem_filter.mpr ⟨hf, by simpa using hown⟩))

/-- No two fields that are checked have one name. -/
theorem Named.effective_inj (h : d.Named) {f g : Field} (hf : f ∈ d.effective)
    (hg : g ∈ d.effective) (hname : f.name = g.name) : f = g := by
  have hnames : (d.effective.map Field.name).Nodup := by
    unfold effective
    rw [List.map_append, List.nodup_append]
    refine ⟨h.base_nodup.sublist (List.filter_sublist.map Field.name), h.fields_nodup, ?_⟩
    rintro name hbase _ hown rfl
    obtain ⟨f, hf, rfl⟩ := List.mem_map.mp hbase
    have hnew := (List.mem_filter.mp hf).2
    rw [Bool.not_eq_true', List.contains_eq_mem, decide_eq_false_iff_not] at hnew
    exact hnew hown
  exact List.inj_on_of_nodup_map hnames hf hg hname

theorem Listed.reserved_not_declared (h : d.Listed) : reservedName ∉ d.declared := by
  rw [mem_declared]
  intro hmem
  obtain ⟨f, hf, heq⟩ := List.mem_map.mp hmem
  exact h.unreserved f hf heq

end Definition

/-! ## What the fields add -/

variable {places : Places} {d : Definition} {v : Value}

/-- What each field adds, under its name. -/
abbrev Field.entry (places : Places) (v : Value) (f : Field) :
    String × Except Clash Contribution := (f.name, f.contribute places v)

theorem map_entry_names (fields : List Field) :
    (fields.map (Field.entry places v)).map Prod.fst = fields.map Field.name := by
  rw [List.map_map]
  rfl

/-- What is found among the entries of fields, the last one of a name counting. -/
theorem get?_entries {fields : List Field} (hnames : (fields.map Field.name).Nodup) {name : String}
    {r : Except Clash Contribution} :
    Members.get? name (fields.map (Field.entry places v)).reverse = some r ↔
      ∃ f ∈ fields, f.name = name ∧ f.contribute places v = r := by
  rw [Members.get?_eq_some_iff, List.mem_reverse, List.mem_map]
  · exact exists_congr fun f => and_congr_right fun _ => by rw [Prod.mk.injEq]
  · unfold Members.names
    rw [List.map_reverse, List.nodup_reverse, map_entry_names]
    exact hnames

theorem get?_entries_none {fields : List Field} {name : String} :
    Members.get? name (fields.map (Field.entry places v)).reverse = none ↔
      name ∉ fields.map Field.name := by
  rw [Members.get?_eq_none_iff]
  unfold Members.names
  rw [List.map_reverse, List.mem_reverse, map_entry_names]

/-- The entry that counts under a name is that of the field that is checked. -/
theorem get?_overlay (h : d.Named) {name : String} {r : Except Clash Contribution} :
    Members.get? name (Members.ofList (d.base.map (Field.entry places v) ++
        d.fields.map (Field.entry places v))) = some r ↔
      ∃ f ∈ d.effective, f.name = name ∧ f.contribute places v = r := by
  rw [Members.get?_ofList_last, List.reverse_append, Members.get?_append, Option.or_eq_some_iff,
    get?_entries h.fields_nodup, get?_entries_none, get?_entries h.base_nodup]
  unfold Definition.effective
  constructor
  · rintro (⟨f, hf, hname, hr⟩ | ⟨hown, f, hf, rfl, hr⟩)
    · exact ⟨f, List.mem_append_right _ hf, hname, hr⟩
    · exact ⟨f, List.mem_append_left _ (List.mem_filter.mpr ⟨hf, by simpa using hown⟩), rfl, hr⟩
  · rintro ⟨f, hf, rfl, hr⟩
    rcases List.mem_append.mp hf with hf | hf
    · obtain ⟨hbase, hown⟩ := List.mem_filter.mp hf
      exact .inr ⟨by simpa using hown, f, hbase, rfl, hr⟩
    · exact .inl ⟨f, hf, rfl, hr⟩

/-- Under each name but the reserved one stands what the field that is checked adds. -/
theorem mem_inOrder (h : d.Named) {cs : List (String × Contribution)}
    (hcs : inOrder (Field.checkAll places d.base v ++ Field.checkAll places d.fields v) = .ok cs)
    (name : String) (c : Contribution) : (name, c) ∈ cs ↔
      name ≠ reservedName ∧ ∃ f ∈ d.effective, f.name = name ∧ f.contribute places v = .ok c := by
  rw [checkAll_eq_map, checkAll_eq_map, inOrder_ok_iff] at hcs
  have hnodup : (Members.names (Members.erase reservedName (Members.ofList
      (d.base.map (Field.entry places v) ++ d.fields.map (Field.entry places v))))).Nodup :=
    (Members.nodup_ofList _).sublist (List.filter_sublist.map Prod.fst)
  have hentry : (name, c) ∈ cs ↔ (name, .ok c) ∈ Members.erase reservedName (Members.ofList
      (d.base.map (Field.entry places v) ++ d.fields.map (Field.entry places v))) := by
    constructor
    · intro hmem
      obtain ⟨⟨name', r⟩, hentry, hname, hr⟩ := exists_of_forall₂ hcs.flip hmem
      cases hname
      cases hr
      exact hentry
    · intro hmem
      obtain ⟨⟨name', c'⟩, hmem', hname, hr⟩ := exists_of_forall₂ hcs hmem
      cases hname
      cases hr
      exact hmem'
  rw [hentry, ← Members.get?_eq_some_iff hnodup, Members.get?_erase, ← get?_overlay h]
  by_cases hname : name = reservedName
  · simp [hname]
  · simp [hname]

/-- Fields are put in order exactly if all that are checked answer. -/
theorem exists_inOrder_iff (h : d.Named) :
    (∃ cs, inOrder (Field.checkAll places d.base v ++ Field.checkAll places d.fields v) = .ok cs) ↔
      ∀ f ∈ d.effective, f.name ≠ reservedName → ∃ c, f.contribute places v = .ok c := by
  rw [checkAll_eq_map, checkAll_eq_map]
  simp only [inOrder_ok_iff]
  constructor
  · rintro ⟨cs, hcs⟩ f hf hname
    have hget := (get?_overlay h).mpr ⟨f, hf, rfl, @rfl _ (f.contribute places v)⟩
    have hmem : (f.name, f.contribute places v) ∈ Members.erase reservedName (Members.ofList
        (d.base.map (Field.entry places v) ++ d.fields.map (Field.entry places v))) := by
      apply Members.mem_of_get?
      rw [Members.get?_erase, if_neg hname]
      exact hget
    obtain ⟨⟨_, c⟩, -, -, hc⟩ := exists_of_forall₂ hcs hmem
    exact ⟨c, hc⟩
  · intro hall
    apply exists_forall₂
    rintro ⟨name, r⟩ hmem
    obtain ⟨hmem, hname⟩ := List.mem_filter.mp hmem
    obtain ⟨f, hf, rfl, rfl⟩ :=
      (get?_overlay h).mp (Members.get?_of_mem (Members.nodup_ofList _) hmem)
    obtain ⟨c, hc⟩ := hall f hf (by simpa using hname)
    exact ⟨(f.name, c), rfl, hc⟩

/-- What the checked fields of a model add to the check of a value, in the order of the declared
keys. -/
structure Definition.Adds (places : Places) (d : Definition) (v : Value)
    (cs : List (String × Contribution)) : Prop where
  names_eq : cs.map Prod.fst = keyOrder d.declared
  mem_iff : ∀ name c, (name, c) ∈ cs ↔
    ∃ f ∈ d.effective, f.name = name ∧ f.contribute places v = .ok c
  answers : ∀ f ∈ d.effective, ∃ c, f.contribute places v = .ok c ∧ (f.name, c) ∈ cs

/-- The fields are put in the order of the declared keys, and each declared key has what the field
that is checked adds. -/
theorem adds_of_inOrder (h : d.Listed) {cs : List (String × Contribution)}
    (hcs : inOrder (Field.checkAll places d.base v ++ Field.checkAll places d.fields v) = .ok cs) :
    d.Adds places v cs := by
  have hname : ∀ f ∈ d.effective, f.name ≠ reservedName := by
    rintro f hf heq
    apply h.reserved_not_declared
    rw [← heq, ← Definition.mem_names_effective]
    exact List.mem_map_of_mem hf
  have hmem : ∀ name c, (name, c) ∈ cs ↔
      ∃ f ∈ d.effective, f.name = name ∧ f.contribute places v = .ok c := by
    intro name c
    rw [mem_inOrder h.toNamed hcs, and_iff_right_iff_imp]
    rintro ⟨f, hf, rfl, -⟩
    exact hname f hf
  refine ⟨?_, hmem, fun f hf => ?_⟩
  · rw [checkAll_eq_map, checkAll_eq_map, inOrder_ok_iff] at hcs
    have hordered : Members.names (Members.ofList (d.base.map (Field.entry places v) ++
        d.fields.map (Field.entry places v))) = keyOrder d.declared := by
      rw [Members.names_ofList, List.map_append, map_entry_names, map_entry_names,
        List.eraseDups_append, eraseDups_eq_self h.base_nodup, List.removeAll,
        eraseDups_eq_self (h.fields_nodup.sublist List.filter_sublist)]
      rfl
    have hreserved : reservedName ∉ Members.names (Members.ofList
        (d.base.map (Field.entry places v) ++ d.fields.map (Field.entry places v))) := by
      rw [hordered, mem_keyOrder]
      exact h.reserved_not_declared
    rw [Members.erase_eq_self hreserved] at hcs
    exact hcs.names_eq.symm.trans hordered
  · obtain ⟨c, hc⟩ := (exists_inOrder_iff h.toNamed).mp ⟨cs, hcs⟩ f hf (hname f hf)
    exact ⟨c, hc, (hmem _ _).mpr ⟨f, hf, rfl, hc⟩⟩

theorem check_obj (d : Definition) (origin : Origin) (ms : Members Value) :
    d.check places (.obj origin ms) =
      (inOrder (Field.checkAll places d.base (.obj origin ms) ++
        Field.checkAll places d.fields (.obj origin ms))).map fun cs =>
          runValidators d.overrides.validators (assemble d.overrides.extra ms cs) :=
  check_of_members rfl

end JsonModel
