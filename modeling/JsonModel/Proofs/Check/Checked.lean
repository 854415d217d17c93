-- The fields that a model checks: one under each name but the reserved one. An object is accepted
-- exactly when all of them accept what they read, and then so does a model of looser fields.
import JsonModel.Proofs.Check.Looser

namespace JsonModel

variable {places : Places} {limits limits' : Limits} {d d' : Definition} {v : Value}

/-! ## Checked fields -/

/-- The fields that are checked, under their names. Of two fields of one name the later one counts,
at the place of the earlier one, and none counts under the reserved name. -/
def Definition.checked (d : Definition) : Members Field :=
  Members.erase reservedName (Members.ofList ((d.base ++ d.fields).map fun f => (f.name, f)))

/-- What is set for every field is found for those that are checked. -/
theorem checked_map {α : Type _} (d : Definition) (g : Field → α) :
    Members.erase reservedName (Members.ofList ((d.base ++ d.fields).map fun f => (f.name, g f))) =
      d.checked.map fun m => (m.1, g m.2) := by
  have hnamed : ((d.base ++ d.fields).map fun f => (f.name, g f)) =
      ((d.base ++ d.fields).map fun f => (f.name, f)).map fun m => (m.1, g m.2) := by
    rw [List.map_map]
    rfl
  rw [hnamed, Members.ofList_map, Members.erase_map]
  rfl

theorem nodup_checked (d : Definition) : (Members.names d.checked).Nodup :=
  (Members.nodup_ofList _).sublist (List.filter_sublist.map Prod.fst)

theorem mem_of_mem_checked {m : String × Field} (h : m ∈ d.checked) :
    m.2 ∈ d.base ++ d.fields ∧ m.1 = m.2.name ∧ m.1 ≠ reservedName := by
  obtain ⟨hmem, hname⟩ := List.mem_filter.mp h
  obtain ⟨f, hf, rfl⟩ := List.mem_map.mp (Members.mem_of_mem_ofList hmem)
  exact ⟨hf, rfl, by simpa using hname⟩

/-- Every field without the reserved name has its name checked. -/
theorem checked_ne_nil {f : Field} (hf : f ∈ d.base ++ d.fields) (hname : f.name ≠ reservedName) :
    d.checked ≠ [] := by
  have hmem : f.name ∈ Members.names (Members.ofList ((d.base ++ d.fields).map fun f => (f.name, f))) :=
    Members.mem_names_ofList.mpr (List.mem_map_of_mem (List.mem_map_of_mem hf))
  obtain ⟨m, hm, hmname⟩ := List.mem_map.mp hmem
  exact List.ne_nil_of_mem (List.mem_filter.mpr ⟨hm, by simpa [hmname] using hname⟩)

theorem inOrder_checked_iff {cs : List (String × Contribution)} :
    inOrder (Field.checkAll places d.base v ++ Field.checkAll places d.fields v) = .ok cs ↔
      Members.Pairs (fun _ f c => f.contribute places v = .ok c) d.checked cs := by
  rw [checkAll_eq_map, checkAll_eq_map, ← List.map_append, inOrder_ok_iff,
    checked_map d fun f => f.contribute places v]
  unfold Members.Pairs
  rw [List.forall₂_map_left_iff]

/-! ## The check of a model -/

/-- A field has nothing to report. -/
def Field.Clean (places : Places) (f : Field) (v : Value) : Prop :=
  ∃ c, f.contribute places v = .ok c ∧ c.issues = []

/-- A field has nothing to report where it falls back to its default, or reads what it accepts. -/
theorem clean_iff {f : Field} : f.Clean places v ↔
    f.defaultsToNull = true ∧ (v.read? f.name).getD .undefined = .undefined ∨
      ∃ value, v.read? f.name = some value ∧
        accepting (f.type.check places f.limits value) = true := by
  unfold Field.Clean Field.contribute
  cases hread : v.read? f.name with
  | none =>
    cases hdefault : f.defaultsToNull with
    | true => simp [Except.map, contribution, Outcome.accept]
    | false =>
      simp only [Option.getD_none, Bool.false_eq_true, false_and, reduceCtorEq, exists_false,
        or_false, iff_false, not_exists, not_and]
      intro c hc hclean
      obtain ⟨o, -, rfl⟩ := map_ok_iff.mp hc
      unfold contribution at hclean
      split at hclean
      · split at hclean
        · simp at hclean
        · rename_i hrejected
          exact hrejected (List.isEmpty_iff.mpr (List.map_eq_nil_iff.mp hclean))
      · rename_i hnone
        exact hnone rfl rfl
  | some value =>
    have hadded : ∀ r : Except Clash Outcome,
        (∃ c, r.map (contribution f.name (some value) f.defaultsToNull) = .ok c ∧ c.issues = []) ↔
          accepting r = true := by
      intro r
      cases r with
      | error e => simp [Except.map, accepting]
      | ok o => simp [Except.map, contribution, accepting, Outcome.accepted]
    rw [hadded]
    simp only [Option.getD_some, Option.some.injEq, exists_eq_left']
    cases value with
    | undefined =>
      cases hdefault : f.defaultsToNull with
      | true => simp [accepting, Outcome.accept, Outcome.accepted]
      | false => simp
    | _ => simp

/-- Where a model accepts, no checked field has anything to report. -/
theorem clean_of_accepting (h : accepting (d.check places v) = true) :
    v.members?.isSome = true ∧ ∀ m ∈ d.checked, m.2.Clean places v := by
  obtain ⟨o, ho, hclean⟩ := accepting_iff.mp h
  cases hms : v.members? with
  | none =>
    rw [check_of_no_members hms] at ho
    cases ho
    simp [wrongType, Outcome.reject] at hclean
  | some ms =>
    refine ⟨rfl, fun m hm => ?_⟩
    rw [check_of_members hms] at ho
    obtain ⟨cs, hcs, rfl⟩ := map_ok_iff.mp ho
    obtain ⟨⟨name, c⟩, hc, -, hadded⟩ := exists_of_forall₂ (inOrder_checked_iff.mp hcs) hm
    have haccepted : (assemble d.overrides.extra ms cs).accepted = true :=
      List.isEmpty_iff.mpr (runValidators_accepted hclean)
    exact ⟨c, hadded, (assemble_accepted_iff.mp haccepted).1 name c hc⟩

theorem model_total (h : ∀ m ∈ d.checked, ∃ c, m.2.contribute places v = .ok c) :
    ∃ o, d.check places v = .ok o := by
  cases hms : v.members? with
  | none => exact ⟨_, check_of_no_members hms⟩
  | some ms =>
    rw [check_of_members hms]
    have hcs : ∃ cs, Members.Pairs (fun _ f c => f.contribute places v = .ok c) d.checked cs := by
      apply exists_forall₂
      rintro ⟨name, f⟩ hf
      obtain ⟨c, hc⟩ := h _ hf
      exact ⟨(name, c), rfl, hc⟩
    obtain ⟨cs, hcs⟩ := hcs
    rw [inOrder_checked_iff.mpr hcs]
    exact ⟨_, rfl⟩

/-- Where no checked field has anything to report, and no undeclared key is forbidden, the object that
the fields make is accepted. -/
theorem assembled_of_clean {ms : Members Value} (h : ∀ m ∈ d.checked, m.2.Clean places v)
    (hkeys : d.overrides.extra = .forbid → undeclared (Members.names d.checked) ms = []) :
    ∃ cs, inOrder (Field.checkAll places d.base v ++ Field.checkAll places d.fields v) = .ok cs ∧
      (assemble d.overrides.extra ms cs).accepted = true := by
  have hcs : ∃ cs, Members.Pairs (fun _ f c => f.contribute places v = .ok c ∧ c.issues = [])
      d.checked cs := by
    apply exists_forall₂
    rintro ⟨name, f⟩ hf
    obtain ⟨c, hc⟩ := h _ hf
    exact ⟨(name, c), rfl, hc⟩
  obtain ⟨cs, hcs⟩ := hcs
  refine ⟨cs, inOrder_checked_iff.mpr (hcs.imp fun _ _ hm => ⟨hm.1, hm.2.1⟩),
    assemble_accepted_iff.mpr ⟨fun name c hc => ?_, fun hforbid => ?_⟩⟩
  · obtain ⟨_, -, -, -, hclean⟩ := exists_of_forall₂ hcs.flip hc
    exact hclean
  · have hnames : cs.map Prod.fst = Members.names d.checked := hcs.names_eq.symm
    rw [hnames]
    exact hkeys hforbid

/-- A model without overrides accepts where no checked field has anything to report. -/
theorem accepting_of_clean (hoverrides : d.overrides = {}) (hv : v.members?.isSome = true)
    (h : ∀ m ∈ d.checked, m.2.Clean places v) : accepting (d.check places v) = true := by
  obtain ⟨ms, hms⟩ := Option.isSome_iff_exists.mp hv
  have hignores : d.overrides.extra ≠ .forbid := by
    rw [hoverrides]
    simp [Overrides.extra, Overrides.setting?]
  obtain ⟨cs, hcs, haccepted⟩ := @assembled_of_clean places d v ms h (absurd · hignores)
  rw [check_of_members hms, hcs, hoverrides]
  simp only [runValidators_nil]
  rw [hoverrides] at haccepted
  exact haccepted

/-! ## Looser models -/

/-- A field has the name and the default of another one, and a looser type. -/
structure Field.Looser (f f' : Field) : Prop where
  name_eq : f'.name = f.name
  default_eq : f'.defaultsToNull = f.defaultsToNull
  type : f.type.Looser f.limits f'.type f'.limits

theorem Field.Looser.clean {f f' : Field} (h : f.Looser f') (hclean : f.Clean places v) :
    f'.Clean places v := by
  rw [clean_iff] at hclean ⊢
  rw [h.name_eq, h.default_eq]
  refine hclean.imp_right ?_
  rintro ⟨value, hread, haccepts⟩
  exact ⟨value, hread, h.type.accepts places value haccepts⟩

theorem contribute_total {f : Field}
    (h : ∀ v, ∃ o, f.type.check places f.limits v = .ok o) :
    ∃ c, f.contribute places v = .ok c := by
  have hmap : ∀ {r : Except Clash Outcome} {g : Outcome → Contribution}, (∃ o, r = .ok o) →
      ∃ c, r.map g = .ok c := by
    rintro _ g ⟨o, rfl⟩
    exact ⟨g o, rfl⟩
  unfold Field.contribute
  apply hmap
  split
  · exact ⟨_, rfl⟩
  · exact h _

/-- A model without overrides whose checked fields are looser than those of another one is looser. -/
theorem looser_composite (hoverrides : d'.overrides = {})
    (h : ∀ m' ∈ d'.checked, ∃ m ∈ d.checked, m.2.Looser m'.2) :
    (TypeDescriptor.composite d).Looser limits (.composite d') limits' where
  answers places v := by
    refine model_total fun m' hm' => contribute_total fun value => ?_
    obtain ⟨m, -, hlooser⟩ := h m' hm'
    exact hlooser.type.answers places value
  accepts places v haccepts := by
    obtain ⟨hv, hclean⟩ := clean_of_accepting haccepts
    refine accepting_of_clean hoverrides hv fun m' hm' => ?_
    obtain ⟨m, hm, hlooser⟩ := h m' hm'
    exact hlooser.clean (hclean m hm)

end JsonModel
