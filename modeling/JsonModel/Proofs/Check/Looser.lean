-- Types that take more than others. What a looser part does passes on to the whole: to lists, unions,
-- types that accept null too, and models, whose fields stand under their names.
import JsonModel.Proofs.Check.Fields
import JsonModel.Proofs.Check.Output

namespace JsonModel

variable {places : Places} {limits limits' : Limits} {t t' : TypeDescriptor} {v : Value}

/-- Whatever a type takes within some limits, another type takes within limits of its own, and that
one has an answer to anything. -/
structure TypeDescriptor.Looser (t : TypeDescriptor) (limits : Limits) (t' : TypeDescriptor)
    (limits' : Limits) : Prop where
  answers : ∀ places v, ∃ o, t'.check places limits' v = .ok o
  accepts : ∀ places v, accepting (t.check places limits v) = true →
    accepting (t'.check places limits' v) = true

theorem accepting_iff {r : Except Clash Outcome} :
    accepting r = true ↔ ∃ o, r = .ok o ∧ o.issues = [] := by
  cases r with
  | ok o => simp [accepting, Outcome.accepted]
  | error e => simp [accepting]

/-! ## Lists -/

/-- A list is accepted exactly when each of its items is, and nothing else is. -/
theorem accepting_listOf_iff : accepting ((TypeDescriptor.listOf t).check places limits v) = true ↔
    ∃ origin items, v = .arr origin items ∧
      ∀ item ∈ items, accepting (t.check places {} item) = true := by
  constructor
  · intro h
    obtain ⟨o, ho, hclean⟩ := accepting_iff.mp h
    unfold TypeDescriptor.check at ho
    split at ho
    · rename_i origin items
      obtain ⟨outcomes, houtcomes, ho⟩ := bind_ok_iff.mp ho
      cases ho
      refine ⟨origin, items, rfl, fun item hitem => ?_⟩
      have hall := mapM_ok_iff.mp houtcomes
      have haccepted := itemIssues_isEmpty outcomes 0
      rw [List.isEmpty_iff.mpr hclean, accepting_eq_of_forall₂ hall, eq_comm] at haccepted
      exact List.all_eq_true.mp haccepted item hitem
    · cases ho
      simp [wrongType, Outcome.reject] at hclean
  · rintro ⟨origin, items, rfl, hitems⟩
    have hanswers : ∀ item ∈ items, ∃ o, t.check places {} item = .ok o := by
      intro item hitem
      obtain ⟨o, ho, -⟩ := accepting_iff.mp (hitems item hitem)
      exact ⟨o, ho⟩
    obtain ⟨o, _, ho, -, -, -, haccepted⟩ := @listOf_answers places limits t origin items hanswers
    rw [ho, accepting, haccepted]
    exact List.all_eq_true.mpr hitems

theorem listOf_total (h : ∀ v, ∃ o, t.check places {} v = .ok o) (v : Value) :
    ∃ o, (TypeDescriptor.listOf t).check places limits v = .ok o := by
  cases v with
  | arr origin items =>
    obtain ⟨o, _, ho, -⟩ := @listOf_answers places limits t origin items fun item _ => h item
    exact ⟨o, ho⟩
  | _ => exact ⟨_, rfl⟩

theorem looser_listOf (h : t.Looser {} t' {}) :
    (TypeDescriptor.listOf t).Looser limits (.listOf t') limits' where
  answers places v := listOf_total (h.answers places) v
  accepts places v haccepts := by
    obtain ⟨origin, items, rfl, hitems⟩ := accepting_listOf_iff.mp haccepts
    exact accepting_listOf_iff.mpr
      ⟨origin, items, rfl, fun item hitem => h.accepts places item (hitems item hitem)⟩

theorem looser_anyList : (TypeDescriptor.listOf t).Looser limits .anyList limits' where
  answers places v := by cases v <;> exact ⟨_, rfl⟩
  accepts places v haccepts := by
    obtain ⟨origin, items, rfl, -⟩ := accepting_listOf_iff.mp haccepts
    rfl

/-! ## Unions -/

/-- A type answers to a value exactly if it gives something or nothing for it. -/
theorem exists_check_iff : (∃ o, t.check places limits v = .ok o) ↔
    ∃ given, t.output? places limits v = .ok given := by
  rw [output?_eq]
  cases t.check places limits v <;> simp [Except.map]

theorem accepting_iff_output? : accepting (t.check places limits v) = true ↔
    ∃ out, t.output? places limits v = .ok (some out) := by
  rw [output?_eq]
  cases t.check places limits v <;> simp [Except.map, accepting, Outcome.output?]

/-- A union answers as soon as all of its variants do. -/
theorem union_total {ts : List TypeDescriptor} (h : ∀ t ∈ ts, ∃ o, t.check places limits v = .ok o) :
    ∃ o, (TypeDescriptor.union ts).check places limits v = .ok o := by
  rw [exists_check_iff, output?_union]
  obtain ⟨given, hgiven, -⟩ := findSomeM?_total fun t ht => exists_check_iff.mp (h t ht)
  exact ⟨given, hgiven⟩

/-- What a union accepts, one of its variants does. -/
theorem accepting_variant {ts : List TypeDescriptor}
    (h : accepting ((TypeDescriptor.union ts).check places limits v) = true) :
    ∃ t ∈ ts, accepting (t.check places limits v) = true := by
  obtain ⟨o, ho, hclean⟩ := accepting_iff.mp h
  rcases union_outcome ho with ⟨t, ht, hcheck⟩ | rfl
  · exact ⟨t, ht, accepting_iff.mpr ⟨o, hcheck, hclean⟩⟩
  · simp [Outcome.reject] at hclean

theorem accepting_union {ts : List TypeDescriptor}
    (h : ∀ t ∈ ts, ∃ o, t.check places limits v = .ok o) (ht : t ∈ ts)
    (haccepts : accepting (t.check places limits v) = true) :
    accepting ((TypeDescriptor.union ts).check places limits v) = true := by
  obtain ⟨o, ho⟩ := union_total h
  rw [ho]
  exact union_accepts ho ht haccepts

/-- A union of looser variants is looser. -/
theorem looser_union {ts ts' : List TypeDescriptor}
    (h : List.Forall₂ (fun t t' => t.Looser limits t' limits') ts ts') :
    (TypeDescriptor.union ts).Looser limits (.union ts') limits' := by
  have hanswers : ∀ places v, ∀ t' ∈ ts', ∃ o, t'.check places limits' v = .ok o := by
    intro places v t' ht'
    obtain ⟨t, -, hlooser⟩ := exists_of_forall₂ h.flip ht'
    exact hlooser.answers places v
  refine ⟨fun places v => union_total (hanswers places v), fun places v haccepts => ?_⟩
  obtain ⟨t, ht, haccepts⟩ := accepting_variant haccepts
  obtain ⟨t', ht', hlooser⟩ := exists_of_forall₂ h ht
  exact accepting_union (hanswers places v) ht' (hlooser.accepts places v haccepts)

/-! ## Accepting null -/

/-- A type that gives what another one gives, or else perhaps null, is as loose. -/
theorem looser_of_output {u : TypeDescriptor} (h : t.Looser limits t' limits')
    (hu : ∀ places v, u.output? places limits' v =
      (t'.output? places limits' v).map fun given => given.or v.ifNull) :
    t.Looser limits u limits' where
  answers places v := by
    obtain ⟨given, hgiven⟩ := exists_check_iff.mp (h.answers places v)
    rw [exists_check_iff, hu, hgiven]
    exact ⟨_, rfl⟩
  accepts places v haccepts := by
    obtain ⟨out, hout⟩ := accepting_iff_output?.mp (h.accepts places v haccepts)
    rw [accepting_iff_output?, hu, hout]
    exact ⟨out, rfl⟩

/-- What accepts null too accepts no less. -/
theorem looser_nullable (h : t.Looser limits t' limits') : t.Looser limits t'.nullable limits' := by
  unfold TypeDescriptor.nullable
  split
  · exact h
  · split
    · exact h
    · exact looser_of_output h fun _ _ => output?_union_null _
  · exact looser_of_output h fun _ _ => output?_pair_null

end JsonModel
