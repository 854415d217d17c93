-- Two runs of one check. The runs end alike if they find the same issues and, where there are none,
-- make values that some relation holds between. Whatever the relation, this goes from the parts of a
-- type to the type.
import JsonModel.Check.Model
import JsonModel.Proofs.Check.Fields

namespace JsonModel

/-! ## Outcomes that are alike -/

/-- Two outcomes have the same issues, and values that `R` relates if there are none. -/
structure Outcome.Like (R : Value → Value → Prop) (o o' : Outcome) : Prop where
  issues : o.issues = o'.issues
  halted : o.halted = o'.halted
  value : o.issues = [] → R o.value o'.value

/-- Two checks end with outcomes that are alike, or with the same clash. -/
abbrev RunLike (R : Value → Value → Prop) : Except Clash Outcome → Except Clash Outcome → Prop :=
  EndAlike (Outcome.Like R)

section

variable {R : Value → Value → Prop} {o o' : Outcome}

theorem Outcome.Like.refl (hR : ∀ v, R v v) (o : Outcome) : o.Like R o := ⟨rfl, rfl, fun _ => hR _⟩

theorem Outcome.Like.accepted_eq (h : o.Like R o') : o.accepted = o'.accepted := by
  unfold Outcome.accepted
  rw [h.issues]

theorem Outcome.Like.aborted_eq (h : o.Like R o') : o.aborted = o'.aborted := by
  unfold Outcome.aborted
  rw [h.issues, h.halted]

/-- Two values are rejected alike, whatever they are. -/
theorem like_reject (v w : Value) (fault : Fault) :
    (Outcome.reject v fault).Like R (.reject w fault) :=
  ⟨rfl, rfl, fun h => by simp [Outcome.reject] at h⟩

end

variable {R : Value → Value → Prop} {places : Places} {limits : Limits}

/-! ## Unions -/

theorem checkVariants_like {variants : List TypeDescriptor} {v w : Value}
    (h : ∀ t ∈ variants, RunLike R (t.check places limits v) (t.check places limits w)) :
    EndAlike (Sum.LiftRel (Outcome.Like R) (List.Forall₂ (Outcome.Like R)))
      (TypeDescriptor.checkVariants places variants limits v)
      (TypeDescriptor.checkVariants places variants limits w) := by
  induction variants with
  | nil => exact .ok (.inr .nil)
  | cons t variants ih =>
    unfold TypeDescriptor.checkVariants
    apply (h t List.mem_cons_self).bind
    intro o o' ho
    rw [ho.accepted_eq]
    by_cases haccepted : o'.accepted = true
    · simp only [haccepted, if_true]
      exact .ok (.inl ho)
    · simp only [haccepted, Bool.false_eq_true, if_false]
      apply (ih fun u hu => h u (List.mem_cons_of_mem _ hu)).bind
      intro trial trial' htrial
      cases htrial with
      | inl hwinner => exact .ok (.inl hwinner)
      | inr hnone => exact .ok (.inr (.cons ho hnone))

theorem noVariantOutcome_like {os os' : List Outcome} (h : List.Forall₂ (Outcome.Like R) os os')
    (v w : Value) : (noVariantOutcome v os).Like R (noVariantOutcome w os') := by
  have hfilter : List.Forall₂ (Outcome.Like R) (os.filter fun o => !o.aborted)
      (os'.filter fun o => !o.aborted) := by
    induction h with
    | nil => exact .nil
    | @cons o o' _ _ hhead _ ih =>
      rw [List.filter_cons, List.filter_cons, hhead.aborted_eq]
      cases o'.aborted with
      | true => simpa using ih
      | false => simpa using ⟨hhead, ih⟩
  unfold noVariantOutcome
  generalize os.filter (fun o => !o.aborted) = kept at hfilter ⊢
  generalize os'.filter (fun o => !o.aborted) = kept' at hfilter ⊢
  cases hfilter with
  | nil => exact like_reject _ _ _
  | cons hhead hrest =>
    cases hrest with
    | nil => exact hhead
    | cons _ _ => exact like_reject _ _ _

/-- A union checks alike what all of its variants check alike. -/
theorem union_like {variants : List TypeDescriptor} {v w : Value}
    (h : ∀ t ∈ variants, RunLike R (t.check places limits v) (t.check places limits w)) :
    RunLike R ((TypeDescriptor.union variants).check places limits v)
      ((TypeDescriptor.union variants).check places limits w) := by
  by_cases hone : ∃ only, variants = [only]
  · obtain ⟨only, rfl⟩ := hone
    exact h only List.mem_cons_self
  · have hmany : ∀ only, variants ≠ [only] := fun only honly => hone ⟨only, honly⟩
    rw [union_check hmany, union_check hmany]
    apply (checkVariants_like h).bind
    intro trial trial' htrial
    cases htrial with
    | inl hwinner => exact .ok hwinner
    | inr hnone => exact .ok (noVariantOutcome_like hnone v w)

/-! ## Lists -/

/-- Outcomes that are alike have the same issues under the same places. -/
theorem itemIssues_eq {os os' : List Outcome} (h : List.Forall₂ (Outcome.Like R) os os')
    (first : Nat) :
    ((os.zipIdx first).flatMap fun (o, i) => o.issues.map (Issue.under (.index i))) =
      (os'.zipIdx first).flatMap fun (o, i) => o.issues.map (Issue.under (.index i)) := by
  induction h generalizing first with
  | nil => rfl
  | cons hhead _ ih =>
    rw [List.zipIdx_cons, List.zipIdx_cons, List.flatMap_cons, List.flatMap_cons, ih]
    simp only [hhead.issues]

/-- A list checks alike what its items check alike, if `R` holds between lists as soon as it does
between their items. -/
theorem listOf_like {t : TypeDescriptor} {origin : Origin} {xs ys : List Value}
    (hlist : ∀ us us' : List Value, List.Forall₂ R us us' → R (.arr .made us) (.arr .made us'))
    (h : List.Forall₂ (fun x y => RunLike R (t.check places {} x) (t.check places {} y)) xs ys) :
    RunLike R ((TypeDescriptor.listOf t).check places limits (.arr origin xs))
      ((TypeDescriptor.listOf t).check places limits (.arr origin ys)) := by
  unfold TypeDescriptor.check
  simp only
  apply (endAlike_mapM h).bind
  intro os os' hos
  refine .ok ⟨itemIssues_eq hos 0, rfl, fun hnone => hlist _ _ ?_⟩
  have hclean : ∀ o ∈ os, o.issues = [] := by
    have hall := (itemIssues_isEmpty os 0).symm.trans (List.isEmpty_iff.mpr hnone)
    intro o ho
    exact List.isEmpty_iff.mp (List.all_eq_true.mp hall o ho)
  rw [List.forall₂_map_left_iff, List.forall₂_map_right_iff]
  exact forall₂_imp_of_mem hos fun o ho o' hlike => hlike.value (hclean o ho)

/-! ## Fields -/

/-- Two fields add the same issues, and what they add is related if there are none. -/
structure Contribution.Like (R : Value → Value → Prop) (c c' : Contribution) : Prop where
  issues : c.issues = c'.issues
  value : Option.Rel (fun x y => c.issues = [] → R x y) c.value c'.value

theorem Contribution.Like.refl (hR : ∀ v, R v v) (c : Contribution) : c.Like R c := by
  refine ⟨rfl, ?_⟩
  cases c.value with
  | none => exact .none
  | some x => exact .some fun _ => hR x

/-- Outcomes that are alike are added alike. -/
theorem added_like (name : String) {o o' : Outcome} (h : o.Like R o') :
    Contribution.Like R ⟨o.issues.map (.under (.key name)), some o.value⟩
      ⟨o'.issues.map (.under (.key name)), some o'.value⟩ := by
  refine ⟨congrArg (List.map (Issue.under (.key name))) h.issues, .some fun hnone => h.value ?_⟩
  exact List.map_eq_nil_iff.mp hnone

/-- A field adds alike to two values that answer to its name with the same, or with values that are
checked alike. -/
theorem contribute_like {f : Field} {v w : Value} (hR : ∀ v, R v v)
    (h : v.read? f.name = w.read? f.name ∨ ∃ x y, v.read? f.name = some x ∧
      w.read? f.name = some y ∧ x ≠ .undefined ∧ y ≠ .undefined ∧
      RunLike R (f.type.check places f.limits x) (f.type.check places f.limits y)) :
    EndAlike (Contribution.Like R) (f.contribute places v) (f.contribute places w) := by
  obtain hsame | ⟨x, y, hx, hy, hxne, hyne, hrun⟩ := h
  · rw [contribute_congr hsame]
    exact EndAlike.refl (Contribution.Like.refl hR) _
  · rw [contribute_found hx hxne, contribute_found hy hyne]
    exact hrun.map fun o o' ho => added_like _ ho

/-- Fields add alike in order what they add alike each. -/
theorem inOrder_like {entries entries' : List (String × Except Clash Contribution)}
    (h : Members.Pairs (fun _ => EndAlike (Contribution.Like R)) entries entries') :
    EndAlike (Members.Pairs fun _ => Contribution.Like R) (inOrder entries) (inOrder entries') := by
  unfold inOrder Members.erase
  apply endAlike_mapM
  refine (h.ofList.filter (· != reservedName)).imp ?_
  rintro ⟨name, r⟩ ⟨name', r'⟩ ⟨rfl, hr⟩
  apply hr.map
  intro c c' hc
  exact ⟨rfl, hc⟩

theorem addedIssues_eq {cs cs' : List (String × Contribution)}
    (h : Members.Pairs (fun _ => Contribution.Like R) cs cs') :
    (cs.flatMap fun (_, c) => c.issues) = cs'.flatMap fun (_, c) => c.issues := by
  induction h with
  | nil => rfl
  | cons hhead _ ih =>
    rw [List.flatMap_cons, List.flatMap_cons, ih]
    exact congrArg (· ++ _) hhead.2.issues

/-- Where no field adds an issue, the values that the fields add are related. -/
theorem addedValues_like {cs cs' : List (String × Contribution)}
    (h : Members.Pairs (fun _ => Contribution.Like R) cs cs')
    (hclean : (cs.flatMap fun (_, c) => c.issues) = []) :
    Members.Pairs (fun _ => R) (addedValues cs) (addedValues cs') := by
  unfold addedValues
  induction h with
  | nil => exact .nil
  | @cons m n _ _ hhead _ ih =>
    obtain ⟨name, c⟩ := m
    obtain ⟨_, c'⟩ := n
    obtain ⟨rfl, hc⟩ := hhead
    rw [List.flatMap_cons, List.append_eq_nil_iff] at hclean
    have hvalue := hc.value
    rw [List.filterMap_cons, List.filterMap_cons]
    simp only
    generalize c.value = value at hvalue
    generalize c'.value = value' at hvalue
    cases hvalue with
    | none => exact ih hclean.2
    | some hxy => exact .cons ⟨rfl, hxy hclean.1⟩ (ih hclean.2)

/-! ## Models -/

theorem checkAll_like {fields : List Field} {v w : Value}
    (h : ∀ f ∈ fields, EndAlike (Contribution.Like R) (f.contribute places v)
      (f.contribute places w)) :
    Members.Pairs (fun _ => EndAlike (Contribution.Like R)) (Field.checkAll places fields v)
      (Field.checkAll places fields w) := by
  unfold Members.Pairs
  rw [checkAll_eq_map, checkAll_eq_map, List.forall₂_map_left_iff, List.forall₂_map_right_iff,
    List.forall₂_same]
  exact fun f hf => ⟨rfl, h f hf⟩

/-- A model without validators checks alike what its fields check alike, if `R` holds between
objects that are put together alike. -/
theorem model_like {d : Definition} (hvalidators : d.overrides.validators = [])
    {v w : Value} {ms ns : Members Value} (hv : v.members? = some ms) (hw : w.members? = some ns)
    (hfields : ∀ f ∈ d.base ++ d.fields, EndAlike (Contribution.Like R) (f.contribute places v)
      (f.contribute places w))
    (hassemble : ∀ cs cs' : List (String × Contribution), (cs.map Prod.fst).Nodup →
      (∀ name, name ∈ cs.map Prod.fst ↔
        name ∈ (d.base ++ d.fields).map Field.name ∧ name ≠ reservedName) →
      Members.Pairs (fun _ => Contribution.Like R) cs cs' →
        (assemble d.overrides.extra ms cs).Like R (assemble d.overrides.extra ns cs')) :
    RunLike R (d.check places v) (d.check places w) := by
  rw [check_of_members hv, check_of_members hw, hvalidators]
  simp only [runValidators_nil]
  have hentries : Members.Pairs (fun _ => EndAlike (Contribution.Like R))
      (Field.checkAll places d.base v ++ Field.checkAll places d.fields v)
      (Field.checkAll places d.base w ++ Field.checkAll places d.fields w) :=
    List.rel_append (checkAll_like fun f hf => hfields f (List.mem_append_left _ hf))
      (checkAll_like fun f hf => hfields f (List.mem_append_right _ hf))
  have horder := inOrder_like hentries
  have hnames : (Field.checkAll places d.base v ++ Field.checkAll places d.fields v).map Prod.fst =
      (d.base ++ d.fields).map Field.name := by
    rw [checkAll_eq_map, checkAll_eq_map, ← List.map_append, List.map_map]
    rfl
  generalize hcs : inOrder (Field.checkAll places d.base v ++ Field.checkAll places d.fields v) = r
    at horder ⊢
  generalize inOrder (Field.checkAll places d.base w ++ Field.checkAll places d.fields w) = r'
    at horder ⊢
  cases horder with
  | error e => exact .error e
  | ok hpairs =>
    obtain ⟨hnodup, hmem⟩ := inOrder_names hcs
    rw [hnames] at hmem
    exact .ok (hassemble _ _ hnodup hmem hpairs)

/-! ## Answers -/

/-- Two answers are alike: both give values that `R` relates, or both fail with the same issues. -/
inductive ParseResult.Like (R : Value → Value → Prop) : ParseResult → ParseResult → Prop
  | success {v w : Value} : R v w → Like R (.success v) (.success w)
  | failure (issues : List Issue) : Like R (.failure issues) (.failure issues)

theorem toResult_like {o o' : Outcome} (h : o.Like R o') : o.toResult.Like R o'.toResult := by
  unfold Outcome.toResult
  rw [h.accepted_eq, ← h.issues]
  by_cases haccepted : o'.accepted = true
  · rw [if_pos haccepted, if_pos haccepted]
    rw [← h.accepted_eq] at haccepted
    exact .success (h.value (List.isEmpty_iff.mp haccepted))
  · rw [if_neg haccepted, if_neg haccepted]
    exact .failure _

end JsonModel
