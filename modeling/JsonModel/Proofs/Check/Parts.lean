-- How the check of a type with parts is put together from the checks of the parts. As long as every
-- part answers, so does the whole, and it accepts exactly when the parts do.
import JsonModel.Check.Type
import JsonModel.Proofs.Check.Leaf
import JsonModel.Proofs.Traversal

namespace JsonModel

/-! ## Answers -/

/-- A check ends without a clash, in a value of some class and without unknown keys. -/
def Answers (P : Value → Prop) (r : Except Clash Outcome) : Prop :=
  ∃ o, r = .ok o ∧ P o.value ∧ o.Plain

/-- A check ends and finds nothing wrong. -/
def accepting : Except Clash Outcome → Bool
  | .ok o => o.accepted
  | .error _ => false

theorem answers_wrongType {P : Value → Prop} {v : Value} (hv : P v) (expected : Expected) :
    Answers P (.ok (wrongType expected v)) := ⟨_, rfl, hv, plain_wrongType _ _⟩

theorem issues_append (left right : List Issue) :
    (left ++ right).isEmpty = (left.isEmpty && right.isEmpty) := by
  cases left <;> rfl

variable {places : Places} {limits : Limits} {v : Value} {P : Value → Prop}

/-! ## Unions -/

/-- Either the first variant that accepts wins, or every variant has answered and none accepts. -/
theorem checkVariants_answers {variants : List TypeDescriptor}
    (h : ∀ t ∈ variants, Answers P (t.check places limits v)) :
    (∃ winner, TypeDescriptor.checkVariants places variants limits v = .ok (.inl winner) ∧
      P winner.value ∧ winner.Plain ∧ winner.accepted = true ∧
      (variants.any fun t => accepting (t.check places limits v)) = true) ∨
    (∃ outcomes, TypeDescriptor.checkVariants places variants limits v = .ok (.inr outcomes) ∧
      (∀ o ∈ outcomes, P o.value ∧ o.Plain ∧ o.accepted = false) ∧
      (variants.any fun t => accepting (t.check places limits v)) = false) := by
  induction variants with
  | nil => exact .inr ⟨[], rfl, by simp, rfl⟩
  | cons t variants ih =>
    obtain ⟨o, ho, hvalue, hplain⟩ := h t List.mem_cons_self
    unfold TypeDescriptor.checkVariants
    rw [ho, List.any_cons, ho]
    cases haccepted : o.accepted with
    | true =>
      refine .inl ⟨o, ?_, hvalue, hplain, haccepted, ?_⟩
      · simp [bind, Except.bind, haccepted, pure, Except.pure]
      · simp [accepting, haccepted]
    | false =>
      rcases ih fun t ht => h t (List.mem_cons_of_mem _ ht) with
        ⟨winner, hwinner, hfacts⟩ | ⟨outcomes, houtcomes, hall, hnone⟩
      · refine .inl ⟨winner, ?_, hfacts.1, hfacts.2.1, hfacts.2.2.1, ?_⟩
        · simp [bind, Except.bind, haccepted, hwinner, pure, Except.pure]
        · rw [hfacts.2.2.2, Bool.or_true]
      · refine .inr ⟨o :: outcomes, ?_, ?_, ?_⟩
        · simp [bind, Except.bind, haccepted, houtcomes, pure, Except.pure]
        · intro o' ho'
          rcases List.mem_cons.mp ho' with rfl | ho'
          · exact ⟨hvalue, hplain, haccepted⟩
          · exact hall o' ho'
        · rw [hnone, Bool.or_false]
          exact haccepted

theorem noVariantOutcome_answers (hv : P v) {outcomes : List Outcome}
    (h : ∀ o ∈ outcomes, P o.value ∧ o.Plain ∧ o.accepted = false) :
    P (noVariantOutcome v outcomes).value ∧ (noVariantOutcome v outcomes).Plain ∧
      (noVariantOutcome v outcomes).accepted = false := by
  unfold noVariantOutcome
  split
  · rename_i only honly
    have hmem : only ∈ outcomes.filter fun o => !o.aborted := by
      rw [honly]
      exact List.mem_singleton_self _
    exact h only (List.mem_filter.mp hmem).1
  · exact ⟨hv, plain_reject rfl, rfl⟩

/-- A union of one variant is that variant, and hides none of its issues. Any other tries its
variants in turn. -/
theorem union_check {variants : List TypeDescriptor} (h : ∀ only, variants ≠ [only]) :
    (TypeDescriptor.union variants).check places limits v =
      (do
        match ← TypeDescriptor.checkVariants places variants limits v with
        | .inl winner => return winner
        | .inr outcomes => return noVariantOutcome v outcomes) := by
  match variants with
  | [] => rfl
  | [only] => exact absurd rfl (h only)
  | _ :: _ :: _ => rfl

/-- Either a variant that accepts wins, or every variant has answered and none accepts. -/
theorem checkVariants_ok {ts : List TypeDescriptor} {r : Outcome ⊕ List Outcome}
    (h : TypeDescriptor.checkVariants places ts limits v = .ok r) :
    (∃ winner, r = .inl winner ∧ winner.accepted = true ∧
      ∃ t ∈ ts, t.check places limits v = .ok winner) ∨
    ∃ outcomes, r = .inr outcomes ∧
      List.Forall₂ (fun t o => t.check places limits v = .ok o ∧ o.accepted = false) ts outcomes := by
  induction ts generalizing r with
  | nil =>
    cases h
    exact .inr ⟨[], rfl, .nil⟩
  | cons t ts ih =>
    unfold TypeDescriptor.checkVariants at h
    obtain ⟨o, ho, h⟩ := bind_ok_iff.mp h
    by_cases haccepted : o.accepted = true
    · rw [if_pos haccepted] at h
      cases h
      exact .inl ⟨o, rfl, haccepted, t, List.mem_cons_self, ho⟩
    · rw [if_neg haccepted] at h
      obtain ⟨rest, hrest, h⟩ := bind_ok_iff.mp h
      rcases ih hrest with ⟨winner, rfl, hwins, u, hu, hcheck⟩ | ⟨outcomes, rfl, hall⟩
      · cases h
        exact .inl ⟨winner, rfl, hwins, u, List.mem_cons_of_mem _ hu, hcheck⟩
      · cases h
        exact .inr ⟨_, rfl, .cons ⟨ho, by simpa using haccepted⟩ hall⟩

/-- The outcome of a union is that of one of its variants, or says that there is none. -/
theorem union_outcome {ts : List TypeDescriptor} {o : Outcome}
    (h : (TypeDescriptor.union ts).check places limits v = .ok o) :
    (∃ t ∈ ts, t.check places limits v = .ok o) ∨ o = .reject v .noVariant := by
  by_cases hone : ∃ only, ts = [only]
  · obtain ⟨only, rfl⟩ := hone
    exact .inl ⟨only, List.mem_cons_self, h⟩
  · rw [union_check fun only honly => hone ⟨only, honly⟩] at h
    obtain ⟨r, hr, h⟩ := bind_ok_iff.mp h
    rcases checkVariants_ok hr with ⟨winner, rfl, -, t, ht, hcheck⟩ | ⟨outcomes, rfl, hall⟩
    · cases h
      exact .inl ⟨t, ht, hcheck⟩
    · cases h
      unfold noVariantOutcome
      split
      · rename_i only honly
        have hmem : only ∈ outcomes.filter fun o => !o.aborted := by
          rw [honly]
          exact List.mem_singleton_self _
        obtain ⟨t, ht, hcheck, -⟩ := exists_of_forall₂ hall.flip (List.mem_filter.mp hmem).1
        exact .inl ⟨t, ht, hcheck⟩
      · exact .inr rfl

/-- A union that answers accepts as soon as one of its variants does. -/
theorem union_accepts {ts : List TypeDescriptor} {o : Outcome}
    (h : (TypeDescriptor.union ts).check places limits v = .ok o) {t : TypeDescriptor} (ht : t ∈ ts)
    (haccepts : accepting (t.check places limits v) = true) : o.accepted = true := by
  by_cases hone : ∃ only, ts = [only]
  · obtain ⟨only, rfl⟩ := hone
    obtain rfl := List.mem_singleton.mp ht
    have hcheck : t.check places limits v = .ok o := h
    rw [hcheck] at haccepts
    exact haccepts
  · rw [union_check fun only honly => hone ⟨only, honly⟩] at h
    obtain ⟨r, hr, h⟩ := bind_ok_iff.mp h
    rcases checkVariants_ok hr with ⟨winner, rfl, hwins, -⟩ | ⟨outcomes, rfl, hall⟩
    · cases h
      exact hwins
    · obtain ⟨o', -, hcheck, hrejected⟩ := exists_of_forall₂ hall ht
      rw [hcheck, accepting, hrejected] at haccepts
      simp at haccepts

/-- A union answers, and accepts exactly when one of its variants does. -/
theorem union_answers (hv : P v) {variants : List TypeDescriptor}
    (h : ∀ t ∈ variants, Answers P (t.check places limits v)) :
    Answers P ((TypeDescriptor.union variants).check places limits v) ∧
      accepting ((TypeDescriptor.union variants).check places limits v) =
        variants.any fun t => accepting (t.check places limits v) := by
  by_cases hone : ∃ only, variants = [only]
  · obtain ⟨only, rfl⟩ := hone
    have hcheck : (TypeDescriptor.union [only]).check places limits v =
        only.check places limits v := rfl
    rw [hcheck, List.any_cons, List.any_nil, Bool.or_false]
    exact ⟨h only List.mem_cons_self, rfl⟩
  · rw [union_check fun only honly => hone ⟨only, honly⟩]
    rcases checkVariants_answers h with
      ⟨winner, hwinner, hvalue, hplain, haccepted, hany⟩ | ⟨outcomes, houtcomes, hall, hnone⟩
    · rw [hwinner, hany]
      exact ⟨⟨winner, rfl, hvalue, hplain⟩, haccepted⟩
    · rw [houtcomes, hnone]
      obtain ⟨hvalue, hplain, haccepted⟩ := noVariantOutcome_answers hv hall
      exact ⟨⟨_, rfl, hvalue, hplain⟩, haccepted⟩

/-! ## Intersections -/

/-- Any two values of a class can be joined, and stay in the class. -/
def Joinable (P : Value → Prop) : Prop :=
  ∀ v w, P v → P w → ∃ u, Value.join v w = .ok u ∧ P u

theorem joinIssues_of_plain {left right : Outcome} (hleft : left.Plain) (hright : right.Plain) :
    Outcome.joinIssues left.issues right.issues = left.issues ++ right.issues := by
  have hothers : ∀ {issues : List Issue}, (∀ issue ∈ issues, Outcome.unknownHere? issue = none) →
      issues.filter (fun issue => (Outcome.unknownHere? issue).isNone) = issues := by
    intro issues hissues
    rw [List.filter_eq_self]
    intro issue hissue
    rw [hissues issue hissue]
    rfl
  have hunknown : left.issues.filterMap Outcome.unknownHere? = [] := by
    rw [List.filterMap_eq_nil_iff]
    exact hleft
  unfold Outcome.joinIssues
  simp only
  rw [hothers hleft, hothers hright, hunknown]
  simp

/-- Whether or not the values are joined, the issues are. -/
theorem issues_of_both {left right o : Outcome} (h : left.both v right = .ok o) :
    o.issues = Outcome.joinIssues left.issues right.issues := by
  unfold Outcome.both at h
  simp only at h
  split at h
  · cases h
    rfl
  · split at h
    · cases h
      rfl
    · simp at h

/-- Two outcomes that must both hold are joined, whether or not their issues abort. -/
theorem both_answers (hjoin : Joinable P) (hv : P v) {left right : Outcome}
    (hleft : P left.value ∧ left.Plain) (hright : P right.value ∧ right.Plain) :
    ∃ o, left.both v right = .ok o ∧ P o.value ∧ o.Plain ∧
      o.accepted = (left.accepted && right.accepted) := by
  have hplain : ∀ issue ∈ left.issues ++ right.issues, Outcome.unknownHere? issue = none := by
    intro issue hissue
    rcases List.mem_append.mp hissue with hissue | hissue
    · exact hleft.2 issue hissue
    · exact hright.2 issue hissue
  have haccepted : (left.issues ++ right.issues).isEmpty =
      (left.accepted && right.accepted) := issues_append _ _
  unfold Outcome.both
  simp only
  rw [joinIssues_of_plain hleft.2 hright.2]
  split
  · exact ⟨_, rfl, hv, hplain, haccepted⟩
  · obtain ⟨u, hu, hPu⟩ := hjoin _ _ hleft.1 hright.1
    rw [hu]
    exact ⟨_, rfl, hPu, hplain, haccepted⟩

theorem checkMembers_answers (hjoin : Joinable P) (hv : P v) {members : List TypeDescriptor}
    (h : ∀ t ∈ members, Answers P (t.check places {} v)) {sofar : Outcome}
    (hsofar : P sofar.value ∧ sofar.Plain) :
    Answers P (TypeDescriptor.checkMembers places sofar members v) ∧
      accepting (TypeDescriptor.checkMembers places sofar members v) =
        (sofar.accepted && members.all fun t => accepting (t.check places {} v)) := by
  induction members generalizing sofar with
  | nil =>
    unfold TypeDescriptor.checkMembers
    refine ⟨⟨sofar, rfl, hsofar⟩, ?_⟩
    rw [List.all_nil, Bool.and_true]
    rfl
  | cons t members ih =>
    obtain ⟨o, ho, hfacts⟩ := h t List.mem_cons_self
    obtain ⟨both, hboth, hvalue, hplain, haccepted⟩ := both_answers hjoin hv hsofar hfacts
    obtain ⟨hanswers, haccepting⟩ := ih (fun t ht => h t (List.mem_cons_of_mem _ ht))
      ⟨hvalue, hplain⟩
    have hcheck : TypeDescriptor.checkMembers places sofar (t :: members) v =
        TypeDescriptor.checkMembers places both members v := by
      rw [TypeDescriptor.checkMembers, ho]
      simp only [bind, Except.bind]
      rw [hboth]
    rw [hcheck, haccepting, haccepted, List.all_cons, ho, Bool.and_assoc]
    exact ⟨hanswers, rfl⟩

/-- An intersection answers, and accepts exactly when all of its members do. -/
theorem intersection_answers (hjoin : Joinable P) (hv : P v) {members : List TypeDescriptor}
    (h : ∀ t ∈ members, Answers P (t.check places {} v)) :
    Answers P ((TypeDescriptor.intersection members).check places limits v) ∧
      accepting ((TypeDescriptor.intersection members).check places limits v) =
        members.all fun t => accepting (t.check places {} v) := by
  cases members with
  | nil =>
    unfold TypeDescriptor.check
    exact ⟨⟨_, rfl, hv, plain_accept v⟩, rfl⟩
  | cons first rest =>
    obtain ⟨o, ho, hfacts⟩ := h first List.mem_cons_self
    have hcheck : (TypeDescriptor.intersection (first :: rest)).check places limits v =
        TypeDescriptor.checkMembers places o rest v := by
      rw [TypeDescriptor.check, ho]
      rfl
    rw [hcheck, List.all_cons, ho]
    exact checkMembers_answers hjoin hv (fun t ht => h t (List.mem_cons_of_mem _ ht)) hfacts

/-! ## Lists -/

theorem accepting_eq_of_forall₂ {α : Type _} {check : α → Except Clash Outcome} {xs : List α}
    {outcomes : List Outcome} (h : List.Forall₂ (fun x o => check x = .ok o) xs outcomes) :
    (outcomes.all fun o => o.accepted) = xs.all fun x => accepting (check x) := by
  induction h with
  | nil => rfl
  | cons hhead _ ih =>
    rw [List.all_cons, List.all_cons, ih, hhead]
    rfl

theorem itemIssues_isEmpty (outcomes : List Outcome) (first : Nat) :
    ((outcomes.zipIdx first).flatMap fun (o, i) =>
      o.issues.map (Issue.under (.index i))).isEmpty = outcomes.all fun o => o.accepted := by
  induction outcomes generalizing first with
  | nil => rfl
  | cons o outcomes ih =>
    rw [List.zipIdx_cons, List.flatMap_cons, issues_append, ih, List.all_cons, List.isEmpty_map]
    rfl

/-- A list all of whose items answer is checked item by item, and accepted exactly when all items
are. -/
theorem listOf_answers {type : TypeDescriptor} {origin : Origin} {items : List Value}
    (h : ∀ item ∈ items, ∃ o, type.check places {} item = .ok o) :
    ∃ o outcomes, (TypeDescriptor.listOf type).check places limits (.arr origin items) = .ok o ∧
      o.value = .arr .made (outcomes.map Outcome.value) ∧ o.Plain ∧
      List.Forall₂ (fun item outcome => type.check places {} item = .ok outcome) items outcomes ∧
      o.accepted = items.all fun item => accepting (type.check places {} item) := by
  obtain ⟨outcomes, houtcomes⟩ := mapM_total h
  have hall := mapM_ok_iff.mp houtcomes
  have hcheck : (TypeDescriptor.listOf type).check places limits (.arr origin items) =
      .ok ⟨.arr .made (outcomes.map Outcome.value),
        outcomes.zipIdx.flatMap fun (o, i) => o.issues.map (.under (.index i)), false⟩ := by
    rw [TypeDescriptor.check, houtcomes]
    rfl
  refine ⟨_, outcomes, hcheck, rfl, ?_, hall, ?_⟩
  · intro issue hissue
    obtain ⟨⟨o, i⟩, -, hmem⟩ := List.mem_flatMap.mp hissue
    obtain ⟨inner, -, rfl⟩ := List.mem_map.mp hmem
    rfl
  · rw [← accepting_eq_of_forall₂ hall]
    exact itemIssues_isEmpty outcomes 0

end JsonModel
