-- Types that are made to accept null. No answers to null clash, and no type gives anything else for it,
-- so that what accepts null too gives what the type gives, and null for null.
import JsonModel.Proofs.Check.Optional
import JsonModel.Proofs.Check.Looser

namespace JsonModel

variable {places : Places} {limits : Limits} {t : TypeDescriptor} {v out : Value}

/-! ## Types that have null -/

/-- A type that has null stays as it is when it is to accept null. -/
theorem nullable_of_hasNull (h : t.HasNull) : t.nullable = t := by
  rcases h with rfl | ⟨ts, rfl, hmem⟩
  · rfl
  · unfold TypeDescriptor.nullable
    simp only
    rw [if_pos (List.any_eq_true.mpr ⟨_, hmem, rfl⟩)]

/-- Accepting null makes a type that has null, unless it stays as it is because it has it. -/
theorem nullable_eq (t : TypeDescriptor) :
    (t.HasNull ∧ t.nullable = t) ∨ (∃ ts, t = .union ts ∧
      t.nullable = .union (ts ++ [.primitive .null])) ∨
      t.nullable = .union [t, .primitive .null] := by
  have hnull := hasNull_nullable t
  unfold TypeDescriptor.nullable at hnull ⊢
  split
  · exact .inl ⟨.inl rfl, rfl⟩
  · rename_i ts
    simp only at hnull
    split
    · rename_i hany
      rw [if_pos hany] at hnull
      exact .inl ⟨hnull, rfl⟩
    · exact .inr (.inl ⟨ts, rfl, rfl⟩)
  · exact .inr (.inr rfl)

/-! ## Answers to null -/

theorem members_total {sofar : Outcome} {ts : List TypeDescriptor} (hv : v.isNullish = true)
    (h : ∀ t ∈ ts, ∃ o, t.check places {} v = .ok o) (hsofar : sofar.Flat v) :
    ∃ o, TypeDescriptor.checkMembers places sofar ts v = .ok o := by
  induction ts generalizing sofar with
  | nil => exact ⟨sofar, rfl⟩
  | cons t ts ih =>
    obtain ⟨right, hright⟩ := h t List.mem_cons_self
    have hflat := flat_check hv t {} right hright
    have hboth : ∃ both, sofar.both v right = .ok both := by
      unfold Outcome.both
      simp only [hsofar.value_eq, hflat.value_eq, join_nullish hv]
      split <;> exact ⟨_, rfl⟩
    obtain ⟨both, hboth⟩ := hboth
    unfold TypeDescriptor.checkMembers
    rw [hright]
    simp only [bind, Except.bind, hboth]
    exact ih (fun u hu => h u (List.mem_cons_of_mem _ hu)) (flat_both hv hsofar hflat hboth)

/-- No two answers to null, or to an undefined value, clash. -/
theorem check_nullish_total (hv : v.isNullish = true) (t : TypeDescriptor) :
    ∀ limits, ∃ o, t.check places limits v = .ok o := by
  induction t using TypeDescriptor.induction with
  | primitive | semantic => exact fun _ => ⟨_, rfl⟩
  | mapping | anyList | listOf =>
    rcases eq_of_isNullish hv with rfl | rfl <;> exact fun _ => ⟨_, rfl⟩
  | union ts ih => exact fun limits => union_total fun t ht => ih t ht limits
  | intersection ts ih =>
    intro limits
    cases ts with
    | nil => exact ⟨_, rfl⟩
    | cons first rest =>
      obtain ⟨o, ho⟩ := ih first List.mem_cons_self {}
      unfold TypeDescriptor.check
      rw [ho]
      exact members_total hv (fun t ht => ih t (List.mem_cons_of_mem _ ht) {})
        (flat_check hv first {} o ho)
  | composite d =>
    obtain ⟨_, _, _, _⟩ := d
    rcases eq_of_isNullish hv with rfl | rfl <;> exact fun _ => ⟨_, rfl⟩

/-- A type that has null gives null for null. -/
theorem output?_of_hasNull (ht : t.HasNull) :
    t.output? places limits .null = .ok (some .null) := by
  obtain ⟨o, ho⟩ := @check_nullish_total places .null rfl t limits
  obtain ⟨hclean, hvalue⟩ := check_null ht ho
  have houtput : o.output? = some .null := by
    unfold Outcome.output? Outcome.accepted
    rw [if_pos (List.isEmpty_iff.mpr hclean), hvalue]
  rw [output?_eq, ho]
  exact congrArg Except.ok houtput

/-! ## Accepting null -/

/-- What accepts null too gives what the type gives, and null for a null that it does not accept. -/
theorem output?_nullable : t.nullable.output? places limits v =
    (t.output? places limits v).map fun given => given.or v.ifNull := by
  rcases nullable_eq t with ⟨hnull, heq⟩ | ⟨ts, rfl, heq⟩ | heq
  · rw [heq]
    cases hgiven : t.output? places limits v with
    | error clash => rfl
    | ok given =>
      cases given with
      | some out => rfl
      | none =>
        cases v with
        | null =>
          rw [output?_of_hasNull hnull] at hgiven
          simp at hgiven
        | _ => rfl
  · rw [heq, output?_union_null]
  · rw [heq, output?_pair_null]

/-- How a type that accepts null too compares with the type itself. -/
structure TypeDescriptor.GainsNull (places : Places) (limits : Limits) (t : TypeDescriptor) :
    Prop where
  /-- Accepting null twice is accepting it once. -/
  once : t.nullable.nullable = t.nullable
  /-- It takes null, and what the type takes. -/
  takes_iff : ∀ v, (∃ out, t.nullable.Gives places limits v out) ↔
    v = .null ∨ ∃ out, t.Gives places limits v out
  /-- It gives what the type gives. -/
  gives : ∀ v out, t.Gives places limits v out → t.nullable.Gives places limits v out
  /-- It gives null for null. -/
  null : t.nullable.Gives places limits .null .null
  /-- It clashes where the type clashes, and in the same way. -/
  clashes_iff : ∀ v clash, t.nullable.safeParse places limits v = .error clash ↔
    t.safeParse places limits v = .error clash

/-- A type that is made to accept null accepts null and what it accepted before, and what comes out
stays the same. -/
theorem a_type_that_is_made_nullable_gains_null (places : Places) (limits : Limits)
    (t : TypeDescriptor) : t.GainsNull places limits := by
  have hgives : ∀ v out, t.Gives places limits v out → t.nullable.Gives places limits v out := by
    intro v out h
    rw [← output?_eq_some] at h ⊢
    rw [output?_nullable, h]
    rfl
  have hnull : t.nullable.Gives places limits .null .null :=
    output?_eq_some.mp (output?_of_hasNull (hasNull_nullable t))
  refine ⟨nullable_of_hasNull (hasNull_nullable t), fun v => ⟨?_, ?_⟩, hgives, hnull,
    fun v clash => ?_⟩
  · rintro ⟨out, hout⟩
    rw [← output?_eq_some, output?_nullable] at hout
    obtain ⟨given, hgiven, hout⟩ := map_ok_iff.mp hout
    cases given with
    | some out => exact .inr ⟨out, output?_eq_some.mp hgiven⟩
    | none => exact .inl (ifNull_eq_some.mp hout).1
  · rintro (rfl | ⟨out, hout⟩)
    · exact ⟨.null, hnull⟩
    · exact ⟨out, hgives v out hout⟩
  · rw [← output?_eq_error, ← output?_eq_error, output?_nullable, map_error_iff]

end JsonModel
