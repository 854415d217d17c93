-- Limits that are published and read back. Every number and every text that keeps the limits of a field
-- keeps those that are read back from its outline.
import JsonModel.Outline.Document
import JsonModel.Proofs.Check.Clean
import JsonModel.Proofs.Compile.Inline
import JsonModel.Proofs.Json.Read
import JsonModel.Proofs.Json.Reread
import JsonModel.Proofs.Number.Order

namespace JsonModel

/-! ## The safe range -/

theorem safeRange_eq_nil {n : Number} : safeRangeFaults n = [] ↔
    Number.maxSafe.lt n = false ∧ n.lt .minSafe = false := by
  unfold safeRangeFaults
  split
  · simp [*]
  · split
    · simp [*]
    · simp [*]

/-- A whole number in the safe range keeps the bounds of that range. -/
theorem safeRange_bounds {n : Number} (hfinite : n.isFinite = true) (h : safeRangeFaults n = []) :
    Number.minSafe.le n = true ∧ n.le .maxSafe = true := by
  obtain ⟨habove, hbelow⟩ := safeRange_eq_nil.mp h
  have hn : n ≠ .nan := by
    rintro rfl
    simp [Number.isFinite] at hfinite
  have hmax : Number.maxSafe ≠ .nan := by
    unfold Number.maxSafe Number.ofNat Number.ofFraction
    exact Number.ofUnits_ne_nan _ _
  have hmin : Number.minSafe ≠ .nan := by
    unfold Number.minSafe
    cases hsafe : Number.maxSafe with
    | nan => exact absurd hsafe hmax
    | _ => simp [Number.neg]
  exact ⟨Number.le_of_not_lt hn hmin hbelow, Number.le_of_not_lt hmax hn habove⟩

/-! ## Steps that are read back -/

theorem isMultipleOf_abs (n step : Number) : n.isMultipleOf step.abs = n.isMultipleOf step := by
  cases n with
  | finite negative size => cases step <;> rfl
  | _ => cases step <;> rfl

theorem same_zero_of_abs {n : Number} (h : n.abs.same .zero = true) : n.same .zero = true := by
  cases n with
  | finite negative size =>
    have hzero := Number.position_of_same h
    rw [position_zero] at hzero
    simp only [Number.abs, Number.position, Bool.false_eq_true, if_false, Option.some.injEq] at hzero
    unfold Number.same
    rw [position_zero]
    simp [Number.position, hzero]
  | infinite negative =>
    have hzero := Number.position_of_same h
    rw [position_zero] at hzero
    have hpos := unitLimit_pos
    simp only [Number.abs, Number.position, Bool.false_eq_true, if_false, Option.some.injEq] at hzero
    omega
  | nan => exact h

/-- A step that counts is read back as it was written. -/
theorem reread_abs {n m : Number} (hn : n.same .zero = false) (h : n.abs.reread? = some m) :
    m = n.abs := by
  rcases Number.reread?_eq_some h with hm | ⟨hzero, -⟩
  · exact hm
  · rw [same_zero_of_abs hzero] at hn
    simp at hn

/-! ## Limits that are read back -/

theorem raised_eq_some {bound other : Option Number} {b : Number} (h : raised bound other = some b) :
    bound = some b ∨ other = some b := by
  unfold raised at h
  split at h
  · split at h
    · exact .inr h
    · exact .inl h
  · exact .inl h

theorem lowered_eq_some {bound other : Option Number} {b : Number}
    (h : lowered bound other = some b) : bound = some b ∨ other = some b := by
  unfold lowered at h
  split at h
  · split at h
    · exact .inr h
    · exact .inl h
  · exact .inl h

theorem numberAt_append {ms ns : Members Json} {keyword : String} {b : Number}
    (h : numberAt (ms ++ ns) keyword = some b) :
    numberAt ms keyword = some b ∨ numberAt ns keyword = some b := by
  unfold numberAt at h ⊢
  rw [Members.get?_append] at h
  cases hms : Members.get? keyword ms with
  | none =>
    rw [hms] at h
    exact .inr h
  | some value =>
    rw [hms] at h
    exact .inl h

theorem numberAt_singleton {name keyword : String} {value b : Number}
    (h : numberAt [(name, .num value)] keyword = some b) : keyword = name ∧ value = b := by
  unfold numberAt at h
  rw [Members.get?_cons] at h
  split at h
  · rename_i hname
    exact ⟨hname, by simpa [Json.num?] using h⟩
  · simp at h

theorem numberAt_optional {name keyword : String} {bound : Option Number} {b : Number}
    (h : numberAt (optionalMember name (bound.map .num)) keyword = some b) :
    keyword = name ∧ bound = some b := by
  cases bound with
  | none => simp [optionalMember, numberAt] at h
  | some value =>
    obtain ⟨hname, rfl⟩ := numberAt_singleton h
    exact ⟨hname, rfl⟩

theorem numberAt_boundOutline {name strictName keyword : String} {bound strict : Option Number}
    {tighter : Number → Number → Bool} {b : Number}
    (h : numberAt (boundOutline name strictName bound strict tighter) keyword = some b) :
    keyword = name ∧ bound = some b ∨ keyword = strictName ∧ strict = some b := by
  unfold boundOutline at h
  split at h
  · split at h
    · obtain ⟨hname, rfl⟩ := numberAt_singleton h
      exact .inr ⟨hname, rfl⟩
    · obtain ⟨hname, rfl⟩ := numberAt_singleton h
      exact .inl ⟨hname, rfl⟩
  · obtain ⟨hname, rfl⟩ := numberAt_singleton h
    exact .inr ⟨hname, rfl⟩
  · exact .inl (numberAt_optional h)

theorem numberAt_stepOutline {keyword : String} {step : Option Number} {b : Number}
    (h : numberAt (stepOutline step) keyword = some b) :
    keyword = "multipleOf" ∧ ∃ n, step = some n ∧ n.same .zero = false ∧ b = n.abs := by
  unfold stepOutline at h
  split at h
  · rename_i n
    split at h
    · rename_i hstep
      simp only [Bool.and_eq_true, Bool.not_eq_true'] at hstep
      obtain ⟨hname, rfl⟩ := numberAt_singleton h
      exact ⟨hname, n, rfl, hstep.2, rfl⟩
    · simp [numberAt] at h
  · simp [numberAt] at h

theorem numberAt_typeOutline (name keyword : String) :
    numberAt (typeOutline name) keyword = none := by
  unfold numberAt typeOutline
  rw [Members.get?_cons]
  split <;> rfl

/-- What stands under each keyword of a bounded number. -/
theorem numberAt_numberOutline {name keyword : String} {limits : Limits} {least most : Option Number}
    {b : Number} (h : numberAt (typeOutline name ++ limits.numberOutline least most) keyword = some b) :
    keyword = "minimum" ∧ raised least limits.atLeast = some b ∨
      keyword = "exclusiveMinimum" ∧ raised none limits.above = some b ∨
      keyword = "maximum" ∧ lowered most limits.atMost = some b ∨
      keyword = "exclusiveMaximum" ∧ lowered none limits.below = some b ∨
      keyword = "multipleOf" ∧
        ∃ n, limits.multipleOf = some n ∧ n.same .zero = false ∧ b = n.abs := by
  rcases numberAt_append h with h | h
  · rw [numberAt_typeOutline] at h
    simp at h
  · unfold Limits.numberOutline at h
    rcases numberAt_append h with h | h
    · rcases numberAt_append h with h | h
      · rcases numberAt_boundOutline h with h | h
        · exact .inl h
        · exact .inr (.inl h)
      · rcases numberAt_boundOutline h with h | h
        · exact .inr (.inr (.inl h))
        · exact .inr (.inr (.inr (.inl h)))
    · exact .inr (.inr (.inr (.inr (numberAt_stepOutline h))))

/-- The bounds that are read back are kept by every number that keeps the old ones. -/
theorem bounds_reread {name : String} {limits : Limits} {least most : Option Number} {n : Number}
    (h : limits.Bounds n) (hleast : ∀ b, least = some b → b.le n = true)
    (hmost : ∀ b, most = some b → n.le b = true) :
    (numberLimits (Json.rereadMembers
      (typeOutline name ++ limits.numberOutline least most))).Bounds n := by
  have hread : ∀ {keyword : String} {b : Number},
      numberAt (Json.rereadMembers (typeOutline name ++ limits.numberOutline least most)) keyword =
        some b → ∃ b', numberAt (typeOutline name ++ limits.numberOutline least most) keyword =
          some b' ∧ b'.reread? = some b := by
    intro keyword b hb
    rw [numberAt_reread] at hb
    exact Option.bind_eq_some_iff.mp hb
  refine ⟨fun b hb => ?_, fun b hb => ?_, fun b hb => ?_, fun b hb => ?_, fun b hb => ?_⟩
  all_goals
    obtain ⟨b', hfound, hb'⟩ := hread hb
    have hplace := Number.position_reread hb'
    have hcases := numberAt_numberOutline hfound
    simp only [String.reduceEq, false_and, true_and, or_false, false_or] at hcases
  · rw [Number.le_congr_left hplace]
    rcases raised_eq_some hcases with hb | hb
    · exact hleast b' hb
    · exact h.atLeast b' hb
  · rw [Number.lt_congr_left hplace]
    exact h.above b' ((raised_eq_some hcases).resolve_left (by simp))
  · rw [Number.le_congr_right hplace]
    rcases lowered_eq_some hcases with hb | hb
    · exact hmost b' hb
    · exact h.atMost b' hb
  · rw [Number.lt_congr_right hplace]
    exact h.below b' ((lowered_eq_some hcases).resolve_left (by simp))
  · obtain ⟨step, hstep, hzero, rfl⟩ := hcases
    rw [reread_abs hzero hb', isMultipleOf_abs]
    exact h.multipleOf step hstep

/-- The bounds on lengths that are read back stand where some bounds stood before. -/
theorem lengths_reread {node : Members Json} {limits : Limits} {s : String} (h : limits.Lengths s)
    (hmin : ∀ b, numberAt node "minLength" = some b → limits.minLength = some b)
    (hmax : ∀ b, numberAt node "maxLength" = some b → limits.maxLength = some b) :
    (lengthLimits (Json.rereadMembers node)).Lengths s := by
  refine ⟨fun b hb => ?_, fun b hb => ?_⟩
  all_goals
    simp only [lengthLimits] at hb
    rw [numberAt_reread] at hb
    obtain ⟨b', hfound, hb'⟩ := Option.bind_eq_some_iff.mp hb
    have hplace := Number.position_reread hb'
  · rw [Number.le_congr_left hplace]
    exact h.minLength b' (hmin b' hfound)
  · rw [Number.le_congr_right hplace]
    exact h.maxLength b' (hmax b' hfound)

theorem numberAt_lengthOutline {keyword : String} {limits : Limits} {b : Number}
    (h : numberAt (typeOutline "string" ++ limits.lengthOutline) keyword = some b) :
    keyword = "minLength" ∧ limits.minLength = some b ∨
      keyword = "maxLength" ∧ limits.maxLength = some b := by
  rcases numberAt_append h with h | h
  · rw [numberAt_typeOutline] at h
    simp at h
  · unfold Limits.lengthOutline at h
    rcases numberAt_append h with h | h
    · obtain ⟨hname, hb⟩ := numberAt_optional h
      exact .inl ⟨hname, (raised_eq_some hb).resolve_left (by simp)⟩
    · obtain ⟨hname, hb⟩ := numberAt_optional h
      exact .inr ⟨hname, (lowered_eq_some hb).resolve_left (by simp)⟩

/-! ## Keywords of outlines without parts -/

/-- The keywords that limits are published under. -/
def limitKeywords : List String :=
  ["minimum", "exclusiveMinimum", "maximum", "exclusiveMaximum", "multipleOf", "minLength",
    "maxLength"]

theorem names_optional (name : String) (value : Option Json) :
    Members.names (optionalMember name value) ⊆ [name] := by
  cases value with
  | none => exact List.nil_subset _
  | some value => exact List.Subset.refl _

theorem names_boundOutline (name strictName : String) (bound strict : Option Number)
    (tighter : Number → Number → Bool) :
    Members.names (boundOutline name strictName bound strict tighter) ⊆ [name, strictName] := by
  unfold boundOutline
  split
  · split <;> simp [Members.names]
  · simp [Members.names]
  · exact List.Subset.trans (names_optional _ _) (by simp)

theorem names_stepOutline (step : Option Number) :
    Members.names (stepOutline step) ⊆ ["multipleOf"] := by
  unfold stepOutline
  split
  · split <;> simp [Members.names]
  · simp [Members.names]

theorem names_append {α : Type _} {ms ns : Members α} {ks : List String}
    (hms : Members.names ms ⊆ ks) (hns : Members.names ns ⊆ ks) : Members.names (ms ++ ns) ⊆ ks := by
  unfold Members.names at *
  rw [List.map_append]
  exact List.append_subset.mpr ⟨hms, hns⟩

theorem names_numberOutline (limits : Limits) (least most : Option Number) :
    Members.names (limits.numberOutline least most) ⊆ limitKeywords := by
  unfold Limits.numberOutline
  refine names_append (names_append ?_ ?_) ?_
  · exact List.Subset.trans (names_boundOutline _ _ _ _ _) (by decide)
  · exact List.Subset.trans (names_boundOutline _ _ _ _ _) (by decide)
  · exact List.Subset.trans (names_stepOutline _) (by decide)

theorem names_lengthOutline (limits : Limits) :
    Members.names limits.lengthOutline ⊆ limitKeywords := by
  unfold Limits.lengthOutline
  refine names_append ?_ ?_
  · exact List.Subset.trans (names_optional _ _) (by decide)
  · exact List.Subset.trans (names_optional _ _) (by decide)

/-- A primitive type is published by its type name and its limits. -/
theorem names_primitive (kind : Primitive) (limits : Limits) :
    Members.names (kind.outline limits) ⊆ "type" :: limitKeywords := by
  have htyped : ∀ {name : String} {ms : Outline}, Members.names ms ⊆ limitKeywords →
      Members.names (typeOutline name ++ ms) ⊆ "type" :: limitKeywords :=
    fun hms => List.cons_subset_cons _ hms
  cases kind with
  | string => exact htyped (names_lengthOutline limits)
  | integer | number => exact htyped (names_numberOutline limits _ _)
  | boolean | null | any => simp [Primitive.outline, typeOutline, Members.names]

theorem get?_of_names {α : Type _} {ms : Members α} {ks : List String} {k : String}
    (h : Members.names ms ⊆ ks) (hk : k ∉ ks) : Members.get? k ms = none :=
  Members.get?_eq_none_iff.mpr fun hmem => hk (h hmem)

end JsonModel
