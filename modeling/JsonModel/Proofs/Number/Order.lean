-- The order of numbers. Numbers stand at their counts of units, so that their order is that of whole
-- numbers, and NaN stands nowhere.
import JsonModel.Proofs.Number.Decimal

namespace JsonModel.Number

variable {a b c n : Number}

/-! ## Numbers in order -/

theorem le_iff : a.le b = true ↔ ∃ x y, a.position = some x ∧ b.position = some y ∧ x ≤ y := by
  unfold le
  cases a.position <;> cases b.position <;> simp

theorem lt_iff : a.lt b = true ↔ ∃ x y, a.position = some x ∧ b.position = some y ∧ x < y := by
  unfold lt
  cases a.position <;> cases b.position <;> simp

theorem le_trans (hab : a.le b = true) (hbc : b.le c = true) : a.le c = true := by
  obtain ⟨x, y, hx, hy, hxy⟩ := le_iff.mp hab
  obtain ⟨y', z, hy', hz, hyz⟩ := le_iff.mp hbc
  obtain rfl := Option.some.inj (hy.symm.trans hy')
  exact le_iff.mpr ⟨x, z, hx, hz, Int.le_trans hxy hyz⟩

theorem lt_of_le_of_lt (hab : a.le b = true) (hbc : b.lt c = true) : a.lt c = true := by
  obtain ⟨x, y, hx, hy, hxy⟩ := le_iff.mp hab
  obtain ⟨y', z, hy', hz, hyz⟩ := lt_iff.mp hbc
  obtain rfl := Option.some.inj (hy.symm.trans hy')
  exact lt_iff.mpr ⟨x, z, hx, hz, Int.lt_of_le_of_lt hxy hyz⟩

theorem lt_of_lt_of_le (hab : a.lt b = true) (hbc : b.le c = true) : a.lt c = true := by
  obtain ⟨x, y, hx, hy, hxy⟩ := lt_iff.mp hab
  obtain ⟨y', z, hy', hz, hyz⟩ := le_iff.mp hbc
  obtain rfl := Option.some.inj (hy.symm.trans hy')
  exact lt_iff.mpr ⟨x, z, hx, hz, Int.lt_of_lt_of_le hxy hyz⟩

theorem exists_position (h : n ≠ .nan) : ∃ x, n.position = some x := by
  cases n with
  | nan => exact absurd rfl h
  | _ => exact ⟨_, rfl⟩

theorem le_of_not_lt (ha : a ≠ .nan) (hb : b ≠ .nan) (h : a.lt b = false) : b.le a = true := by
  obtain ⟨x, hx⟩ := exists_position ha
  obtain ⟨y, hy⟩ := exists_position hb
  have hnot : ¬ x < y := fun hlt => by
    rw [lt_iff.mpr ⟨x, y, hx, hy, hlt⟩] at h
    simp at h
  exact le_iff.mpr ⟨y, x, hy, hx, by omega⟩

/-! ## Whole numbers -/

/-- A whole number stands at as many units as it has ones. -/
theorem position_of_toInt? {k : Int} (h : n.toInt? = some k) :
    n.position = some (k * unitsPerOne) := by
  cases n with
  | finite negative size =>
    simp only [toInt?] at h
    by_cases hwhole : size.units % unitsPerOne = 0
    · have hunits : ((size.units / unitsPerOne : Nat) : Int) * unitsPerOne = size.units := by
        rw [← Int.natCast_mul, Nat.div_mul_cancel (Nat.dvd_of_mod_eq_zero hwhole)]
      rw [if_pos hwhole] at h
      cases Option.some.inj h
      cases negative with
      | true => simp only [position, if_true, Int.neg_mul, hunits]
      | false => simp only [position, Bool.false_eq_true, if_false, hunits]
    · rw [if_neg hwhole] at h
      simp at h
  | infinite => simp [toInt?] at h
  | nan => simp [toInt?] at h

theorem isWhole_iff : n.isWhole = true ↔ ∃ k, n.toInt? = some k := by
  cases n with
  | finite negative size =>
    unfold isWhole toInt?
    simp only [beq_iff_eq]
    split
    · rename_i hwhole
      exact ⟨fun _ => ⟨_, rfl⟩, fun _ => hwhole⟩
    · rename_i hnot
      simp only [reduceCtorEq, exists_false, hnot]
  | infinite | nan => simp only [isWhole, toInt?, reduceCtorEq, exists_false, Bool.false_eq_true]

theorem position_maxSafe : maxSafe.position = some (9007199254740991 * (unitsPerOne : Int)) := by
  decide +kernel

theorem position_minSafe : minSafe.position = some (-9007199254740991 * (unitsPerOne : Int)) := by
  decide +kernel

/-- A whole number is above the safe range if it is above 9007199254740991. -/
theorem maxSafe_lt_iff {k : Int} (h : n.toInt? = some k) :
    maxSafe.lt n = true ↔ 9007199254740991 < k := by
  have hpos : (0 : Int) < unitsPerOne := Int.natCast_pos.mpr unitsPerOne_pos
  rw [lt_iff, position_maxSafe, position_of_toInt? h]
  simp only [Option.some.injEq, exists_and_left, exists_eq_left']
  exact Int.mul_lt_mul_right hpos

/-- A whole number is below the safe range if it is below -9007199254740991. -/
theorem lt_minSafe_iff {k : Int} (h : n.toInt? = some k) :
    n.lt minSafe = true ↔ k < -9007199254740991 := by
  have hpos : (0 : Int) < unitsPerOne := Int.natCast_pos.mpr unitsPerOne_pos
  rw [lt_iff, position_minSafe, position_of_toInt? h]
  simp only [Option.some.injEq, exists_and_left, exists_eq_left']
  exact Int.mul_lt_mul_right hpos

end JsonModel.Number
