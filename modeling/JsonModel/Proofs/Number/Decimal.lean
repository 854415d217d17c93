-- Rounding, and decimals that are read. Which number is nearest depends on the quotient alone, so a
-- zero at the end of the digits may go into the exponent. What is written reads back.
import JsonModel.Number.Decimal

namespace JsonModel

/-! ## Powers and units -/

theorem two_pow_pos (n : Nat) : 0 < Nat.pow 2 n := Nat.pow_pos (by decide)

theorem ten_pow_pos (n : Nat) : 0 < Nat.pow 10 n := Nat.pow_pos (by decide)

theorem ten_pow_succ (n : Nat) : Nat.pow 10 (n + 1) = Nat.pow 10 n * 10 := rfl

theorem two_pow_three_mul_le (n : Nat) : Nat.pow 2 (3 * n) ≤ Nat.pow 10 n := by
  have h : Nat.pow 2 (3 * n) = Nat.pow 8 n := Nat.pow_mul 2 3 n
  rw [h]
  exact Nat.pow_le_pow_left (by decide) n

theorem two_pow_le {m n : Nat} (h : m ≤ n) : Nat.pow 2 m ≤ Nat.pow 2 n :=
  Nat.pow_le_pow_right (by decide) h

theorem ten_pow_eq (n : Nat) : Nat.pow 10 n = Nat.pow 5 n * Nat.pow 2 n := Nat.mul_pow 5 2 n

theorem unitsPerOne_pos : 0 < unitsPerOne := by
  unfold unitsPerOne
  apply two_pow_pos

theorem two_pow_add_unit (n : Nat) : Nat.pow 2 (n + 1074) = Nat.pow 2 n * unitsPerOne := by
  unfold unitsPerOne
  generalize 1074 = k
  exact Nat.pow_add 2 n k

theorem unitLimit_pos : 0 < unitLimit := by
  unfold unitLimit
  apply two_pow_pos

theorem representable_zero : Representable 0 := ⟨unitLimit_pos, Nat.dvd_zero _⟩

theorem position_zero : Number.zero.position = some 0 := by
  unfold Number.zero Number.ofUnits
  rw [dif_pos representable_zero]
  rfl

theorem spacing_pos (units : Nat) : 0 < spacing units := two_pow_pos _

namespace Number

/-! ## Counts of units -/

theorem ofUnits_units (negative : Bool) (size : Magnitude) :
    ofUnits negative size.units = .finite negative size :=
  dif_pos size.representable

theorem units_of_ofUnits {negative sign : Bool} {units : Nat} {size : Magnitude}
    (h : ofUnits negative units = .finite sign size) : size.units = units := by
  unfold ofUnits at h
  split at h
  · cases h
    rfl
  · simp at h

/-! ## Quotients -/

theorem nearestEven_mul (k num den : Nat) (hk : 0 < k) :
    nearestEven (k * num) (k * den) = nearestEven num den := by
  have htwice : 2 * (k * num % (k * den)) = k * (2 * (num % den)) := by
    rw [Nat.mul_mod_mul_left, Nat.mul_left_comm]
  unfold nearestEven
  simp only [htwice, Nat.mul_div_mul_left _ _ hk, Nat.mul_lt_mul_left hk]

theorem nearestUnits_mul (k num den : Nat) (hk : 0 < k) :
    nearestUnits (k * num) (k * den) = nearestUnits num den := by
  unfold nearestUnits
  simp only [Nat.mul_div_mul_left _ _ hk, Nat.mul_assoc, nearestEven_mul _ _ _ hk]

/-- The number nearest a quotient depends on the quotient alone. -/
theorem ofFraction_mul (negative : Bool) (k num den : Nat) (hk : 0 < k) :
    ofFraction negative (k * num) (k * den) = ofFraction negative num den := by
  unfold ofFraction
  rw [nearestUnits_mul _ _ _ hk]

theorem div_le_nearestEven (num den : Nat) : num / den ≤ nearestEven num den := by
  unfold nearestEven
  simp only
  split
  · exact Nat.le_refl _
  · split
    · exact Nat.le_succ _
    · split
      · exact Nat.le_refl _
      · exact Nat.le_succ _

theorem nearestEven_of_small {num den : Nat} (h : 2 * num < den) : nearestEven num den = 0 := by
  have hlt : num < den := by omega
  unfold nearestEven
  simp only [Nat.mod_eq_of_lt hlt, Nat.div_eq_of_lt hlt, if_pos h]

theorem nearestEven_of_dvd {num den : Nat} (hden : 0 < den) (h : den ∣ num) :
    nearestEven num den = num / den := by
  unfold nearestEven
  simp only [Nat.mod_eq_zero_of_dvd h, Nat.mul_zero, if_pos hden]

/-- Less than half a unit is nearest to none. -/
theorem nearestUnits_of_small {num den : Nat} (h : 2 * num < den) : nearestUnits num den = 0 := by
  have hstep : spacing (num / den) = 1 := by
    rw [Nat.div_eq_of_lt (by omega)]
    rfl
  unfold nearestUnits
  simp only [hstep, Nat.mul_one, nearestEven_of_small h]

/-- A power of two that a quotient reaches is reached by the count that is nearest. -/
theorem pow_le_nearestUnits {k num den : Nat} (h : Nat.pow 2 k ≤ num / den) :
    Nat.pow 2 k ≤ nearestUnits num den := by
  have hpos : num / den ≠ 0 := by
    have := two_pow_pos k
    omega
  have hfirst : Nat.pow 2 (num / den).log2 ≤ num / den := Nat.log2_self_le hpos
  have hk : k ≤ (num / den).log2 := (Nat.le_log2 hpos).mpr h
  have hstep : spacing (num / den) ∣ Nat.pow 2 (num / den).log2 :=
    Nat.pow_dvd_pow 2 (Nat.sub_le _ _)
  unfold nearestUnits
  simp only
  calc Nat.pow 2 k
      ≤ Nat.pow 2 (num / den).log2 := two_pow_le hk
    _ = Nat.pow 2 (num / den).log2 / spacing (num / den) * spacing (num / den) :=
        (Nat.div_mul_cancel hstep).symm
    _ ≤ num / den / spacing (num / den) * spacing (num / den) :=
        Nat.mul_le_mul_right _ (Nat.div_le_div_right hfirst)
    _ ≤ _ := by
        rw [Nat.div_div_eq_div_mul]
        exact Nat.mul_le_mul_right _ (div_le_nearestEven _ _)

/-- A count that a number has is nearest to itself. -/
theorem nearestUnits_of_representable {units : Nat} (h : Representable units) :
    nearestUnits units 1 = units := by
  unfold nearestUnits
  simp only [Nat.div_one, Nat.one_mul]
  rw [nearestEven_of_dvd (spacing_pos units) h.2, Nat.div_mul_cancel h.2]

/-- From the limit on a count is infinite. -/
theorem ofFraction_of_large {negative : Bool} {num : Nat} (h : unitLimit ≤ num) :
    ofFraction negative num 1 = .infinite negative := by
  have hunits : unitLimit ≤ nearestUnits num 1 := by
    unfold unitLimit at h ⊢
    generalize 2098 = k at h ⊢
    exact pow_le_nearestUnits (Nat.le_trans h (Nat.le_of_eq (Nat.div_one num).symm))
  unfold ofFraction ofUnits
  rw [dif_neg fun hfinite => Nat.not_lt.mpr hunits hfinite.1]

theorem ofFraction_of_small {negative : Bool} {num den : Nat} (h : 2 * num < den) :
    ofFraction negative num den = ofUnits negative 0 := by
  unfold ofFraction
  rw [nearestUnits_of_small h]

/-! ## Decimals -/

theorem unitLimit_le_of_exponent {digits exponent : Nat} (hdigits : digits ≠ 0)
    (h : 400 < exponent) : unitLimit ≤ digits * Nat.pow 10 exponent * unitsPerOne := by
  have hlimit : unitLimit ≤ Nat.pow 2 (3 * exponent + 1074) := by
    unfold unitLimit
    apply two_pow_le
    omega
  calc unitLimit
      ≤ Nat.pow 2 (3 * exponent + 1074) := hlimit
    _ = Nat.pow 2 (3 * exponent) * unitsPerOne := two_pow_add_unit _
    _ ≤ Nat.pow 10 exponent * unitsPerOne := Nat.mul_le_mul_right _ (two_pow_three_mul_le _)
    _ ≤ _ := Nat.mul_le_mul_right _ (Nat.le_mul_of_pos_left _ (Nat.pos_of_ne_zero hdigits))

theorem units_lt_of_exponent {digits exponent : Nat} (h : 400 + digits.log2 < exponent) :
    2 * (digits * unitsPerOne) < Nat.pow 10 exponent :=
  calc 2 * (digits * unitsPerOne)
      < 2 * (Nat.pow 2 (digits.log2 + 1) * unitsPerOne) :=
        Nat.mul_lt_mul_of_pos_left
          (Nat.mul_lt_mul_of_pos_right Nat.lt_log2_self unitsPerOne_pos) (by decide)
    _ = Nat.pow 2 (digits.log2 + 1 + 1074 + 1) := by
        rw [Nat.mul_comm, ← two_pow_add_unit]
        rfl
    _ ≤ Nat.pow 2 (3 * exponent) := two_pow_le (by omega)
    _ ≤ _ := two_pow_three_mul_le _

/-- The tests in front of the reading cut off what comes out the same without them. -/
theorem ofDecimal_eq_ofFraction (negative : Bool) (d : Decimal) :
    ofDecimal negative d =
      ofFraction negative (d.digits * Nat.pow 10 d.exponent.toNat * unitsPerOne)
        (Nat.pow 10 (-d.exponent).toNat) := by
  unfold ofDecimal
  split
  · rename_i hzero
    have hden := ten_pow_pos (-d.exponent).toNat
    rw [hzero, ofFraction_of_small (by omega)]
  · rename_i hdigits
    split
    · rename_i hlarge
      have hden : (-d.exponent).toNat = 0 := by omega
      rw [hden]
      exact (ofFraction_of_large (unitLimit_le_of_exponent hdigits (by omega))).symm
    · split
      · rename_i hsmall
        have hnum : d.exponent.toNat = 0 := by omega
        rw [hnum]
        refine (ofFraction_of_small ?_).symm
        rw [show d.digits * Nat.pow 10 0 = d.digits from Nat.mul_one _]
        exact units_lt_of_exponent (by omega)
      · rfl

/-- A zero at the end of the digits counts as one more in the exponent. -/
theorem ofDecimal_shift (negative : Bool) (digits : Nat) (exponent : Int) :
    ofDecimal negative ⟨digits * 10, exponent⟩ = ofDecimal negative ⟨digits, exponent + 1⟩ := by
  rw [ofDecimal_eq_ofFraction, ofDecimal_eq_ofFraction]
  simp only
  by_cases h : 0 ≤ exponent
  · have hnum : (exponent + 1).toNat = exponent.toNat + 1 := by omega
    have hden : (-(exponent + 1)).toNat = (-exponent).toNat := by omega
    rw [hnum, hden, ten_pow_succ, Nat.mul_assoc digits, Nat.mul_comm 10]
  · have hnum : exponent.toNat = 0 := by omega
    have hnext : (exponent + 1).toNat = 0 := by omega
    have hden : (-exponent).toNat = (-(exponent + 1)).toNat + 1 := by omega
    rw [hnum, hnext, hden, ten_pow_succ, Nat.mul_comm digits, Nat.mul_comm _ 10,
      Nat.mul_assoc 10, Nat.mul_assoc 10, ofFraction_mul negative 10 _ _ (by decide)]

/-- Zeros at the end of the digits count as that many more in the exponent. -/
theorem ofDecimal_zeros (negative : Bool) (digits : Nat) (exponent : Int) (zeros : Nat) :
    ofDecimal negative ⟨digits * Nat.pow 10 zeros, exponent⟩ =
      ofDecimal negative ⟨digits, exponent + zeros⟩ := by
  induction zeros generalizing exponent with
  | zero => rw [Nat.pow_eq, Nat.pow_zero, Nat.mul_one, Int.natCast_zero, Int.add_zero]
  | succ zeros ih =>
    rw [ten_pow_succ, ← Nat.mul_assoc, ofDecimal_shift, ih]
    congr 2
    omega

theorem ofDecimal_trim (negative : Bool) (fuel : Nat) (d : Decimal) :
    ofDecimal negative (d.trim fuel) = ofDecimal negative d := by
  induction fuel generalizing d with
  | zero => rfl
  | succ fuel ih =>
    unfold Decimal.trim
    split
    · rename_i h
      rw [ih, ← ofDecimal_shift, Nat.div_mul_cancel (Nat.dvd_of_mod_eq_zero h.2)]
    · rfl

end Number

/-! ## What is written -/

namespace Magnitude

variable {size : Magnitude}

/-- A count of units comes back from all its digits. -/
theorem ofFraction_exact (units n : Nat) :
    Number.ofFraction false (units * Nat.pow 5 n * Nat.pow 10 0 * Nat.pow 2 n) (Nat.pow 10 n) =
      Number.ofFraction false units 1 := by
  have hone : Nat.pow 10 0 = 1 := rfl
  have hnum : units * Nat.pow 5 n * Nat.pow 10 0 * Nat.pow 2 n = Nat.pow 10 n * units := by
    rw [hone, Nat.mul_one, Nat.mul_assoc, ← ten_pow_eq, Nat.mul_comm]
  rw [hnum, ← Number.ofFraction_mul false (Nat.pow 10 n) units 1 (ten_pow_pos n), Nat.mul_one]

theorem exact_readsBack (size : Magnitude) : size.ReadsBack size.exact := by
  have hunits : Number.ofFraction false size.units 1 = .finite false size := by
    unfold Number.ofFraction
    rw [Number.nearestUnits_of_representable size.representable, Number.ofUnits_units]
  unfold ReadsBack
  rw [Number.ofDecimal_eq_ofFraction, ← hunits]
  have hnum : (-1074 : Int).toNat = 0 := rfl
  have hden : (-(-1074) : Int).toNat = 1074 := rfl
  unfold exact unitsPerOne
  simp only [hnum, hden]
  -- The powers stay as they are: they are too large to be computed in a proof.
  generalize 1074 = n
  exact ofFraction_exact size.units n

theorem shortest_readsBack (size : Magnitude) : size.ReadsBack size.shortest := by
  unfold shortest
  simp only
  cases hhit : (List.range 17).findSome? fun k =>
      (size.neighbours (size.leadingPlace - (k + 1 : Nat))).find? fun d =>
        decide (size.ReadsBack d) with
  | none => exact exact_readsBack size
  | some d =>
    obtain ⟨k, -, hk⟩ := List.exists_of_findSome?_eq_some hhit
    have hreads := List.find?_some hk
    exact of_decide_eq_true hreads

/-- What reads back without a sign does so with one. -/
theorem ReadsBack.signed {d : Decimal} (h : size.ReadsBack d) (negative : Bool) :
    Number.ofDecimal negative d = .finite negative size := by
  unfold ReadsBack at h
  rw [Number.ofDecimal_eq_ofFraction] at h ⊢
  unfold Number.ofFraction at h ⊢
  rw [← Number.units_of_ofUnits h, Number.ofUnits_units]

theorem ReadsBack.digits_ne_zero {d : Decimal} (h : size.ReadsBack d) (hsize : size.units ≠ 0) :
    d.digits ≠ 0 := by
  intro hzero
  unfold ReadsBack Number.ofDecimal at h
  rw [if_pos hzero] at h
  exact hsize (Number.units_of_ofUnits h)

theorem ReadsBack.trim {d : Decimal} (h : size.ReadsBack d) (fuel : Nat) :
    size.ReadsBack (d.trim fuel) :=
  (Number.ofDecimal_trim false fuel d).trans h

end Magnitude
end JsonModel
