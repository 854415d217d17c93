-- The text of a number is read as that number, however its digits are laid out and whatever follows
-- it, as long as no character of a number does.
import Mathlib.Data.List.TakeDrop
import JsonModel.Json.Printer
import JsonModel.Json.Reader
import JsonModel.Proofs.Json.Reread
import JsonModel.Proofs.Number.Decimal

namespace JsonModel

/-! ## Digits -/

theorem digitValue?_of_isDigit {c : Char} (h : c.isDigit = true) :
    digitValue? 10 c = some (c.toNat - '0'.toNat) := by
  rw [Char.isDigit_iff_toNat] at h
  have hzero : '0'.toNat = 48 := rfl
  have hnine : '9'.toNat = 57 := rfl
  have hc : '0' ≤ c ∧ c ≤ '9' := by
    simp only [Char.le_def, UInt32.le_iff_toNat_le]
    exact h
  unfold digitValue?
  simp only [if_pos hc]
  rw [if_pos (by omega)]

theorem isDecimalDigit_of_isDigit {c : Char} (h : c.isDigit = true) : isDecimalDigit c = true := by
  unfold isDecimalDigit isDigitOf
  rw [digitValue?_of_isDigit h]
  rfl

/-- A run of decimal digits. -/
def AllDigits (cs : List Char) : Prop := ∀ c ∈ cs, isDecimalDigit c = true

theorem allDigits_toDigits (n : Nat) : AllDigits (Nat.toDigits 10 n) := fun _ hc =>
  isDecimalDigit_of_isDigit (Nat.isDigit_of_mem_toDigits (by decide) (by decide) hc)

theorem allDigits_zeros (k : Nat) : AllDigits (List.replicate k '0') := by
  intro c hc
  rw [(List.mem_replicate.mp hc).2]
  rfl

theorem AllDigits.append {xs ys : List Char} (hxs : AllDigits xs) (hys : AllDigits ys) :
    AllDigits (xs ++ ys) := by
  intro c hc
  rcases List.mem_append.mp hc with hc | hc
  · exact hxs c hc
  · exact hys c hc

theorem AllDigits.take {cs : List Char} (h : AllDigits cs) (k : Nat) : AllDigits (cs.take k) :=
  fun c hc => h c (List.mem_of_mem_take hc)

theorem AllDigits.drop {cs : List Char} (h : AllDigits cs) (k : Nat) : AllDigits (cs.drop k) :=
  fun c hc => h c (List.mem_of_mem_drop hc)

theorem allDigits_singleton {c : Char} (h : isDecimalDigit c = true) : AllDigits [c] :=
  List.forall_mem_singleton.mpr h

theorem digitsValue_of_isDigit {cs : List Char} (h : ∀ c ∈ cs, c.isDigit = true) :
    digitsValue 10 cs = Nat.ofDigitChars 10 cs 0 := by
  rw [Nat.ofDigitChars_eq_foldl]
  unfold digitsValue
  refine List.foldl_ext _ _ 0 fun n c hc => ?_
  rw [digitValue?_of_isDigit (h c hc), Option.getD_some, Nat.mul_comm]

@[simp] theorem digitsValue_toDigits (n : Nat) : digitsValue 10 (Nat.toDigits 10 n) = n := by
  rw [digitsValue_of_isDigit fun c => Nat.isDigit_of_mem_toDigits (by decide) (by decide),
    Nat.ofDigitChars_ten_toDigits]

theorem digitsValue_append_zeros (cs : List Char) (k : Nat) :
    digitsValue 10 (cs ++ List.replicate k '0') = digitsValue 10 cs * Nat.pow 10 k := by
  induction k with
  | zero => rw [List.replicate_zero, List.append_nil]; exact (Nat.mul_one _).symm
  | succ k ih =>
    unfold digitsValue at ih ⊢
    rw [List.replicate_succ', ← List.append_assoc, List.foldl_append, ih, ten_pow_succ,
      ← Nat.mul_assoc]
    rfl

theorem digitsValue_zeros_append (k : Nat) (cs : List Char) :
    digitsValue 10 (List.replicate k '0' ++ cs) = digitsValue 10 cs := by
  induction k with
  | zero => rfl
  | succ k ih => exact ih

/-- A number that is not zero is written without leading zeros. -/
theorem head?_toDigits_ne_zero {n : Nat} (h : n ≠ 0) : (Nat.toDigits 10 n).head? ≠ some '0' := by
  induction n using Nat.strongRecOn with
  | ind n ih =>
    by_cases hn : n < 10
    · rw [Nat.toDigits_of_lt_base hn, List.head?_cons, ne_eq, Option.some.injEq]
      intro hzero
      have := congrArg Char.toNat hzero
      rw [Nat.toNat_digitChar_of_lt_ten hn] at this
      have : '0'.toNat = 48 := rfl
      omega
    · rw [Nat.toDigits_of_base_le (by decide) (Nat.not_lt.mp hn),
        List.head?_append_of_ne_nil _ Nat.toDigits_ne_nil]
      exact ih (n / 10) (by omega) (by omega)

namespace Json

/-! ## Parts of a number -/

/-- No number goes on into this text. -/
def EndsNumber (rest : List Char) : Prop :=
  ∀ c, rest.head? = some c → isDecimalDigit c = false ∧ c ≠ '.' ∧ c ≠ 'e' ∧ c ≠ 'E'

/-- No run of digits goes on into this text. -/
def EndsDigits (rest : List Char) : Prop := ∀ c, rest.head? = some c → isDecimalDigit c = false

theorem EndsNumber.digits {rest : List Char} (h : EndsNumber rest) : EndsDigits rest :=
  fun c hc => (h c hc).1

theorem EndsNumber.point {rest : List Char} (h : EndsNumber rest) : rest.head? ≠ some '.' :=
  fun hc => (h _ hc).2.1 rfl

theorem endsDigits_cons {c : Char} {rest : List Char} (h : isDecimalDigit c = false) :
    EndsDigits (c :: rest) := by
  intro d hd
  cases hd
  exact h

variable {ds cs rest : List Char}

theorem span_digits (hds : AllDigits ds) (hrest : EndsDigits rest) :
    (ds ++ rest).span isDecimalDigit = (ds, rest) := by
  rw [List.span_eq_takeWhile_dropWhile, List.takeWhile_append_of_pos hds,
    List.dropWhile_append_of_pos hds]
  cases rest with
  | nil => simp
  | cons c rest =>
    have hc := hrest c rfl
    simp [hc]

/-- Digits without leading zeros are the whole part. -/
theorem readWhole_digits (hds : AllDigits ds)
    (hfirst : ds = ['0'] ∨ ds.head? ≠ some '0') (hrest : EndsDigits rest) :
    readWhole (ds ++ rest) = .ok (ds, rest) := by
  unfold readWhole
  rw [span_digits hds hrest]
  simp only
  split
  · rcases hfirst with hfirst | hfirst
    · simp at hfirst
    · simp at hfirst
  · rfl

theorem readFraction_point (hds : AllDigits ds) (hne : ds ≠ [])
    (hrest : EndsDigits rest) : readFraction ('.' :: (ds ++ rest)) = .ok (ds, rest) := by
  cases ds with
  | nil => exact absurd rfl hne
  | cons d ds =>
    unfold readFraction
    simp only [span_digits hds hrest]

theorem readFraction_none (h : rest.head? ≠ some '.') : readFraction rest = .ok ([], rest) := by
  unfold readFraction
  split
  · exact absurd rfl h
  · rfl

theorem readExponentDigits_toDigits (negative : Bool) (n : Nat) (hrest : EndsDigits rest) :
    readExponentDigits negative (Nat.toDigits 10 n ++ rest) =
      .ok (if negative then -n else n, rest) := by
  unfold readExponentDigits
  rw [span_digits (allDigits_toDigits n) hrest]
  split
  · rename_i heq
    simp [Nat.toDigits_ne_nil] at heq
  · rename_i heq
    cases heq
    simp

/-- An exponent is read with its sign. -/
theorem readExponent_exponent (e : Int) (hrest : EndsDigits rest) :
    readExponent (numberLayout.exponent e ++ rest) = .ok (e, rest) := by
  unfold NumberLayout.exponent
  by_cases he : e < 0
  · have hvalue : -(e.natAbs : Int) = e := by omega
    rw [if_pos he]
    show readExponentDigits true (Nat.toDigits 10 e.natAbs ++ rest) = _
    rw [readExponentDigits_toDigits true _ hrest, if_pos rfl, hvalue]
  · have hvalue : (e.natAbs : Int) = e := by omega
    rw [if_neg he]
    show readExponentDigits false (Nat.toDigits 10 e.natAbs ++ rest) = _
    rw [readExponentDigits_toDigits false _ hrest, if_neg Bool.false_ne_true, hvalue]

theorem endsDigits_exponent (e : Int) (rest : List Char) :
    EndsDigits (numberLayout.exponent e ++ rest) :=
  endsDigits_cons rfl

theorem exponent_without_point (e : Int) (rest : List Char) :
    (numberLayout.exponent e ++ rest).head? ≠ some '.' := by
  unfold NumberLayout.exponent
  simp

theorem readExponent_none (h : EndsNumber rest) : readExponent rest = .ok (0, rest) := by
  unfold readExponent
  split
  · rfl
  · rename_i c cs
    obtain ⟨-, -, he, hE⟩ := h c rfl
    rw [if_neg (by simp [he, hE])]

/-! ## Decimals -/

/-- A number is read part by part. -/
theorem readUnsigned_parts {negative : Bool} {whole fraction afterWhole afterFraction : List Char}
    {exponent : Int} (hwhole : readWhole cs = .ok (whole, afterWhole))
    (hfraction : readFraction afterWhole = .ok (fraction, afterFraction))
    (hexponent : readExponent afterFraction = .ok (exponent, rest)) :
    readUnsigned negative cs =
      .ok (.ofDecimal negative ⟨digitsValue 10 (whole ++ fraction), exponent - fraction.length⟩,
        rest) := by
  unfold readUnsigned
  rw [hwhole]
  simp only [bind, Except.bind, hfraction, hexponent]

variable {negative : Bool} {d : Decimal}

/-- All digits stand before the point, with zeros behind them. -/
theorem readUnsigned_whole (hd : d.digits ≠ 0) (he : 0 ≤ d.exponent) (hrest : EndsNumber rest) :
    readUnsigned negative
        (Nat.toDigits 10 d.digits ++ List.replicate d.exponent.toNat '0' ++ rest) =
      .ok (.ofDecimal negative d, rest) := by
  have hdigits := (allDigits_toDigits d.digits).append (allDigits_zeros d.exponent.toNat)
  have hfirst : (Nat.toDigits 10 d.digits ++ List.replicate d.exponent.toNat '0').head? ≠
      some '0' := by
    rw [List.head?_append_of_ne_nil _ Nat.toDigits_ne_nil]
    exact head?_toDigits_ne_zero hd
  rw [readUnsigned_parts (readWhole_digits hdigits (.inr hfirst) hrest.digits)
    (readFraction_none hrest.point) (readExponent_none hrest), List.append_nil,
    digitsValue_append_zeros, digitsValue_toDigits, Number.ofDecimal_zeros]
  congr 4
  simp
  omega

/-- The point stands among the digits. -/
theorem readUnsigned_inside {places : Nat} (hd : d.digits ≠ 0) (hpos : 0 < places)
    (hlt : places < (Nat.toDigits 10 d.digits).length)
    (he : places = d.exponent + (Nat.toDigits 10 d.digits).length) (hrest : EndsNumber rest) :
    readUnsigned negative ((Nat.toDigits 10 d.digits).take places ++
        '.' :: (Nat.toDigits 10 d.digits).drop places ++ rest) =
      .ok (.ofDecimal negative d, rest) := by
  have hwhole := (allDigits_toDigits d.digits).take places
  have hfraction := (allDigits_toDigits d.digits).drop places
  have hne : (Nat.toDigits 10 d.digits).drop places ≠ [] := by
    rw [ne_eq, List.drop_eq_nil_iff]
    omega
  have hfirst : ((Nat.toDigits 10 d.digits).take places).head? ≠ some '0' := by
    rw [List.head?_take, if_neg (by omega)]
    exact head?_toDigits_ne_zero hd
  rw [List.append_assoc, List.cons_append,
    readUnsigned_parts (readWhole_digits hwhole (.inr hfirst) (endsDigits_cons rfl))
      (readFraction_point hfraction hne hrest.digits) (readExponent_none hrest),
    List.take_append_drop, digitsValue_toDigits]
  congr 4
  rw [List.length_drop]
  omega

/-- All digits stand behind the point, after zeros. -/
theorem readUnsigned_behind {zeros : Nat} (he : -(zeros : Int) =
    d.exponent + (Nat.toDigits 10 d.digits).length) (hrest : EndsNumber rest) :
    readUnsigned negative
        ('0' :: '.' :: List.replicate zeros '0' ++ Nat.toDigits 10 d.digits ++ rest) =
      .ok (.ofDecimal negative d, rest) := by
  have hwhole : AllDigits ['0'] := allDigits_singleton rfl
  have hfraction := (allDigits_zeros zeros).append (allDigits_toDigits d.digits)
  have hne : List.replicate zeros '0' ++ Nat.toDigits 10 d.digits ≠ [] := by
    simp [Nat.toDigits_ne_nil]
  rw [List.append_assoc, List.cons_append, List.cons_append, ← List.append_assoc]
  show readUnsigned negative
    (['0'] ++ '.' :: (List.replicate zeros '0' ++ Nat.toDigits 10 d.digits ++ rest)) = _
  rw [readUnsigned_parts (readWhole_digits hwhole (.inl rfl) (endsDigits_cons rfl))
      (readFraction_point hfraction hne hrest.digits) (readExponent_none hrest)]
  have hvalue : digitsValue 10 (['0'] ++ (List.replicate zeros '0' ++ Nat.toDigits 10 d.digits)) =
      d.digits :=
    (digitsValue_zeros_append zeros _).trans (digitsValue_toDigits _)
  rw [hvalue]
  congr 4
  rw [List.length_append, List.length_replicate]
  omega

/-- A single digit stands before an exponent. -/
theorem readUnsigned_single {c : Char} (hd : d.digits ≠ 0)
    (hdigits : Nat.toDigits 10 d.digits = [c]) (hrest : EndsNumber rest) :
    readUnsigned negative ([c] ++ (numberLayout.exponent d.exponent ++ rest)) =
      .ok (.ofDecimal negative d, rest) := by
  have hwhole : AllDigits [c] := hdigits ▸ allDigits_toDigits d.digits
  have hfirst : [c].head? ≠ some '0' := hdigits ▸ head?_toDigits_ne_zero hd
  rw [readUnsigned_parts (readWhole_digits hwhole (.inr hfirst) (endsDigits_exponent _ rest))
    (readFraction_none (exponent_without_point _ rest)) (readExponent_exponent _ hrest.digits),
    List.append_nil, ← hdigits, digitsValue_toDigits]
  congr 4
  simp

/-- One digit stands before the point, and an exponent at the end. -/
theorem readUnsigned_scientific {c : Char} {ds : List Char} {e : Int} (hd : d.digits ≠ 0)
    (hdigits : Nat.toDigits 10 d.digits = c :: ds) (hne : ds ≠ [])
    (he : e = d.exponent + ds.length) (hrest : EndsNumber rest) :
    readUnsigned negative ([c] ++ '.' :: (ds ++ (numberLayout.exponent e ++ rest))) =
      .ok (.ofDecimal negative d, rest) := by
  have hall : AllDigits (c :: ds) := hdigits ▸ allDigits_toDigits d.digits
  obtain ⟨hc, hfraction⟩ := List.forall_mem_cons.mp hall
  have hfirst : [c].head? ≠ some '0' := by
    have hzero := head?_toDigits_ne_zero hd
    rw [hdigits] at hzero
    exact hzero
  rw [readUnsigned_parts
      (readWhole_digits (allDigits_singleton hc) (.inr hfirst) (endsDigits_cons rfl))
      (readFraction_point hfraction hne (endsDigits_exponent e rest))
      (readExponent_exponent _ hrest.digits),
    List.singleton_append, ← hdigits, digitsValue_toDigits]
  congr 4
  omega

/-- A decimal is read however its digits are laid out. -/
theorem readUnsigned_decimal (hd : d.digits ≠ 0) (hrest : EndsNumber rest) :
    readUnsigned negative (numberLayout.decimal d ++ rest) = .ok (.ofDecimal negative d, rest) := by
  unfold NumberLayout.decimal
  simp only
  split
  · rename_i hplaces
    split
    · rename_i he
      exact readUnsigned_whole hd he hrest
    · exact readUnsigned_inside hd (by omega) (by omega) (by omega) hrest
  · split
    · exact readUnsigned_behind (by omega) hrest
    · split
      · rename_i hdigits
        exact absurd hdigits Nat.toDigits_ne_nil
      · rename_i c hdigits
        have he : d.exponent + (Nat.toDigits 10 d.digits).length - 1 = d.exponent := by
          rw [hdigits, List.length_singleton]
          omega
        rw [he]
        exact readUnsigned_single hd hdigits hrest
      · rename_i c ds hne hdigits
        rw [List.append_assoc]
        refine readUnsigned_scientific hd hdigits hne ?_ hrest
        rw [hdigits, List.length_cons]
        omega

/-! ## Numbers -/

theorem same_zero_finite (negative : Bool) (size : Magnitude) :
    (Number.finite negative size).same .zero = decide (size.units = 0) := by
  unfold Number.same
  rw [position_zero]
  cases negative <;> simp [Number.position]

/-- A size is read back. -/
theorem readUnsigned_size (negative : Bool) (size : Magnitude) (hrest : EndsNumber rest) :
    readUnsigned negative (numberLayout.size size ++ rest) = .ok (.finite negative size, rest) := by
  unfold NumberLayout.size
  split
  · rename_i hzero
    have hvalue : digitsValue 10 (['0'] ++ []) = 0 := rfl
    rw [readUnsigned_parts (readWhole_digits (allDigits_singleton rfl) (.inl rfl) hrest.digits)
      (readFraction_none hrest.point) (readExponent_none hrest), hvalue]
    unfold Number.ofDecimal
    rw [if_pos rfl, ← hzero, Number.ofUnits_units]
  · rename_i hsize
    have hback := size.shortest_readsBack.trim size.shortest.digits.log2
    rw [readUnsigned_decimal (hback.digits_ne_zero hsize) hrest, hback.signed]

/-- The text starts with a character of this kind. -/
def Starts (kind : Char → Prop) (cs : List Char) : Prop := ∃ c tail, cs = c :: tail ∧ kind c

theorem Starts.append {kind : Char → Prop} (h : Starts kind cs) (rest : List Char) :
    Starts kind (cs ++ rest) := by
  obtain ⟨c, tail, rfl, hc⟩ := h
  exact ⟨c, tail ++ rest, rfl, hc⟩

theorem Starts.mono {kind other : Char → Prop} (hkind : ∀ c, kind c → other c)
    (h : Starts kind cs) : Starts other cs := by
  obtain ⟨c, tail, hcs, hc⟩ := h
  exact ⟨c, tail, hcs, hkind c hc⟩

/-- A decimal digit. -/
def IsDigit (c : Char) : Prop := isDecimalDigit c = true

theorem starts_of_allDigits (hds : AllDigits ds) (hne : ds ≠ []) : Starts IsDigit ds := by
  obtain ⟨c, tail, rfl⟩ := List.exists_cons_of_ne_nil hne
  exact ⟨c, tail, rfl, hds c List.mem_cons_self⟩

theorem starts_decimal (d : Decimal) : Starts IsDigit (numberLayout.decimal d) := by
  have hall := allDigits_toDigits d.digits
  have hzero : ∀ tail, Starts IsDigit ('0' :: tail) := fun tail => ⟨'0', tail, rfl, rfl⟩
  unfold NumberLayout.decimal
  simp only
  split
  · split
    · exact (starts_of_allDigits hall Nat.toDigits_ne_nil).append _
    · refine (starts_of_allDigits (hall.take _) ?_).append _
      rw [ne_eq, List.take_eq_nil_iff]
      simp only [Nat.toDigits_ne_nil, or_false]
      omega
  · split
    · exact hzero _
    · split
      · rename_i hdigits
        exact absurd hdigits Nat.toDigits_ne_nil
      · rename_i c hdigits
        exact ⟨c, _, rfl, hall c (by simp [hdigits])⟩
      · rename_i c ds _ hdigits
        exact ⟨c, _, rfl, hall c (by simp [hdigits])⟩

theorem starts_size (size : Magnitude) : Starts IsDigit (numberLayout.size size) := by
  unfold NumberLayout.size
  split
  · exact ⟨'0', [], rfl, rfl⟩
  · exact starts_decimal _

theorem readNumber_digit (h : Starts IsDigit cs) : readNumber cs = readUnsigned false cs := by
  obtain ⟨c, tail, rfl, hc : isDecimalDigit c = true⟩ := h
  unfold readNumber
  split
  · rename_i heq
    cases heq
    exact absurd hc Bool.false_ne_true
  · rw [List.head?_cons, Option.map_some, Option.getD_some, if_pos hc]

theorem readNumber_minus (h : Starts IsDigit cs) :
    readNumber ('-' :: cs) = readUnsigned true cs := by
  obtain ⟨c, tail, rfl, hc : isDecimalDigit c = true⟩ := h
  unfold readNumber
  simp only
  rw [List.head?_cons, Option.map_some, Option.getD_some, if_pos hc]

/-- A number is read back, but for the sign of zero. -/
theorem readNumber_number {n m : Number} (hm : n.reread? = some m) (hrest : EndsNumber rest) :
    readNumber (numberLayout.number n ++ rest) = .ok (m, rest) := by
  cases n with
  | finite negative size =>
    have hstarts := (starts_size size).append rest
    unfold Number.reread? at hm
    rw [if_pos (show (Number.finite negative size).isFinite = true from rfl), same_zero_finite,
      Option.some.injEq] at hm
    unfold NumberLayout.number
    simp only
    split
    · rename_i hnegative
      rw [List.cons_append, readNumber_minus hstarts, readUnsigned_size true size hrest, ← hm,
        if_neg (by simpa using hnegative.2), hnegative.1]
    · rename_i hpositive
      rw [readNumber_digit hstarts, readUnsigned_size false size hrest, ← hm]
      split
      · rename_i hzero
        unfold Number.zero
        rw [← of_decide_eq_true hzero, Number.ofUnits_units]
      · rename_i hsize
        cases negative with
        | false => rfl
        | true => exact absurd ⟨rfl, by simpa using hsize⟩ hpositive
  | infinite negative => simp [Number.reread?, Number.isFinite] at hm
  | nan => simp [Number.reread?, Number.isFinite] at hm

end Json
end JsonModel
