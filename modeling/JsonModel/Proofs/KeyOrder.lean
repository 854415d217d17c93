-- The order of keys. Names that are indexes come first and ascend, and the others keep the order in
-- which they were set first. The value under a name is the one that was set last.
import Mathlib.Data.List.Basic
import Mathlib.Data.List.Pairwise
import Mathlib.Data.List.Sort
import JsonModel.Proofs.Members

namespace JsonModel

/-! ## Index names -/

theorem digitChar_of_decimal {c : Char} {d : Nat} (h : digitValue? 10 c = some d) :
    d < 10 ∧ d.digitChar = c := by
  have hzero : '0'.toNat = 48 := rfl
  have hnine : '9'.val.toNat = 57 := rfl
  unfold digitValue? at h
  simp only [Option.ite_none_right_eq_some, Option.some.injEq] at h
  obtain ⟨hlt, hd⟩ := h
  rw [hd] at hlt
  split at hd
  · rename_i hc
    simp only [Char.le_def, UInt32.le_iff_toNat_le] at hc
    have hlow : '0'.val.toNat = 48 := rfl
    have hval : c.toNat = c.val.toNat := rfl
    refine ⟨hlt, Char.toNat_inj.mp ?_⟩
    rw [Nat.toNat_digitChar_of_lt_ten hlt]
    omega
  · split at hd
    · omega
    · split at hd <;> omega

/-- Digits that follow a number write that number with them behind it. -/
theorem toDigits_append_digits {n : Nat} (hn : 0 < n) {cs : List Char}
    (hcs : cs.all isDecimalDigit = true) :
    Nat.toDigits 10 n ++ cs =
      Nat.toDigits 10 (cs.foldl (fun n c => n * 10 + (digitValue? 10 c).getD 0) n) := by
  induction cs generalizing n with
  | nil => simp
  | cons c cs ih =>
    rw [List.all_cons, Bool.and_eq_true] at hcs
    obtain ⟨d, hd⟩ := Option.isSome_iff_exists.mp hcs.1
    obtain ⟨hlt, hchar⟩ := digitChar_of_decimal hd
    have hnext : Nat.toDigits 10 n ++ [c] = Nat.toDigits 10 (n * 10 + d) := by
      rw [← hchar, ← Nat.toDigits_of_lt_base hlt,
        Nat.toDigits_append_toDigits (by decide) hn hlt, Nat.mul_comm]
    rw [List.foldl_cons, hd, ← ih (by simp; omega) hcs.2]
    simp only [Option.getD_some]
    rw [← hnext, List.append_assoc, List.singleton_append]

/-- An index name is the decimal text of its index. -/
theorem decimalText_of_indexName? {name : String} {n : Nat} (h : indexName? name = some n) :
    decimalText n = name := by
  unfold indexName? at h
  simp only [Option.ite_none_right_eq_some, Option.some.injEq] at h
  obtain ⟨hplain, -, hvalue⟩ := h
  have hdigits : Nat.toDigits 10 n = name.toList := by
    unfold isPlainDecimal at hplain
    split at hplain
    · simp at hplain
    · rename_i heq
      rw [heq] at hvalue ⊢
      rw [← hvalue]
      rfl
    · rename_i c cs _ heq
      rw [heq] at hvalue ⊢
      rw [Bool.and_eq_true, List.all_cons, Bool.and_eq_true] at hplain
      obtain ⟨hne, hdigit, hrest⟩ := hplain
      obtain ⟨d, hd⟩ := Option.isSome_iff_exists.mp hdigit
      obtain ⟨hlt, hchar⟩ := digitChar_of_decimal hd
      have hpos : 0 < d := by
        rw [Nat.pos_iff_ne_zero]
        rintro rfl
        simp [← hchar] at hne
      rw [← hvalue]
      unfold digitsValue
      rw [List.foldl_cons, hd]
      simp only [Option.getD_some, Nat.zero_mul, Nat.zero_add]
      rw [← toDigits_append_digits hpos hrest, Nat.toDigits_of_lt_base hlt, hchar,
        List.singleton_append]
  unfold decimalText
  rw [hdigits, String.ofList_toList]

/-- Two names of one index are one name. -/
theorem indexName?_inj {a b : String} {n : Nat} (ha : indexName? a = some n)
    (hb : indexName? b = some n) : a = b :=
  (decimalText_of_indexName? ha).symm.trans (decimalText_of_indexName? hb)

/-! ## The order of names -/

/-- The name may stand before the other one: in front of an index there are only smaller ones. -/
def MayPrecede (a b : String) : Prop :=
  ∀ j, indexName? b = some j → ∃ i, indexName? a = some i ∧ i ≤ j

/-- The index of a name is at most that of the other one. -/
def IndexLe (a b : String) : Prop := (indexName? a).getD 0 ≤ (indexName? b).getD 0

instance : DecidableRel IndexLe := fun _ _ => inferInstanceAs (Decidable (_ ≤ _))

instance : Std.Total IndexLe := ⟨fun _ _ => Nat.le_total _ _⟩

instance : IsTrans String IndexLe := ⟨fun _ _ _ => Nat.le_trans⟩

/-- Some names in the order in which an object lists them: indexes first, ascending, then the others
as they arrived. -/
def keyOrder (names : List String) : List String :=
  (names.filter fun name => (indexName? name).isSome).insertionSort IndexLe
    ++ names.filter fun name => (indexName? name).isNone

/-- A list has the names in that order. -/
structure InKeyOrder (names listed : List String) : Prop where
  perm : listed.Perm names
  ordered : listed.Pairwise MayPrecede
  others : (listed.filter fun name => (indexName? name).isNone) =
    names.filter fun name => (indexName? name).isNone

theorem mayPrecede_other (a : String) {b : String} (h : (indexName? b).isNone = true) :
    MayPrecede a b := by
  intro j hj
  simp [hj] at h

theorem indexes_then_others {listed : List String} (h : listed.Pairwise MayPrecede) :
    (listed.filter fun name => (indexName? name).isSome) ++
      (listed.filter fun name => (indexName? name).isNone) = listed := by
  induction listed with
  | nil => rfl
  | cons name listed ih =>
    rw [List.pairwise_cons] at h
    cases hindex : indexName? name with
    | some i => simp [hindex, ih h.2]
    | none =>
      have hothers : ∀ other ∈ listed, indexName? other = none := by
        intro other hother
        rw [Option.eq_none_iff_forall_ne_some]
        intro j hj
        obtain ⟨i, hi, -⟩ := h.1 other hother j hj
        simp [hindex] at hi
      have hnone : (listed.filter fun name => (indexName? name).isSome) = [] := by
        rw [List.filter_eq_nil_iff]
        intro other hother
        simp [hothers other hother]
      have hall : (listed.filter fun name => (indexName? name).isNone) = listed := by
        rw [List.filter_eq_self]
        intro other hother
        simp [hothers other hother]
      simp [hindex, hnone, hall]

/-- There is one way to list names in order. -/
theorem InKeyOrder.unique {names xs ys : List String} (hx : InKeyOrder names xs)
    (hy : InKeyOrder names ys) : xs = ys := by
  rw [← indexes_then_others hx.ordered, ← indexes_then_others hy.ordered, hx.others, hy.others]
  congr 1
  apply @List.Perm.eq_of_pairwise _ MayPrecede
  · intro a b ha hb hab hba
    obtain ⟨i, hi⟩ := Option.isSome_iff_exists.mp (List.mem_filter.mp ha).2
    obtain ⟨j, hj⟩ := Option.isSome_iff_exists.mp (List.mem_filter.mp hb).2
    obtain ⟨i', hi', hle⟩ := hab j hj
    obtain ⟨j', hj', hge⟩ := hba i hi
    rw [hi] at hi'
    rw [hj] at hj'
    cases hi'
    cases hj'
    obtain rfl := Nat.le_antisymm hle hge
    exact indexName?_inj hi hj
  · exact hx.ordered.filter _
  · exact hy.ordered.filter _
  · exact (hx.perm.trans hy.perm.symm).filter _

theorem inKeyOrder_keyOrder (names : List String) : InKeyOrder names (keyOrder names) := by
  have hindexes : ∀ name ∈ (names.filter fun name => (indexName? name).isSome).insertionSort IndexLe,
      (indexName? name).isSome := by
    intro name hname
    exact (List.mem_filter.mp ((List.mem_insertionSort IndexLe).mp hname)).2
  have hothers : ∀ name ∈ names.filter fun name => (indexName? name).isNone,
      ∀ a, MayPrecede a name :=
    fun name hname a => mayPrecede_other a (List.mem_filter.mp hname).2
  refine ⟨?_, ?_, ?_⟩
  · have hsplit := List.filter_append_perm (fun name => (indexName? name).isSome) names
    simp only [Option.not_isSome] at hsplit
    exact ((List.perm_insertionSort _ _).append_right _).trans hsplit
  · rw [keyOrder, List.pairwise_append]
    refine ⟨?_, ?_, fun a _ b hb => hothers b hb a⟩
    · refine List.Pairwise.imp_of_mem (fun {a b} ha _ hab j hj => ?_)
        (List.pairwise_insertionSort IndexLe _)
      obtain ⟨i, hi⟩ := Option.isSome_iff_exists.mp (hindexes a ha)
      unfold IndexLe at hab
      rw [hi, hj] at hab
      exact ⟨i, hi, by simpa using hab⟩
    · exact List.pairwise_of_forall_mem_list fun a _ b hb => hothers b hb a
  · rw [keyOrder, List.filter_append, List.filter_filter]
    simp only [Bool.and_self]
    rw [List.append_left_eq_self, List.filter_eq_nil_iff]
    intro name hname
    simp [Option.isSome_iff_ne_none.mp (hindexes name hname)]

theorem InKeyOrder.eq_keyOrder {names listed : List String} (h : InKeyOrder names listed) :
    listed = keyOrder names := h.unique (inKeyOrder_keyOrder names)

/-- Names that are listed in order are not moved again. -/
theorem keyOrder_keyOrder (names : List String) : keyOrder (keyOrder names) = keyOrder names := by
  obtain ⟨_, hordered, _⟩ := inKeyOrder_keyOrder names
  have hself : InKeyOrder (keyOrder names) (keyOrder names) := ⟨.refl _, hordered, rfl⟩
  exact hself.eq_keyOrder.symm

theorem mem_keyOrder {name : String} {names : List String} :
    name ∈ keyOrder names ↔ name ∈ names := (inKeyOrder_keyOrder names).perm.mem_iff

theorem nodup_keyOrder {names : List String} (h : names.Nodup) : (keyOrder names).Nodup :=
  (inKeyOrder_keyOrder names).perm.nodup_iff.mpr h

/-- Names that stand once each are all kept. -/
theorem eraseDups_eq_self {names : List String} (h : names.Nodup) : names.eraseDups = names := by
  induction names with
  | nil => rfl
  | cons name names ih =>
    rw [List.nodup_cons] at h
    have hothers : (names.filter fun other => !other == name) = names := by
      rw [List.filter_eq_self]
      intro other hother
      have hne : other ≠ name := fun heq => h.1 (heq ▸ hother)
      simpa using hne
    rw [List.eraseDups_cons, hothers, ih h.2]

/-! ## The order of members -/

namespace Members

variable {α β : Type _}

theorem inKeyOrder_insertIndex {listed : List String} {ms : Members α}
    (h : InKeyOrder listed (names ms)) {name : String} {index : Nat} (value : α)
    (hindex : indexName? name = some index) :
    InKeyOrder (listed ++ [name]) (names (insertIndex index (name, value) ms)) := by
  have hperm : ∀ ms : Members α,
      (names (insertIndex index (name, value) ms)).Perm (name :: names ms) :=
    fun ms => (insertIndex_perm index (name, value) ms).map Prod.fst
  refine ⟨?_, ?_, ?_⟩
  · exact (hperm ms).trans ((h.perm.cons name).trans (List.perm_append_singleton name listed).symm)
  · have hordered := h.ordered
    clear h
    induction ms with
    | nil => simp [insertIndex, names]
    | cons m ms ih =>
      have hhere : (names (m :: ms)).Pairwise MayPrecede → MayPrecede name m.1 →
          (names ((name, value) :: m :: ms)).Pairwise MayPrecede := by
        intro hordered hm
        unfold names at hordered ⊢
        rw [List.map_cons, List.pairwise_cons]
        refine ⟨?_, hordered⟩
        rw [List.map_cons, List.pairwise_cons] at hordered
        intro other hother
        rcases List.mem_cons.mp hother with rfl | hother
        · exact hm
        · intro j hj
          obtain ⟨i, hi, hij⟩ := hordered.1 other hother j hj
          obtain ⟨n, hn, hni⟩ := hm i hi
          exact ⟨n, hn, Nat.le_trans hni hij⟩
      unfold insertIndex
      cases hm : indexName? m.1 with
      | none => exact hhere hordered (mayPrecede_other _ (by simp [hm]))
      | some j =>
        simp only
        split
        · rename_i hlt
          unfold names at hordered ⊢
          rw [List.map_cons, List.pairwise_cons] at hordered ⊢
          refine ⟨?_, ih hordered.2⟩
          intro other hother
          rcases List.mem_cons.mp ((hperm ms).mem_iff.mp hother) with rfl | hother
          · intro k hk
            rw [hindex] at hk
            cases hk
            exact ⟨j, hm, Nat.le_of_lt hlt⟩
          · exact hordered.1 other hother
        · rename_i hge
          refine hhere hordered fun k hk => ⟨index, hindex, ?_⟩
          rw [hm] at hk
          cases hk
          exact Nat.le_of_not_lt hge
  · rw [List.filter_append, ← h.others]
    clear h
    induction ms with
    | nil => simp [insertIndex, names, hindex]
    | cons m ms ih =>
      unfold insertIndex
      split
      · split
        · unfold names at ih ⊢
          rw [List.map_cons, List.filter_cons, List.map_cons, List.filter_cons, ih]
          split <;> rfl
        · simp [names, hindex]
      · simp [names, hindex]

theorem names_put {name : String} (value : α) {ms : Members α} {listed : List String}
    (h : InKeyOrder listed (names ms)) : InKeyOrder
      (listed ++ if name ∈ listed then [] else [name]) (names (put name value ms)) := by
  unfold put
  by_cases hname : name ∈ names ms
  · rw [if_pos (has_iff.mpr hname), if_pos (h.perm.mem_iff.mp hname), names_replace,
      List.append_nil]
    exact h
  · have hnew : name ∉ listed := fun hmem => hname (h.perm.mem_iff.mpr hmem)
    rw [if_neg (mt has_iff.mp hname), if_neg hnew]
    cases hindex : indexName? name with
    | some index => exact inKeyOrder_insertIndex h value hindex
    | none =>
      have hnone : (indexName? name).isNone = true := by simp [hindex]
      refine ⟨?_, ?_, ?_⟩
      · unfold names at h ⊢
        simp only [List.map_append, List.map_singleton]
        exact h.perm.append_right _
      · unfold names at h ⊢
        simp only [List.map_append, List.map_singleton]
        rw [List.pairwise_append]
        refine ⟨h.ordered, List.pairwise_singleton _ _, fun a _ b hb => ?_⟩
        rw [List.mem_singleton.mp hb]
        exact mayPrecede_other a hnone
      · unfold names at h ⊢
        simp only [List.map_append, List.map_singleton, List.filter_append, h.others]

/-- Entries that are set one after the other stand in the order of their names. -/
theorem names_ofList (entries : List (String × α)) :
    names (ofList entries) = keyOrder (entries.map Prod.fst).eraseDups := by
  apply InKeyOrder.eq_keyOrder
  induction entries using List.reverseRecOn with
  | nil => exact ⟨.refl _, .nil, rfl⟩
  | append_singleton entries entry ih =>
    have hnext := @names_put _ entry.1 entry.2 _ _ ih
    simp only [List.mem_eraseDups] at hnext
    unfold ofList at hnext ⊢
    rw [List.foldl_append, List.map_append, List.eraseDups_append]
    by_cases hmem : entry.1 ∈ entries.map Prod.fst
    · rw [if_pos hmem] at hnext
      simpa [List.removeAll, hmem] using hnext
    · rw [if_neg hmem] at hnext
      simpa [List.removeAll, hmem, List.eraseDups_cons] using hnext

/-- Entries of distinct names are moved into the order of their names. -/
theorem names_ofList_nodup {entries : List (String × α)} (h : (entries.map Prod.fst).Nodup) :
    names (ofList entries) = keyOrder (entries.map Prod.fst) := by
  rw [names_ofList, eraseDups_eq_self h]

/-- Entries of distinct names that stand in order stay as they are. -/
theorem ofList_eq_self {ms : Members α} (hdistinct : (names ms).Nodup)
    (horder : keyOrder (names ms) = names ms) : ofList ms = ms := by
  have hnames : names (ofList ms) = names ms := (names_ofList_nodup hdistinct).trans horder
  exact eq_of_get? hnames (nodup_ofList ms) (get?_ofList hdistinct)

/-- What stands under a name is what was set last. -/
theorem get?_ofList_last (entries : List (String × α)) (name : String) :
    get? name (ofList entries) = get? name entries.reverse := by
  induction entries using List.reverseRecOn with
  | nil => rfl
  | append_singleton entries entry ih =>
    rw [List.reverse_append, List.reverse_singleton, List.singleton_append, get?_cons, ← ih]
    unfold ofList
    rw [List.foldl_append]
    exact get?_put _ _ _ _

end Members
end JsonModel
