-- The laws of ordered members: what is found under a name after an entry was set, and which
-- entries stand in a list that was built by setting them one after the other.
import Mathlib.Data.List.Induction
import Mathlib.Data.List.Nodup
import Mathlib.Data.List.Perm.Basic
import JsonModel.Json.Members

namespace JsonModel.Members

variable {α β : Type _}

/-! ## Looking up -/

@[simp] theorem get?_nil (name : String) : get? name ([] : Members α) = none := rfl

theorem get?_cons (name : String) (m : String × α) (ms : Members α) :
    get? name (m :: ms) = if name = m.1 then some m.2 else get? name ms := by
  obtain ⟨k, v⟩ := m
  unfold get?
  rw [List.lookup_cons]
  by_cases h : name = k
  · simp [h]
  · simp [h, beq_eq_false_iff_ne.mpr h]

theorem mem_of_get? {name : String} {value : α} {ms : Members α}
    (h : get? name ms = some value) : (name, value) ∈ ms := by
  induction ms with
  | nil => simp at h
  | cons m ms ih =>
    rw [get?_cons] at h
    split at h
    · rename_i hk
      cases h
      subst hk
      exact List.mem_cons_self
    · exact List.mem_cons_of_mem _ (ih h)

/-- Where no name stands twice, every entry is the one that is found under its name. -/
theorem get?_of_mem {name : String} {value : α} {ms : Members α} (hnames : (names ms).Nodup)
    (h : (name, value) ∈ ms) : get? name ms = some value := by
  induction ms with
  | nil => simp at h
  | cons m ms ih =>
    unfold names at hnames ih
    rw [List.map_cons, List.nodup_cons] at hnames
    rw [get?_cons]
    rcases List.mem_cons.mp h with hm | hm
    · subst hm
      simp
    · have hne : name ≠ m.1 := fun he => hnames.1 (he ▸ List.mem_map_of_mem hm)
      rw [if_neg hne]
      exact ih hnames.2 hm

theorem get?_eq_none_iff {name : String} {ms : Members α} :
    get? name ms = none ↔ name ∉ names ms := by
  induction ms with
  | nil => simp [names]
  | cons m ms ih =>
    rw [get?_cons]
    unfold names at ih ⊢
    by_cases h : name = m.1
    · simp [h]
    · simp [h, ih]

/-- Where no name stands twice, what is found are the entries. -/
theorem get?_eq_some_iff {name : String} {value : α} {ms : Members α}
    (hnames : (names ms).Nodup) : get? name ms = some value ↔ (name, value) ∈ ms :=
  ⟨mem_of_get?, get?_of_mem hnames⟩

/-- Members with the same distinct names in the same order and the same entries are the same. -/
theorem eq_of_get? {ms ns : Members α} (hnames : names ms = names ns) (hdistinct : (names ms).Nodup)
    (hget : ∀ name, get? name ms = get? name ns) : ms = ns := by
  have hlisted : ∀ ms : Members α, (names ms).Nodup →
      (ms.map fun m => (m.1, some m.2)) = (names ms).map fun name => (name, get? name ms) := by
    intro ms h
    unfold names
    rw [List.map_map]
    refine List.map_congr_left fun m hm => ?_
    exact congrArg (m.1, ·) (get?_of_mem h hm).symm
  have hentries : (ms.map fun m => (m.1, some m.2)) = ns.map fun m => (m.1, some m.2) := by
    rw [hlisted ms hdistinct, hlisted ns (hnames ▸ hdistinct), ← hnames]
    exact List.map_congr_left fun name _ => congrArg (name, ·) (hget name)
  refine (List.map_inj_right fun m n h => ?_).mp hentries
  rw [Prod.mk.injEq, Option.some.injEq] at h
  exact Prod.ext h.1 h.2

theorem get?_filter (keep : String → Bool) (name : String) (ms : Members α) :
    get? name (ms.filter fun m => keep m.1) = if keep name then get? name ms else none := by
  induction ms with
  | nil => simp
  | cons m ms ih =>
    rw [List.filter_cons, get?_cons]
    by_cases hname : name = m.1
    · subst hname
      by_cases hkeep : keep m.1 = true
      · rw [if_pos hkeep, if_pos hkeep, get?_cons, if_pos rfl, if_pos rfl]
      · rw [if_neg hkeep, ih, if_neg hkeep, if_neg hkeep]
    · rw [if_neg hname, ← ih]
      split
      · rw [get?_cons, if_neg hname]
      · rfl

theorem get?_erase (erased name : String) (ms : Members α) :
    get? name (erase erased ms) = if name = erased then none else get? name ms := by
  unfold erase
  rw [get?_filter fun name => name != erased]
  by_cases h : name = erased <;> simp [h]

theorem exists_get?_iff {name : String} {ms : Members α} :
    (∃ value, get? name ms = some value) ↔ name ∈ names ms := by
  rw [← not_iff_not, ← get?_eq_none_iff, Option.eq_none_iff_forall_ne_some, not_exists]

theorem has_iff {name : String} {ms : Members α} : ms.has name = true ↔ name ∈ names ms := by
  unfold has names
  simp only [List.any_eq_true, beq_iff_eq, List.mem_map]

theorem get?_map (f : α → β) (name : String) (ms : Members α) :
    get? name (ms.map fun m => (m.1, f m.2)) = (get? name ms).map f := by
  induction ms with
  | nil => rfl
  | cons m ms ih =>
    rw [List.map_cons, get?_cons, get?_cons, ih]
    split <;> rfl

/-! ## Setting an entry -/

theorem insertIndex_perm (index : Nat) (entry : String × α) (ms : Members α) :
    (insertIndex index entry ms).Perm (entry :: ms) := by
  induction ms with
  | nil => exact .refl _
  | cons m ms ih =>
    unfold insertIndex
    split
    · split
      · exact (ih.cons m).trans (.swap entry m ms)
      · exact .refl _
    · exact .refl _

/-- An entry under a new name joins the others, wherever its place is. -/
theorem put_perm {name : String} {ms : Members α} (value : α) (h : name ∉ names ms) :
    (put name value ms).Perm ((name, value) :: ms) := by
  unfold put
  rw [if_neg (by rwa [has_iff])]
  split
  · exact insertIndex_perm _ _ _
  · exact List.perm_append_singleton _ _

theorem mem_of_mem_put {name : String} {value : α} {x : String × α} {ms : Members α}
    (h : x ∈ put name value ms) : x = (name, value) ∨ x ∈ ms := by
  by_cases hn : name ∈ names ms
  · unfold put at h
    rw [if_pos (has_iff.mpr hn), List.mem_map] at h
    obtain ⟨m, hm, rfl⟩ := h
    split
    · exact .inl rfl
    · exact .inr hm
  · exact List.mem_cons.mp ((put_perm value hn).mem_iff.mp h)

theorem get?_insertIndex (index : Nat) (entry : String × α) {ms : Members α} (name : String)
    (h : entry.1 ∉ names ms) :
    get? name (insertIndex index entry ms) =
      if name = entry.1 then some entry.2 else get? name ms := by
  induction ms with
  | nil => exact get?_cons _ _ _
  | cons m ms ih =>
    unfold names at h ih
    rw [List.map_cons, List.mem_cons, not_or] at h
    unfold insertIndex
    split
    · split
      · rw [get?_cons, ih h.2, get?_cons]
        by_cases hm : name = m.1
        · have hne : name ≠ entry.1 := fun he => h.1 (he ▸ hm)
          rw [if_pos hm, if_neg hne, if_pos hm]
        · rw [if_neg hm, if_neg hm]
      · exact get?_cons _ _ _
    · exact get?_cons _ _ _

theorem get?_append (name : String) (ms ns : Members α) :
    get? name (ms ++ ns) = (get? name ms).or (get? name ns) := by
  induction ms with
  | nil => rfl
  | cons m ms ih =>
    rw [List.cons_append, get?_cons, get?_cons, ih]
    split <;> rfl

theorem get?_replace (name key : String) (value : α) (ms : Members α) :
    get? name (ms.map fun m => if m.1 == key then (key, value) else m) =
      if name = key then (get? key ms).map (fun _ => value) else get? name ms := by
  induction ms with
  | nil => simp
  | cons m ms ih =>
    rw [List.map_cons, get?_cons, get?_cons, get?_cons, ih]
    by_cases hm : m.1 = key
    · subst hm
      by_cases hn : name = m.1 <;> simp [hn]
    · have hb : (m.1 == key) = false := beq_eq_false_iff_ne.mpr hm
      by_cases hn : name = key
      · subst hn
        simp [hb, Ne.symm hm]
      · simp [hb, hn]

/-- What is found after an entry was set: the new value under its name, and everything else as it
was. -/
theorem get?_put (name key : String) (value : α) (ms : Members α) :
    get? name (put key value ms) = if name = key then some value else get? name ms := by
  unfold put
  by_cases hk : key ∈ names ms
  · obtain ⟨old, hold⟩ := Option.ne_none_iff_exists'.mp (mt get?_eq_none_iff.mp (not_not.mpr hk))
    rw [if_pos (has_iff.mpr hk), get?_replace, hold]
    rfl
  · rw [if_neg (by rwa [has_iff])]
    split
    · exact get?_insertIndex _ _ _ hk
    · rw [get?_append, get?_cons]
      by_cases hn : name = key
      · subst hn
        simp [get?_eq_none_iff.mpr hk]
      · simp [hn]

/-! ## Setting entries one after the other -/

theorem mem_of_mem_ofList {x : String × α} {entries : List (String × α)}
    (h : x ∈ ofList entries) : x ∈ entries := by
  induction entries using List.reverseRecOn with
  | nil => exact h
  | append_singleton entries entry ih =>
    unfold ofList at h ih
    rw [List.foldl_append] at h
    rcases mem_of_mem_put h with rfl | hx
    · simp
    · exact List.mem_append_left _ (ih hx)

theorem names_replace (key : String) (value : α) (ms : Members α) :
    names (ms.map fun m => if m.1 == key then (key, value) else m) = names ms := by
  unfold names
  rw [List.map_map]
  apply List.map_congr_left
  intro m _
  by_cases hm : m.1 = key
  · simp [hm]
  · simp [hm]

theorem nodup_put (name : String) (value : α) {ms : Members α} (h : (names ms).Nodup) :
    (names (put name value ms)).Nodup := by
  by_cases hn : name ∈ names ms
  · unfold put
    rw [if_pos (has_iff.mpr hn), names_replace]
    exact h
  · have hperm : (names (put name value ms)).Perm (name :: names ms) :=
      (put_perm value hn).map Prod.fst
    exact hperm.nodup_iff.mpr (List.nodup_cons.mpr ⟨hn, h⟩)

/-- No name is there twice, however often it was set. -/
theorem nodup_ofList (entries : List (String × α)) : (names (ofList entries)).Nodup := by
  induction entries using List.reverseRecOn with
  | nil => exact List.nodup_nil
  | append_singleton entries entry ih =>
    unfold ofList at ih ⊢
    rw [List.foldl_append]
    exact nodup_put _ _ ih

/-- Entries of distinct names are all there, in some order. -/
theorem ofList_perm {entries : List (String × α)} (h : (entries.map Prod.fst).Nodup) :
    (ofList entries).Perm entries := by
  induction entries using List.reverseRecOn with
  | nil => exact .refl _
  | append_singleton entries entry ih =>
    rw [List.map_append, List.nodup_append] at h
    have hall := ih h.1
    have hnew : entry.1 ∉ names (ofList entries) := by
      intro hmem
      have hmem' : entry.1 ∈ entries.map Prod.fst := (hall.map Prod.fst).mem_iff.mp hmem
      exact h.2.2 _ hmem' _ (by simp) rfl
    unfold ofList at hall hnew ⊢
    rw [List.foldl_append]
    exact (put_perm entry.2 hnew).trans
      ((hall.cons entry).trans (List.perm_append_singleton entry entries).symm)

@[simp] theorem ofList_singleton (entry : String × α) : ofList [entry] = [entry] := by
  unfold ofList put
  simp only [List.foldl_cons, List.foldl_nil, has, List.any_nil, Bool.false_eq_true, if_false]
  split <;> rfl

/-- Entries of distinct names are found as they were set. -/
theorem get?_ofList {entries : List (String × α)} (h : (entries.map Prod.fst).Nodup)
    (name : String) : get? name (ofList entries) = get? name entries := by
  ext value
  rw [get?_eq_some_iff (nodup_ofList entries), get?_eq_some_iff h]
  exact (ofList_perm h).mem_iff

/-- Nothing is taken out of members that do not have the name. -/
theorem erase_eq_self {name : String} {ms : Members α} (h : name ∉ names ms) :
    erase name ms = ms := by
  unfold erase
  rw [List.filter_eq_self]
  intro m hm
  have hne : m.1 ≠ name := fun he => h (he ▸ List.mem_map_of_mem hm)
  simpa using hne

theorem mem_names_put {key name : String} {value : α} {ms : Members α} :
    name ∈ names (put key value ms) ↔ name = key ∨ name ∈ names ms := by
  have hget := get?_put name key value ms
  rw [← not_iff_not, ← get?_eq_none_iff, hget, not_or, ← get?_eq_none_iff]
  by_cases h : name = key <;> simp [h]

/-- The names are those that were set. -/
theorem mem_names_ofList {name : String} {entries : List (String × α)} :
    name ∈ names (ofList entries) ↔ name ∈ entries.map Prod.fst := by
  induction entries using List.reverseRecOn with
  | nil => simp [ofList, names]
  | append_singleton entries entry ih =>
    unfold ofList at ih ⊢
    rw [List.foldl_append, List.map_append, List.mem_append, ← ih, or_comm]
    simp [mem_names_put]

/-! ## Member by member -/

/-- The same names in the same order, with related values. -/
abbrev Pairs (R : String → α → β → Prop) : Members α → Members β → Prop :=
  List.Forall₂ fun m n => m.1 = n.1 ∧ R m.1 m.2 n.2

variable {R : String → α → β → Prop} {ms : Members α} {ns : Members β}

theorem Pairs.names_eq (h : Pairs R ms ns) : names ms = names ns := by
  unfold names
  induction h with
  | nil => rfl
  | cons hhead _ ih => rw [List.map_cons, List.map_cons, hhead.1, ih]

theorem Pairs.has_eq (h : Pairs R ms ns) (name : String) : ms.has name = ns.has name := by
  rw [Bool.eq_iff_iff, has_iff, has_iff, h.names_eq]

theorem Pairs.get?_none (h : Pairs R ms ns) {name : String} (hx : get? name ms = none) :
    get? name ns = none := by
  rw [get?_eq_none_iff, ← h.names_eq]
  exact get?_eq_none_iff.mp hx

/-- What is found on the left has its counterpart on the right. -/
theorem Pairs.found (h : Pairs R ms ns) {name : String} {x : α} (hx : get? name ms = some x) :
    ∃ y, get? name ns = some y ∧ R name x y := by
  induction h with
  | nil => simp at hx
  | @cons m n ms ns hhead _ ih =>
    obtain ⟨hname, hvalue⟩ := hhead
    rw [get?_cons] at hx
    rw [get?_cons, ← hname]
    by_cases hfound : name = m.1
    · rw [if_pos hfound] at hx
      cases hx
      subst hfound
      rw [if_pos rfl]
      exact ⟨n.2, rfl, hvalue⟩
    · rw [if_neg hfound] at hx ⊢
      exact ih hx

theorem Pairs.flip (h : Pairs R ms ns) : Pairs (fun name y x => R name x y) ns ms := by
  induction h with
  | nil => exact .nil
  | cons hhead _ ih => exact .cons ⟨hhead.1.symm, hhead.1 ▸ hhead.2⟩ ih

theorem Pairs.filter (h : Pairs R ms ns) (keep : String → Bool) :
    Pairs R (ms.filter fun m => keep m.1) (ns.filter fun m => keep m.1) := by
  induction h with
  | nil => exact .nil
  | @cons m n ms ns hhead _ ih =>
    rw [List.filter_cons, List.filter_cons, ← hhead.1]
    by_cases hkeep : keep m.1 = true
    · rw [if_pos hkeep, if_pos hkeep]
      exact .cons hhead ih
    · rw [if_neg hkeep, if_neg hkeep]
      exact ih

theorem Pairs.insertIndex (h : Pairs R ms ns) (index : Nat) {name : String} {x : α} {y : β}
    (hxy : R name x y) :
    Pairs R (insertIndex index (name, x) ms) (insertIndex index (name, y) ns) := by
  induction h with
  | nil => exact .cons ⟨rfl, hxy⟩ .nil
  | @cons m n ms ns hhead hrest ih =>
    have hhere : Pairs R ((name, x) :: m :: ms) ((name, y) :: n :: ns) :=
      .cons ⟨rfl, hxy⟩ (.cons hhead hrest)
    unfold Members.insertIndex
    rw [← hhead.1]
    cases hindex : indexName? m.1 with
    | none => exact hhere
    | some j =>
      by_cases hj : j < index
      · simp only [if_pos hj]
        exact .cons hhead ih
      · simp only [if_neg hj]
        exact hhere

theorem Pairs.put (h : Pairs R ms ns) {name : String} {x : α} {y : β} (hxy : R name x y) :
    Pairs R (put name x ms) (put name y ns) := by
  unfold Members.put
  rw [h.has_eq name]
  split
  · unfold Pairs
    rw [List.forall₂_map_left_iff, List.forall₂_map_right_iff]
    refine h.imp fun m n hmn => ?_
    rw [← hmn.1]
    by_cases hname : m.1 = name
    · simp [hname, hxy]
    · simp only [beq_eq_false_iff_ne.mpr hname, Bool.false_eq_true, if_false]
      exact hmn
  · split
    · exact h.insertIndex _ hxy
    · exact List.rel_append h (.cons ⟨rfl, hxy⟩ .nil)

theorem Pairs.ofList (h : Pairs R ms ns) : Pairs R (ofList ms) (ofList ns) := by
  have hstep : ∀ {set : Members α} {set' : Members β}, Pairs R set set' →
      Pairs R (ms.foldl (fun set entry => Members.put entry.1 entry.2 set) set)
        (ns.foldl (fun set entry => Members.put entry.1 entry.2 set) set') := by
    induction h with
    | nil => exact fun hset => hset
    | @cons m n ms ns hhead _ ih =>
      intro set set' hset
      rw [List.foldl_cons, List.foldl_cons, ← hhead.1]
      exact ih (hset.put hhead.2)
  exact hstep .nil

/-! ## Changing every value -/

theorem pairs_map (f : α → β) (ms : Members α) :
    Pairs (fun _ x y => f x = y) ms (ms.map fun m => (m.1, f m.2)) := by
  unfold Pairs
  rw [List.forall₂_map_right_iff, List.forall₂_same]
  exact fun _ _ => ⟨rfl, rfl⟩

theorem Pairs.eq_map {f : α → β} (h : Pairs (fun _ x y => f x = y) ms ns) :
    ns = ms.map fun m => (m.1, f m.2) := by
  induction h with
  | nil => rfl
  | cons hhead _ ih =>
    obtain ⟨hname, hvalue⟩ := hhead
    rw [List.map_cons, ← ih, hname, hvalue]

/-- Values may be changed before or after their entries are set. -/
theorem ofList_map (f : α → β) (entries : List (String × α)) :
    ofList (entries.map fun m => (m.1, f m.2)) = (ofList entries).map fun m => (m.1, f m.2) :=
  (pairs_map f entries).ofList.eq_map

theorem erase_map (f : α → β) (name : String) (ms : Members α) :
    erase name (ms.map fun m => (m.1, f m.2)) = (erase name ms).map fun m => (m.1, f m.2) :=
  ((pairs_map f ms).filter fun other => other != name).eq_map

end JsonModel.Members
