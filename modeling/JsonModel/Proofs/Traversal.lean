-- Lists that are gone through item by item until one fails.
import Mathlib.Data.List.Forall2

namespace JsonModel

variable {α β ε : Type _}

theorem bind_ok_iff {x : Except ε α} {f : α → Except ε β} {b : β} :
    x >>= f = .ok b ↔ ∃ a, x = .ok a ∧ f a = .ok b := by
  cases x with
  | error e => simp [bind, Except.bind]
  | ok a => simp [bind, Except.bind]

theorem map_ok_iff {x : Except ε α} {f : α → β} {b : β} :
    x.map f = .ok b ↔ ∃ a, x = .ok a ∧ f a = b := by
  cases x <;> simp [Except.map]

theorem bind_error_iff {x : Except ε α} {f : α → Except ε β} {e : ε} :
    x >>= f = .error e ↔ x = .error e ∨ ∃ a, x = .ok a ∧ f a = .error e := by
  cases x with
  | error e => simp [bind, Except.bind]
  | ok a => simp [bind, Except.bind]

/-- What only changes the result of a run that succeeds does not change an error. -/
theorem map_error_iff {x : Except ε α} {f : α → β} {e : ε} :
    x.map f = .error e ↔ x = .error e := by
  cases x <;> simp [Except.map]

theorem mapError_ok_iff {x : Except ε α} {f : ε → β} {a : α} : x.mapError f = .ok a ↔ x = .ok a := by
  cases x <;> simp [Except.mapError]

/-- Going through a list succeeds exactly when each item does, and gives the results in order. -/
theorem mapM_ok_iff {f : α → Except ε β} {xs : List α} {ys : List β} :
    xs.mapM f = .ok ys ↔ List.Forall₂ (fun x y => f x = .ok y) xs ys := by
  induction xs generalizing ys with
  | nil =>
    rw [List.mapM_nil, List.forall₂_nil_left_iff]
    exact ⟨fun h => by cases h; rfl, fun h => by rw [h]; rfl⟩
  | cons x xs ih =>
    rw [List.mapM_cons, bind_ok_iff, List.forall₂_cons_left_iff]
    constructor
    · rintro ⟨y, hy, h⟩
      obtain ⟨rest, hrest, h⟩ := bind_ok_iff.mp h
      cases h
      exact ⟨y, rest, hy, ih.mp hrest, rfl⟩
    · rintro ⟨y, rest, hy, hrest, rfl⟩
      exact ⟨y, hy, bind_ok_iff.mpr ⟨rest, ih.mpr hrest, rfl⟩⟩

/-- Going through a list fails as one of its items does. -/
theorem mapM_error {f : α → Except ε β} {xs : List α} {e : ε} (h : xs.mapM f = .error e) :
    ∃ x ∈ xs, f x = .error e := by
  induction xs with
  | nil => cases h
  | cons x xs ih =>
    rw [List.mapM_cons, bind_error_iff] at h
    obtain hx | ⟨y, -, hrest⟩ := h
    · exact ⟨x, List.mem_cons_self, hx⟩
    · obtain hrest | ⟨ys, -, hpure⟩ := bind_error_iff.mp hrest
      · obtain ⟨z, hz, hfail⟩ := ih hrest
        exact ⟨z, List.mem_cons_of_mem x hz, hfail⟩
      · cases hpure

/-- A list all of whose items succeed is gone through to its end. -/
theorem mapM_total {f : α → Except ε β} {xs : List α} (h : ∀ x ∈ xs, ∃ y, f x = .ok y) :
    ∃ ys, xs.mapM f = .ok ys := by
  induction xs with
  | nil => exact ⟨[], rfl⟩
  | cons x xs ih =>
    obtain ⟨y, hy⟩ := h x List.mem_cons_self
    obtain ⟨ys, hys⟩ := ih fun z hz => h z (List.mem_cons_of_mem x hz)
    rw [mapM_ok_iff] at hys
    exact ⟨y :: ys, mapM_ok_iff.mpr (.cons hy hys)⟩

theorem exists_of_forall₂ {R : α → β → Prop} {xs : List α} {ys : List β}
    (h : List.Forall₂ R xs ys) {x : α} (hx : x ∈ xs) : ∃ y ∈ ys, R x y := by
  induction h with
  | nil => simp at hx
  | cons hhead _ ih =>
    rcases List.mem_cons.mp hx with rfl | hx
    · exact ⟨_, List.mem_cons_self, hhead⟩
    · obtain ⟨y, hy, hr⟩ := ih hx
      exact ⟨y, List.mem_cons_of_mem _ hy, hr⟩

/-- A list each of whose items is related to something is related to some list. -/
theorem ne_nil_of_forall₂ {R : α → β → Prop} {xs : List α} {ys : List β}
    (h : List.Forall₂ R xs ys) (hne : xs ≠ []) : ys ≠ [] := by
  rintro rfl
  exact hne (List.forall₂_nil_right_iff.mp h)

theorem exists_forall₂ {R : α → β → Prop} {xs : List α} (h : ∀ x ∈ xs, ∃ y, R x y) :
    ∃ ys, List.Forall₂ R xs ys := by
  induction xs with
  | nil => exact ⟨[], .nil⟩
  | cons x xs ih =>
    obtain ⟨y, hy⟩ := h x List.mem_cons_self
    obtain ⟨ys, hys⟩ := ih fun z hz => h z (List.mem_cons_of_mem x hz)
    exact ⟨y :: ys, .cons hy hys⟩

/-- Items may be related in another way if those of the list on the left may. -/
theorem forall₂_imp_of_mem {R S : α → β → Prop} {xs : List α} {ys : List β}
    (h : List.Forall₂ R xs ys) (himp : ∀ x ∈ xs, ∀ y, R x y → S x y) : List.Forall₂ S xs ys :=
  ((List.forall₂_and_left xs ys).mpr ⟨himp, h⟩).imp fun _ y hboth => hboth.1 y hboth.2

/-- What holds of all items on the right may be used for how they are related. -/
theorem forall₂_and_right {R S : α → β → Prop} {P : β → Prop} {xs : List α} {ys : List β}
    (h : List.Forall₂ R xs ys) (hall : ∀ y ∈ ys, P y) (himp : ∀ x y, R x y → P y → S x y) :
    List.Forall₂ S xs ys := by
  induction h with
  | nil => exact .nil
  | cons hhead _ ih =>
    exact .cons (himp _ _ hhead (hall _ List.mem_cons_self))
      (ih fun y hy => hall y (List.mem_cons_of_mem _ hy))

/-- What is related to two lists, one behind the other, comes apart as they do. -/
theorem forall₂_append_left {R : α → β → Prop} {xs ys : List α} {zs : List β}
    (h : List.Forall₂ R (xs ++ ys) zs) :
    ∃ us vs, zs = us ++ vs ∧ List.Forall₂ R xs us ∧ List.Forall₂ R ys vs :=
  ⟨zs.take xs.length, zs.drop xs.length, (List.take_append_drop _ zs).symm,
    (List.forall₂_take_append zs xs ys h.flip).flip,
    (List.forall₂_drop_append zs xs ys h.flip).flip⟩

/-- Where lists are related item by item, one item may be replaced together with its counterpart,
and not otherwise. -/
theorem forall₂_replace {R : α → β → Prop} {before after : List α} {x : α} {ys : List β}
    (h : List.Forall₂ R (before ++ x :: after) ys) :
    ∃ before' y after', ys = before' ++ y :: after' ∧ R x y ∧
      ∀ x' y', List.Forall₂ R (before ++ x' :: after) (before' ++ y' :: after') ↔ R x' y' := by
  induction before generalizing ys with
  | nil =>
    obtain ⟨y, rest, hy, hrest, rfl⟩ := List.forall₂_cons_left_iff.mp h
    refine ⟨[], y, rest, rfl, hy, fun x' y' => ?_⟩
    rw [List.nil_append, List.nil_append, List.forall₂_cons]
    exact and_iff_left hrest
  | cons head before ih =>
    obtain ⟨y, rest, hy, hrest, rfl⟩ := List.forall₂_cons_left_iff.mp h
    obtain ⟨before', z, after', rfl, hz, hreplace⟩ := ih hrest
    refine ⟨y :: before', z, after', rfl, hz, fun x' y' => ?_⟩
    rw [List.cons_append, List.cons_append, List.forall₂_cons, hreplace]
    exact and_iff_right hy

/-- What stands for an item stands for another one exactly if `P` holds, and something stands for
it if `Q` does. -/
def Passes (R : α → β → Prop) (P Q : Prop) (x x' : α) : Prop :=
  ∀ y, R x y → (R x' y ↔ P) ∧ (Q → ∃ y', R x' y')

/-- What passes from an item to another one passes from a list to the list with that other item. -/
theorem Passes.list {R : α → β → Prop} {P Q : Prop} {x x' : α} (h : Passes R P Q x x')
    (before after : List α) :
    Passes (List.Forall₂ R) P Q (before ++ x :: after) (before ++ x' :: after) := by
  intro ys hys
  obtain ⟨before', y, after', rfl, hy, hreplace⟩ := forall₂_replace hys
  obtain ⟨hiff, hexists⟩ := h y hy
  refine ⟨(hreplace x' y).trans hiff, fun hQ => ?_⟩
  obtain ⟨y', hy'⟩ := hexists hQ
  exact ⟨_, (hreplace x' y').mpr hy'⟩

/-- Two lists that are related item by item are related at every place. -/
theorem rel_of_getElem? {R : α → β → Prop} {xs : List α} {ys : List β}
    (h : List.Forall₂ R xs ys) {i : Nat} {x : α} {y : β} (hx : xs[i]? = some x)
    (hy : ys[i]? = some y) : R x y := by
  induction h generalizing i with
  | nil => simp at hx
  | cons hhead _ ih =>
    cases i with
    | zero =>
      cases hx
      cases hy
      exact hhead
    | succ i => exact ih hx hy

/-- Lists of one length have items at the same places. -/
theorem exists_getElem? {xs : List α} {ys : List β} (hlength : xs.length = ys.length) {i : Nat}
    {x : α} (hx : xs[i]? = some x) : ∃ y, ys[i]? = some y := by
  have hi : i < ys.length := by
    rw [← hlength]
    exact (List.getElem?_eq_some_iff.mp hx).1
  exact ⟨ys[i], List.getElem?_eq_getElem hi⟩

theorem any_of_forall₂ {R : α → β → Prop} {p : α → Bool} {q : β → Bool} {xs : List α} {ys : List β}
    (h : List.Forall₂ R xs ys) (hpq : ∀ x y, R x y → q y = p x) : ys.any q = xs.any p := by
  induction h with
  | nil => rfl
  | cons hhead _ ih => rw [List.any_cons, List.any_cons, hpq _ _ hhead, ih]

theorem all_of_forall₂ {R : α → β → Prop} {p : α → Bool} {q : β → Bool} {xs : List α} {ys : List β}
    (h : List.Forall₂ R xs ys) (hpq : ∀ x y, R x y → q y = p x) : ys.all q = xs.all p := by
  induction h with
  | nil => rfl
  | cons hhead _ ih => rw [List.all_cons, List.all_cons, hpq _ _ hhead, ih]

/-- What is found first on the left has its counterpart found first on the right. -/
theorem find?_of_forall₂ {R : α → β → Prop} {p : α → Bool} {q : β → Bool} {xs : List α}
    {ys : List β} (h : List.Forall₂ R xs ys) (hpq : ∀ x y, R x y → q y = p x) {x : α}
    (hx : xs.find? p = some x) : ∃ y, ys.find? q = some y ∧ R x y := by
  induction h with
  | nil => simp at hx
  | @cons head head' _ _ hhead _ ih =>
    rw [List.find?_cons] at hx ⊢
    rw [hpq _ _ hhead]
    split at hx
    · cases hx
      exact ⟨head', rfl, hhead⟩
    · exact ih hx

theorem all_congr_of_mem {p q : α → Bool} {xs : List α} (h : ∀ x ∈ xs, p x = q x) :
    xs.all p = xs.all q := by
  rw [Bool.eq_iff_iff, List.all_eq_true, List.all_eq_true]
  exact forall₂_congr fun x hx => by rw [h x hx]

theorem any_congr_of_mem {p q : α → Bool} {xs : List α} (h : ∀ x ∈ xs, p x = q x) :
    xs.any p = xs.any q := by
  rw [Bool.eq_iff_iff, List.any_eq_true, List.any_eq_true]
  exact exists_congr fun x => and_congr_right fun hx => by rw [h x hx]

theorem exists_of_mapM {f : α → Except ε β} {xs : List α} {ys : List β}
    (h : xs.mapM f = .ok ys) {x : α} (hx : x ∈ xs) : ∃ y ∈ ys, f x = .ok y :=
  exists_of_forall₂ (mapM_ok_iff.mp h) hx

theorem mapM_congr {f g : α → Except ε β} {xs : List α} (h : ∀ x ∈ xs, f x = g x) :
    xs.mapM f = xs.mapM g := by
  induction xs with
  | nil => rfl
  | cons x xs ih =>
    rw [List.mapM_cons, List.mapM_cons, h x List.mem_cons_self,
      ih fun z hz => h z (List.mem_cons_of_mem x hz)]

/-! ## Two runs that end alike -/

/-- Two runs end alike: both succeed, with related results, or both fail with the same error. -/
inductive EndAlike (R : α → β → Prop) : Except ε α → Except ε β → Prop
  | ok {a : α} {b : β} : R a b → EndAlike R (.ok a) (.ok b)
  | error (e : ε) : EndAlike R (.error e) (.error e)

section

variable {γ δ : Type _} {R : α → β → Prop} {S : γ → δ → Prop}

theorem EndAlike.refl {R : α → α → Prop} (h : ∀ a, R a a) (x : Except ε α) : EndAlike R x x := by
  cases x with
  | ok a => exact .ok (h a)
  | error e => exact .error e

theorem EndAlike.bind {x : Except ε α} {y : Except ε β} {f : α → Except ε γ} {g : β → Except ε δ}
    (h : EndAlike R x y) (hnext : ∀ a b, R a b → EndAlike S (f a) (g b)) :
    EndAlike S (x >>= f) (y >>= g) := by
  cases h with
  | ok hab => exact hnext _ _ hab
  | error e => exact .error e

theorem EndAlike.map {x : Except ε α} {y : Except ε β} {f : α → γ} {g : β → δ}
    (h : EndAlike R x y) (hnext : ∀ a b, R a b → S (f a) (g b)) :
    EndAlike S (x.map f) (y.map g) := by
  cases h with
  | ok hab => exact .ok (hnext _ _ hab)
  | error e => exact .error e

/-- Lists that are gone through alike item by item are gone through alike. -/
theorem endAlike_mapM {f : α → Except ε γ} {g : β → Except ε δ} {xs : List α} {ys : List β}
    (h : List.Forall₂ (fun x y => EndAlike S (f x) (g y)) xs ys) :
    EndAlike (List.Forall₂ S) (xs.mapM f) (ys.mapM g) := by
  induction h with
  | nil => exact .ok .nil
  | cons hhead _ ih =>
    rw [List.mapM_cons, List.mapM_cons]
    apply hhead.bind
    intro a b hab
    apply ih.bind
    intro as bs habs
    exact .ok (.cons hab habs)

end

/-- Two lists are related item by item as soon as they are related at every place. -/
theorem forall₂_of_getElem? {R : α → β → Prop} {xs : List α} {ys : List β}
    (hlength : xs.length = ys.length)
    (h : ∀ (i : Nat) (x : α) (y : β), xs[i]? = some x → ys[i]? = some y → R x y) :
    List.Forall₂ R xs ys := by
  induction xs generalizing ys with
  | nil =>
    rw [List.length_nil, eq_comm, List.length_eq_zero_iff] at hlength
    subst hlength
    exact .nil
  | cons x xs ih =>
    cases ys with
    | nil => simp at hlength
    | cons y ys =>
      exact .cons (h 0 x y rfl rfl)
        (ih (Nat.succ.inj hlength) fun i x y hx hy => h (i + 1) x y hx hy)

end JsonModel
