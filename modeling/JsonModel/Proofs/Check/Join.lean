-- Joining values, as an order sees it. A value holds no more than another one if it can be had from
-- it by leaving out members, at any depth. What a check makes of some data is the data with members
-- left out and nulls put in, and two such values are joined in the least one that holds both.
import Mathlib.Order.Bounds.Basic
import JsonModel.Proofs.Check.Follow
import JsonModel.Proofs.Traversal

namespace JsonModel

/-! ## Holding no more -/

/-- A value holds no more than another one: the same scalars, lists item by item, and of each object
some of the members. -/
inductive Value.Below : Value → Value → Prop
  | refl (v : Value) : Below v v
  | arr {o o' : Origin} {xs ys : List Value} : xs.length = ys.length →
      (∀ (i : Nat) (x y : Value), xs[i]? = some x → ys[i]? = some y → Below x y) →
      Below (.arr o xs) (.arr o' ys)
  | obj {o o' : Origin} {xs ys : Members Value} :
      (∀ name x, xs.get? name = some x → ∃ y, ys.get? name = some y) →
      (∀ name x y, xs.get? name = some x → ys.get? name = some y → Below x y) →
      Below (.obj o xs) (.obj o' ys)

theorem Value.Below.trans {u v w : Value} (h : Below u v) (h' : Below v w) : Below u w := by
  induction h generalizing w with
  | refl v => exact h'
  | @arr o o' xs ys hlength hitems ih =>
    cases h' with
    | refl => exact .arr hlength hitems
    | arr hlength' hitems' =>
      refine .arr (hlength.trans hlength') fun i x z hx hz => ?_
      obtain ⟨y, hy⟩ := exists_getElem? hlength hx
      exact ih i x y hx hy (hitems' i y z hy hz)
  | @obj o o' xs ys hfound hmembers ih =>
    cases h' with
    | refl => exact .obj hfound hmembers
    | obj hfound' hmembers' =>
      refine .obj (fun name x hx => ?_) fun name x z hx hz => ?_
      · obtain ⟨y, hy⟩ := hfound name x hx
        exact hfound' name y hy
      · obtain ⟨y, hy⟩ := hfound name x hx
        exact ih name x y hx hy (hmembers' name y z hy hz)

instance : Preorder Value where
  le := Value.Below
  le_refl := .refl
  le_trans _ _ _ := .trans

theorem arr_le_iff {o : Origin} {xs : List Value} {w : Value} :
    .arr o xs ≤ w ↔ ∃ o' ys, w = .arr o' ys ∧ xs.length = ys.length ∧
      ∀ (i : Nat) (x y : Value), xs[i]? = some x → ys[i]? = some y → x ≤ y := by
  constructor
  · rintro (_ | ⟨hlength, hitems⟩)
    · refine ⟨o, xs, rfl, rfl, fun i x y hx hy => ?_⟩
      rw [hx] at hy
      cases hy
      exact le_rfl
    · exact ⟨_, _, rfl, hlength, hitems⟩
  · rintro ⟨o', ys, rfl, hlength, hitems⟩
    exact .arr hlength hitems

theorem obj_le_iff {o : Origin} {xs : Members Value} {w : Value} :
    .obj o xs ≤ w ↔ ∃ (o' : Origin) (ys : Members Value), w = .obj o' ys ∧
      ∀ name x, xs.get? name = some x → ∃ y, ys.get? name = some y ∧ x ≤ y := by
  constructor
  · rintro (_ | ⟨hlength, hitems⟩ | ⟨hfound, hmembers⟩)
    · exact ⟨o, xs, rfl, fun name x hx => ⟨x, hx, le_rfl⟩⟩
    · refine ⟨_, _, rfl, fun name x hx => ?_⟩
      obtain ⟨y, hy⟩ := hfound name x hx
      exact ⟨y, hy, hmembers name x y hx hy⟩
  · rintro ⟨o', ys, rfl, hmembers⟩
    refine .obj (fun name x hx => ?_) fun name x y hx hy => ?_
    · obtain ⟨y, hy, -⟩ := hmembers name x hx
      exact ⟨y, hy⟩
    · obtain ⟨y', hy', hle⟩ := hmembers name x hx
      rw [hy] at hy'
      cases hy'
      exact hle

/-! ## The same at every depth -/

/-- Two values are the same, all objects in them being taken as maps from names to values. -/
inductive SameMap : Value → Value → Prop
  | refl (v : Value) : SameMap v v
  | arr {o o' : Origin} {xs ys : List Value} : xs.length = ys.length →
      (∀ (i : Nat) (x y : Value), xs[i]? = some x → ys[i]? = some y → SameMap x y) →
      SameMap (.arr o xs) (.arr o' ys)
  | obj {o o' : Origin} {xs ys : Members Value} :
      (∀ name, name ∈ Members.names xs ↔ name ∈ Members.names ys) →
      (∀ name x y, xs.get? name = some x → ys.get? name = some y → SameMap x y) →
      SameMap (.obj o xs) (.obj o' ys)

/-- Two values none of which holds more than the other are the same. -/
theorem sameMap_of_le_of_le {v w : Value} (h : v ≤ w) (h' : w ≤ v) : SameMap v w := by
  induction h with
  | refl v => exact .refl v
  | @arr o o' xs ys hlength hitems ih =>
    obtain ⟨_, _, heq, _, hitems'⟩ := arr_le_iff.mp h'
    cases heq
    exact .arr hlength fun i x y hx hy => ih i x y hx hy (hitems' i y x hy hx)
  | @obj o o' xs ys hfound hmembers ih =>
    obtain ⟨_, _, heq, hmembers'⟩ := obj_le_iff.mp h'
    cases heq
    refine .obj (fun name => ?_) fun name x y hx hy => ?_
    · rw [← Members.exists_get?_iff, ← Members.exists_get?_iff]
      constructor
      · rintro ⟨x, hx⟩
        exact hfound name x hx
      · rintro ⟨y, hy⟩
        obtain ⟨x, hx, -⟩ := hmembers' name y hy
        exact ⟨x, hx⟩
    · obtain ⟨x', hx', hle⟩ := hmembers' name y hy
      rw [hx] at hx'
      cases hx'
      exact ih name x y hx hy hle

/-! ## What is made of some data -/

/-- A value is made of a document: members of the document are left out, and nulls are put in. The
containers of the document itself are as they were. -/
inductive Derives : Json → Value → Prop
  | scalar {d : Json} : d.items? = none → d.members? = none → Derives d (.ofJson d)
  | arr {items : List Json} {origin : Origin} {values : List Value} :
      (origin = .given → values = items.map Value.ofJson) → items.length = values.length →
      (∀ (i : Nat) (item : Json) (value : Value), items[i]? = some item →
        values[i]? = some value → Derives item value) →
      Derives (.arr items) (.arr origin values)
  | obj {ms : Members Json} {origin : Origin} {values : Members Value} :
      (origin = .given → values = Value.ofMembers ms) → (Members.names values).Nodup →
      (∀ name value d, values.get? name = some value → ms.get? name = some d → Derives d value) →
      (∀ name value, values.get? name = some value → ms.get? name = none → value = .null) →
      Derives (.obj ms) (.obj origin values)

/-- A value may stand under a name of what is made of an object. -/
def DerivesAt (ms : Members Json) (name : String) (value : Value) : Prop :=
  (∀ d, ms.get? name = some d → Derives d value) ∧ (ms.get? name = none → value = .null)

theorem derives_obj_iff {ms : Members Json} {origin : Origin} {values : Members Value} :
    Derives (.obj ms) (.obj origin values) ↔
      (origin = .given → values = Value.ofMembers ms) ∧ (Members.names values).Nodup ∧
        ∀ name value, values.get? name = some value → DerivesAt ms name value := by
  constructor
  · rintro (_ | _ | ⟨hgiven, hnodup, hfound, hmissing⟩)
    · rename_i hmembers
      simp [Json.members?] at hmembers
    · exact ⟨hgiven, hnodup, fun name value hvalue =>
        ⟨fun d => hfound name value d hvalue, hmissing name value hvalue⟩⟩
  · rintro ⟨hgiven, hnodup, hall⟩
    exact .obj hgiven hnodup (fun name value d hvalue => (hall name value hvalue).1 d)
      fun name value hvalue => (hall name value hvalue).2

/-- Data is made of itself. -/
theorem derives_ofJson {d : Json} (hd : d.IsData) : Derives d (.ofJson d) := by
  induction d using Json.induction with
  | scalar j hitems hmembers => exact .scalar hitems hmembers
  | arr items ih =>
    unfold Value.ofJson
    rw [Value.ofItems_eq_map]
    refine .arr (fun _ => rfl) (List.length_map _).symm fun i item value hitem hvalue => ?_
    rw [List.getElem?_map, hitem] at hvalue
    cases hvalue
    have hmem := List.mem_of_getElem? hitem
    exact ih item hmem (Json.hereditary_every.item hd hmem)
  | obj ms ih =>
    unfold Value.ofJson
    refine .obj (fun _ => rfl) ?_ (fun name value d hvalue hfound => ?_)
      fun name value hvalue hnone => ?_
    · rw [Value.names_ofMembers]
      exact (Json.every_obj.mp hd).1
    · rw [Value.get?_ofMembers, hfound] at hvalue
      cases hvalue
      exact ih _ (Members.mem_of_get? hfound) (Json.hereditary_every.found hd hfound)
    · rw [Value.get?_ofMembers, hnone] at hvalue
      simp at hvalue

/-- What is made of a scalar is that scalar. -/
theorem Derives.eq_ofJson {d : Json} {v : Value} (h : Derives d v) (hitems : d.items? = none)
    (hmembers : d.members? = none) : v = .ofJson d := by
  cases h with
  | scalar => rfl
  | arr => simp [Json.items?] at hitems
  | obj => simp [Json.members?] at hmembers

/-! ## Joining -/

/-- Lists of one length are joined place by place. -/
theorem joinItems_ok {first : Nat} {xs ys us : List Value} (hlength : xs.length = ys.length)
    (h : Value.joinItems first xs ys = .ok us) : xs.length = us.length ∧
      ∀ (i : Nat) (x y u : Value), xs[i]? = some x → ys[i]? = some y → us[i]? = some u →
        x.join y = .ok u := by
  induction xs generalizing ys us first with
  | nil =>
    unfold Value.joinItems at h
    cases h
    simp
  | cons x xs ih =>
    cases ys with
    | nil => simp at hlength
    | cons y ys =>
      unfold Value.joinItems at h
      obtain ⟨u, hu, h⟩ := bind_ok_iff.mp h
      obtain ⟨us', hus, h⟩ := bind_ok_iff.mp h
      cases h
      obtain ⟨hlength', hall⟩ := ih (Nat.succ.inj hlength) hus
      refine ⟨congrArg Nat.succ hlength', fun i x' y' u' hx hy hu' => ?_⟩
      cases i with
      | zero =>
        cases hx
        cases hy
        cases hu'
        exact mapError_ok_iff.mp hu
      | succ i => exact hall i x' y' u' hx hy hu'

/-- Members are joined with those of their names. -/
theorem joinMembers_ok {xs ys us : Members Value} (h : Value.joinMembers xs ys = .ok us) :
    Members.Pairs (fun name x u => (∀ y, ys.get? name = some y → x.join y = .ok u) ∧
      (ys.get? name = none → u = x)) xs us := by
  induction xs generalizing us with
  | nil =>
    unfold Value.joinMembers at h
    cases h
    exact .nil
  | cons m xs ih =>
    obtain ⟨name, x⟩ := m
    unfold Value.joinMembers at h
    cases hy : ys.get? name with
    | none =>
      simp only [hy] at h
      obtain ⟨us', hus, h⟩ := bind_ok_iff.mp h
      cases h
      refine .cons ⟨rfl, ?_, fun _ => rfl⟩ (ih hus)
      simp [hy]
    | some y =>
      simp only [hy] at h
      obtain ⟨u, hu, h⟩ := bind_ok_iff.mp h
      obtain ⟨us', hus, h⟩ := bind_ok_iff.mp h
      cases h
      refine .cons ⟨rfl, ?_, ?_⟩ (ih hus)
      · intro y' hy'
        rw [hy] at hy'
        cases hy'
        exact mapError_ok_iff.mp hu
      · simp [hy]

/-- Under each name of the joined object stands what the members of both under that name make
together, or the one member that is there. -/
theorem get?_joined {xs ys us : Members Value} (hxs : (Members.names xs).Nodup)
    (hys : (Members.names ys).Nodup) (h : Value.joinMembers xs ys = .ok us) :
    (∀ name x, xs.get? name = some x → ∃ u,
        Members.get? name (Members.ofList (us ++ ys.filter fun y => !Members.has y.1 xs)) = some u ∧
        (∀ y, ys.get? name = some y → x.join y = .ok u) ∧ (ys.get? name = none → u = x)) ∧
      ∀ name, xs.get? name = none →
        Members.get? name (Members.ofList (us ++ ys.filter fun y => !Members.has y.1 xs)) =
          ys.get? name := by
  have hpairs := joinMembers_ok h
  have hnodup : ((us ++ ys.filter fun y => !Members.has y.1 xs).map Prod.fst).Nodup := by
    rw [List.map_append, List.nodup_append]
    refine ⟨?_, hys.sublist (List.filter_sublist.map Prod.fst), ?_⟩
    · rw [hpairs.names_eq] at hxs
      exact hxs
    · rintro name hname _ hother rfl
      obtain ⟨m, hm, rfl⟩ := List.mem_map.mp hother
      have hnot := (List.mem_filter.mp hm).2
      rw [Bool.not_eq_true', ← Bool.not_eq_true, Members.has_iff, hpairs.names_eq] at hnot
      exact hnot hname
  simp only [Members.get?_ofList hnodup, Members.get?_append]
  constructor
  · intro name x hx
    obtain ⟨u, hu, hjoined⟩ := hpairs.found hx
    exact ⟨u, by rw [hu]; rfl, hjoined⟩
  · intro name hx
    have hhas : Members.has name xs = false := by
      rw [← Bool.not_eq_true, Members.has_iff]
      exact Members.get?_eq_none_iff.mp hx
    rw [hpairs.get?_none hx, Option.none_or, Members.get?_filter fun name => !Members.has name xs]
    simp [hhas]

theorem isLUB_pair {v w u : Value} :
    IsLUB {v, w} u ↔ v ≤ u ∧ w ≤ u ∧ ∀ b, v ≤ b → w ≤ b → u ≤ b := by
  simp [IsLUB, IsLeast, upperBounds, lowerBounds, and_assoc]

/-- Lists are joined in the list of what their items are joined in. -/
theorem isLUB_arr {o o' : Origin} {xs ys us : List Value} (hys : xs.length = ys.length)
    (hus : xs.length = us.length)
    (h : ∀ (i : Nat) (x y u : Value), xs[i]? = some x → ys[i]? = some y → us[i]? = some u →
      IsLUB {x, y} u) : IsLUB {Value.arr o xs, Value.arr o' ys} (Value.arr .made us) := by
  refine isLUB_pair.mpr ⟨?_, ?_, fun b hx hy => ?_⟩
  · refine arr_le_iff.mpr ⟨_, us, rfl, hus, fun i x u hx hu => ?_⟩
    obtain ⟨y, hy⟩ := exists_getElem? hys hx
    exact (isLUB_pair.mp (h i x y u hx hy hu)).1
  · refine arr_le_iff.mpr ⟨_, us, rfl, hys.symm.trans hus, fun i y u hy hu => ?_⟩
    obtain ⟨x, hx⟩ := exists_getElem? hys.symm hy
    exact (isLUB_pair.mp (h i x y u hx hy hu)).2.1
  · obtain ⟨_, bs, rfl, hbs, hxb⟩ := arr_le_iff.mp hx
    obtain ⟨_, _, heq, -, hyb⟩ := arr_le_iff.mp hy
    cases heq
    refine arr_le_iff.mpr ⟨_, bs, rfl, hus.symm.trans hbs, fun i u b hu hb => ?_⟩
    obtain ⟨x, hx⟩ := exists_getElem? hus.symm hu
    obtain ⟨y, hy⟩ := exists_getElem? hys hx
    exact (isLUB_pair.mp (h i x y u hx hy hu)).2.2 b (hxb i x b hx hb) (hyb i y b hy hb)

/-- Objects are joined in the object of what their members are joined in. -/
theorem isLUB_obj {o o' : Origin} {xs ys us : Members Value}
    (hboth : ∀ name x y, xs.get? name = some x → ys.get? name = some y →
      ∃ u, us.get? name = some u ∧ IsLUB {x, y} u)
    (hleft : ∀ name x, xs.get? name = some x → ys.get? name = none → us.get? name = some x)
    (hright : ∀ name, xs.get? name = none → us.get? name = ys.get? name) :
    IsLUB {Value.obj o xs, Value.obj o' ys} (Value.obj .made us) := by
  refine isLUB_pair.mpr ⟨?_, ?_, fun b hx hy => ?_⟩
  · refine obj_le_iff.mpr ⟨_, us, rfl, fun name x hx => ?_⟩
    cases hy : ys.get? name with
    | none => exact ⟨x, hleft name x hx hy, le_rfl⟩
    | some y =>
      obtain ⟨u, hu, hlub⟩ := hboth name x y hx hy
      exact ⟨u, hu, (isLUB_pair.mp hlub).1⟩
  · refine obj_le_iff.mpr ⟨_, us, rfl, fun name y hy => ?_⟩
    cases hx : xs.get? name with
    | none => exact ⟨y, (hright name hx).trans hy, le_rfl⟩
    | some x =>
      obtain ⟨u, hu, hlub⟩ := hboth name x y hx hy
      exact ⟨u, hu, (isLUB_pair.mp hlub).2.1⟩
  · obtain ⟨_, bs, rfl, hxb⟩ := obj_le_iff.mp hx
    obtain ⟨_, _, heq, hyb⟩ := obj_le_iff.mp hy
    cases heq
    refine obj_le_iff.mpr ⟨_, bs, rfl, fun name u hu => ?_⟩
    cases hx : xs.get? name with
    | none =>
      rw [hright name hx] at hu
      exact hyb name u hu
    | some x =>
      obtain ⟨b, hb, hle⟩ := hxb name x hx
      cases hy : ys.get? name with
      | none =>
        rw [hleft name x hx hy] at hu
        cases hu
        exact ⟨b, hb, hle⟩
      | some y =>
        obtain ⟨u', hu', hlub⟩ := hboth name x y hx hy
        rw [hu] at hu'
        cases hu'
        obtain ⟨b', hb', hle'⟩ := hyb name y hy
        rw [hb] at hb'
        cases hb'
        exact ⟨b, hb, (isLUB_pair.mp hlub).2.2 b hle hle'⟩

theorem identical_arr {o o' : Origin} {xs ys : List Value}
    (h : Value.identical (.arr o xs) (.arr o' ys) = true) : o = .given ∧ o' = .given := by
  cases o <;> cases o' <;> simp [Value.identical] at h ⊢

theorem identical_obj {o o' : Origin} {xs ys : Members Value}
    (h : Value.identical (.obj o xs) (.obj o' ys) = true) : o = .given ∧ o' = .given := by
  cases o <;> cases o' <;> simp [Value.identical] at h ⊢

/-- Two values that are made of the same data are joined in the least value that holds both, and it
is made of that data too. -/
theorem isLUB_join {d : Json} {v w u : Value} (hv : Derives d v) (hw : Derives d w)
    (hu : v.join w = .ok u) : Derives d u ∧ IsLUB {v, w} u := by
  induction hv generalizing w u with
  | @scalar d hitems hmembers =>
    obtain rfl := hw.eq_ofJson hitems hmembers
    have hself : u = .ofJson d := by
      cases d with
      | arr => simp [Json.items?] at hitems
      | obj => simp [Json.members?] at hmembers
      | _ =>
        simp only [Value.ofJson, Value.join] at hu ⊢
        split at hu <;> simp_all
    subst hself
    exact ⟨hw, by simp⟩
  | @arr items origin values hgiven hlength hvalues ih =>
    cases hw with
    | scalar hitems => simp [Json.items?] at hitems
    | @arr _ origin' values' hgiven' hlength' hvalues' =>
      unfold Value.join at hu
      split at hu
      · rename_i hsame
        obtain ⟨rfl, rfl⟩ := identical_arr hsame
        cases hu
        rw [hgiven' rfl, ← hgiven rfl]
        exact ⟨.arr hgiven hlength hvalues, by simp⟩
      · simp only at hu
        rw [if_pos (hlength.symm.trans hlength')] at hu
        obtain ⟨us, hus, rfl⟩ := map_ok_iff.mp hu
        obtain ⟨hlengthU, hjoined⟩ := joinItems_ok (hlength.symm.trans hlength') hus
        have hall : ∀ (i : Nat) (item : Json) (x y u : Value), items[i]? = some item →
            values[i]? = some x → values'[i]? = some y → us[i]? = some u →
              Derives item u ∧ IsLUB {x, y} u := by
          intro i item x y u hitem hx hy hu
          exact ih i item x hitem hx (hvalues' i item y hitem hy) (hjoined i x y u hx hy hu)
        constructor
        · refine .arr (by simp) (hlength.trans hlengthU) fun i item u hitem hu => ?_
          obtain ⟨x, hx⟩ := exists_getElem? hlength hitem
          obtain ⟨y, hy⟩ := exists_getElem? hlength' hitem
          exact (hall i item x y u hitem hx hy hu).1
        · refine isLUB_arr (hlength.symm.trans hlength') hlengthU fun i x y u hx hy hu => ?_
          obtain ⟨item, hitem⟩ := exists_getElem? hlength.symm hx
          exact (hall i item x y u hitem hx hy hu).2
  | @obj ms origin values hgiven hnodup hfound hmissing ih =>
    cases hw with
    | scalar _ hmembers => simp [Json.members?] at hmembers
    | @obj _ origin' values' hgiven' hnodup' hfound' hmissing' =>
      unfold Value.join at hu
      split at hu
      · rename_i hsame
        obtain ⟨rfl, rfl⟩ := identical_obj hsame
        cases hu
        rw [hgiven' rfl, ← hgiven rfl]
        exact ⟨.obj hgiven hnodup hfound hmissing, by simp⟩
      · obtain ⟨shared, hshared, rfl⟩ := map_ok_iff.mp hu
        obtain ⟨hleft, hright⟩ := get?_joined hnodup hnodup' hshared
        have hall : ∀ name x y u, values.get? name = some x → values'.get? name = some y →
            x.join y = .ok u → IsLUB {x, y} u ∧ DerivesAt ms name u := by
          intro name x y u hx hy hxy
          cases hd : ms.get? name with
          | some d =>
            obtain ⟨hderives, hlub⟩ := ih name x d hx hd (hfound' name y d hy hd) hxy
            refine ⟨hlub, fun d' hd' => ?_, by simp [hd]⟩
            rw [hd] at hd'
            cases hd'
            exact hderives
          | none =>
            obtain rfl := hmissing name x hx hd
            obtain rfl := hmissing' name y hy hd
            cases hxy
            exact ⟨by simp, by simp [hd], fun _ => rfl⟩
        have hmember : ∀ name u,
            Members.get? name (Members.ofList
              (shared ++ values'.filter fun y => !Members.has y.1 values)) = some u →
            DerivesAt ms name u := by
          intro name u hu
          cases hx : values.get? name with
          | none =>
            rw [hright name hx] at hu
            exact ⟨fun d => hfound' name u d hu, hmissing' name u hu⟩
          | some x =>
            obtain ⟨u', hu', hxy, hux⟩ := hleft name x hx
            rw [hu] at hu'
            cases hu'
            cases hy : values'.get? name with
            | some y => exact (hall name x y u hx hy (hxy y hy)).2
            | none =>
              obtain rfl := hux hy
              exact ⟨fun d => hfound name u d hx, hmissing name u hx⟩
        constructor
        · exact derives_obj_iff.mpr ⟨by simp, Members.nodup_ofList _, hmember⟩
        · refine isLUB_obj (fun name x y hx hy => ?_) (fun name x hx hy => ?_) hright
          · obtain ⟨u, hu, hxy, -⟩ := hleft name x hx
            exact ⟨u, hu, (hall name x y u hx hy (hxy y hy)).1⟩
          · obtain ⟨u, hu, -, hux⟩ := hleft name x hx
            rw [hu, hux hy]

/-- What is joined with further values stands for the two values that were joined. -/
theorem isLUB_insert {v w u r : Value} {s : Set Value} (h : IsLUB {v, w} u)
    (hr : IsLUB (insert u s) r) : IsLUB (insert v (insert w s)) r := by
  obtain ⟨hv, hw, hleast⟩ := isLUB_pair.mp h
  have hbounds : upperBounds (insert v (insert w s)) = upperBounds (insert u s) := by
    ext b
    simp only [upperBounds_insert, Set.mem_inter_iff, Set.mem_Ici, ← and_assoc]
    apply and_congr_left
    intro _
    exact ⟨fun hb => hleast b hb.1 hb.2, fun hb => ⟨hv.trans hb, hw.trans hb⟩⟩
  unfold IsLUB at hr ⊢
  rwa [hbounds]

end JsonModel
