-- What comes out of a check follows what went in: scalars stay, lists keep their length, and an
-- object has nothing but members of the data and nulls. Two values that follow the same data can
-- always be joined, and what they make together follows it too.
import JsonModel.Check.Type
import JsonModel.Proofs.Document

namespace JsonModel

/-! ## Documents as values -/

namespace Value

theorem ofItems_eq_map (items : List Json) : ofItems items = items.map ofJson := by
  induction items with
  | nil => rfl
  | cons item items ih => rw [ofItems, ih, List.map_cons]

theorem ofMembers_eq_map (ms : Members Json) :
    ofMembers ms = ms.map fun m => (m.1, ofJson m.2) := by
  induction ms with
  | nil => rfl
  | cons m ms ih => rw [ofMembers, ih, List.map_cons]

theorem names_ofMembers (ms : Members Json) :
    Members.names (ofMembers ms) = Members.names ms := by
  rw [ofMembers_eq_map]
  unfold Members.names
  rw [List.map_map]
  rfl

theorem get?_ofMembers (name : String) (ms : Members Json) :
    Members.get? name (ofMembers ms) = (Members.get? name ms).map ofJson := by
  rw [ofMembers_eq_map, Members.get?_map]

end Value

/-! ## Following -/

/-- A value follows a document: each scalar is unchanged, a list is followed item by item, and each
member of an object either follows the member of that name or is null where there is none. -/
inductive Follows : Json → Value → Prop
  | null : Follows .null .null
  | bool (b : Bool) : Follows (.bool b) (.bool b)
  | num (n : Number) : Follows (.num n) (.num n)
  | str (s : String) : Follows (.str s) (.str s)
  | arr {items : List Json} {origin : Origin} {values : List Value} :
      items.length = values.length →
      (∀ (i : Nat) (item : Json) (value : Value), items[i]? = some item →
        values[i]? = some value → Follows item value) →
      Follows (.arr items) (.arr origin values)
  | obj {ms : Members Json} {origin : Origin} {values : Members Value} :
      (∀ name value, (name, value) ∈ values → ∀ d, ms.get? name = some d → Follows d value) →
      (∀ name value, (name, value) ∈ values → ms.get? name = none → value = .null) →
      Follows (.obj ms) (.obj origin values)

/-- A value may stand under a name of what follows an object. -/
def FollowsAt (ms : Members Json) (name : String) (value : Value) : Prop :=
  (∀ d, ms.get? name = some d → Follows d value) ∧ (ms.get? name = none → value = .null)

theorem follows_obj_iff {ms : Members Json} {origin : Origin} {values : Members Value} :
    Follows (.obj ms) (.obj origin values) ↔
      ∀ name value, (name, value) ∈ values → FollowsAt ms name value := by
  constructor
  · intro h name value hmem
    cases h with
    | obj hfound hmissing => exact ⟨hfound name value hmem, hmissing name value hmem⟩
  · intro h
    exact .obj (fun name value hmem => (h name value hmem).1)
      fun name value hmem => (h name value hmem).2

/-- Data follows itself. -/
theorem follows_ofJson {d : Json} (hd : d.IsData) : Follows d (.ofJson d) := by
  induction d using Json.induction with
  | scalar j hitems hmembers =>
    cases j with
    | null => exact .null
    | bool b => exact .bool b
    | num n => exact .num n
    | str s => exact .str s
    | arr items => simp [Json.items?] at hitems
    | obj ms => simp [Json.members?] at hmembers
  | arr items ih =>
    unfold Value.ofJson
    rw [Value.ofItems_eq_map]
    refine .arr (List.length_map _).symm fun i item value hitem hvalue => ?_
    rw [List.getElem?_map, hitem] at hvalue
    cases hvalue
    have hmem := List.mem_of_getElem? hitem
    exact ih item hmem (Json.hereditary_every.item hd hmem)
  | obj ms ih =>
    unfold Value.ofJson
    rw [Value.ofMembers_eq_map, follows_obj_iff]
    intro name value hvalue
    obtain ⟨⟨name', d⟩, hmem, heq⟩ := List.mem_map.mp hvalue
    cases heq
    have hget : ms.get? name' = some d := Members.get?_of_mem (Json.every_obj.mp hd).1 hmem
    constructor
    · intro d' hd'
      rw [hget] at hd'
      cases hd'
      exact ih _ hmem (Json.hereditary_every.member hd hmem)
    · intro hnone
      rw [hget] at hnone
      simp at hnone

/-! ## Joining what follows the same data -/

/-- Two lists that can be joined place by place can be joined. -/
theorem joinItems_follows {items : List Json} {xs ys : List Value}
    (hxs : items.length = xs.length) (hys : items.length = ys.length)
    (h : ∀ (i : Nat) (item : Json) (x y : Value), items[i]? = some item → xs[i]? = some x →
      ys[i]? = some y → ∃ u, x.join y = .ok u ∧ Follows item u) (first : Nat) :
    ∃ us, Value.joinItems first xs ys = .ok us ∧ items.length = us.length ∧
      ∀ (i : Nat) (item : Json) (u : Value), items[i]? = some item → us[i]? = some u →
        Follows item u := by
  induction items generalizing xs ys first with
  | nil =>
    rw [List.length_nil, eq_comm, List.length_eq_zero_iff] at hxs hys
    subst hxs hys
    exact ⟨[], rfl, rfl, by simp⟩
  | cons item items ih =>
    cases xs with
    | nil => simp at hxs
    | cons x xs =>
      cases ys with
      | nil => simp at hys
      | cons y ys =>
        obtain ⟨u, hu, hfollows⟩ := h 0 item x y rfl rfl rfl
        obtain ⟨us, hus, hlength, hall⟩ := ih (Nat.succ.inj hxs) (Nat.succ.inj hys)
          (fun i item x y hitem hx hy => h (i + 1) item x y hitem hx hy) (first + 1)
        refine ⟨u :: us, ?_, congrArg Nat.succ hlength, ?_⟩
        · unfold Value.joinItems
          rw [hu, hus]
          rfl
        · intro i item' u' hitem' hu'
          cases i with
          | zero =>
            cases hitem'
            cases hu'
            exact hfollows
          | succ i => exact hall i item' u' hitem' hu'

/-- Two lists of members that can be joined name by name can be joined. -/
theorem joinMembers_follows {ms : Members Json} {xs ys : Members Value}
    (hxs : ∀ name x, (name, x) ∈ xs → FollowsAt ms name x)
    (h : ∀ name x y, (name, x) ∈ xs → ys.get? name = some y →
      ∃ u, x.join y = .ok u ∧ FollowsAt ms name u) :
    ∃ us, Value.joinMembers xs ys = .ok us ∧ ∀ name u, (name, u) ∈ us → FollowsAt ms name u := by
  induction xs with
  | nil => exact ⟨[], rfl, by simp⟩
  | cons m xs ih =>
    obtain ⟨name, x⟩ := m
    obtain ⟨us, hus, hall⟩ := ih
      (fun name x hmem => hxs name x (List.mem_cons_of_mem _ hmem))
      (fun name x y hmem => h name x y (List.mem_cons_of_mem _ hmem))
    unfold Value.joinMembers
    have hcons : ∀ {u : Value}, FollowsAt ms name u →
        ∀ name' u', (name', u') ∈ (name, u) :: us → FollowsAt ms name' u' := by
      intro u hu name' u' hmem
      rcases List.mem_cons.mp hmem with heq | hmem
      · cases heq
        exact hu
      · exact hall name' u' hmem
    split
    · rename_i y hy
      obtain ⟨u, hu, hfollows⟩ := h name x y List.mem_cons_self hy
      rw [hu, hus]
      exact ⟨(name, u) :: us, rfl, hcons hfollows⟩
    · rw [hus]
      exact ⟨(name, x) :: us, rfl, hcons (hxs name x List.mem_cons_self)⟩

theorem Number.same_self {n : Number} (h : n ≠ .nan) : n.same n = true := by
  have hposition : ∃ x, n.position = some x := by
    cases n with
    | nan => exact absurd rfl h
    | finite negative size => exact ⟨_, rfl⟩
    | infinite negative => exact ⟨_, rfl⟩
  obtain ⟨x, hx⟩ := hposition
  unfold Number.same
  rw [hx]
  exact decide_eq_true rfl

/-- Two values that follow the same data can be joined, and their join follows it. -/
theorem join_follows {d : Json} (hd : d.IsData) {v w : Value} (hv : Follows d v)
    (hw : Follows d w) : ∃ u, v.join w = .ok u ∧ Follows d u := by
  induction hv generalizing w with
  | null =>
    cases hw
    exact ⟨.null, rfl, .null⟩
  | bool b =>
    cases hw
    exact ⟨.bool b, by simp [Value.join, Value.identical], .bool b⟩
  | num n =>
    cases hw
    have hsame : n.same n = true := Number.same_self hd
    exact ⟨.num n, by simp [Value.join, Value.identical, hsame], .num n⟩
  | str s =>
    cases hw
    exact ⟨.str s, by simp [Value.join, Value.identical], .str s⟩
  | @arr items origin values hlength hvalues ih =>
    cases hw with
    | @arr _ origin' values' hlength' hvalues' =>
      unfold Value.join
      split
      · exact ⟨_, rfl, .arr hlength hvalues⟩
      · simp only
        rw [if_pos (hlength.symm.trans hlength')]
        obtain ⟨us, hus, hlengthU, hall⟩ := joinItems_follows hlength hlength'
          (fun i item x y hitem hx hy => ih i item x hitem hx
            (Json.hereditary_every.item hd (List.mem_of_getElem? hitem))
            (hvalues' i item y hitem hy)) 0
        rw [hus]
        exact ⟨_, rfl, .arr hlengthU hall⟩
  | @obj ms origin values hfound hmissing ih =>
    cases hw with
    | @obj _ origin' values' hfound' hmissing' =>
      unfold Value.join
      split
      · exact ⟨_, rfl, .obj hfound hmissing⟩
      · simp only
        have hleft : ∀ name value, (name, value) ∈ values → FollowsAt ms name value :=
          fun name value hmem => ⟨hfound name value hmem, hmissing name value hmem⟩
        have hright : ∀ name value, (name, value) ∈ values' → FollowsAt ms name value :=
          fun name value hmem => ⟨hfound' name value hmem, hmissing' name value hmem⟩
        have hjoin : ∀ name x y, (name, x) ∈ values → values'.get? name = some y →
            ∃ u, x.join y = .ok u ∧ FollowsAt ms name u := by
          intro name x y hx hy
          have hy' := Members.mem_of_get? hy
          cases hget : ms.get? name with
          | some d =>
            obtain ⟨u, hu, hfollows⟩ := ih name x hx d hget
              (Json.hereditary_every.found hd hget) (hfound' name y hy' d hget)
            refine ⟨u, hu, fun d' hd' => ?_, fun hnone => by simp [hget] at hnone⟩
            rw [hget] at hd'
            cases hd'
            exact hfollows
          | none =>
            rw [hmissing name x hx hget, hmissing' name y hy' hget]
            exact ⟨.null, rfl, fun d hd => by simp [hget] at hd, fun _ => rfl⟩
        obtain ⟨us, hus, hall⟩ := joinMembers_follows hleft hjoin
        rw [hus]
        refine ⟨_, rfl, follows_obj_iff.mpr fun name value hmem => ?_⟩
        rcases List.mem_append.mp (Members.mem_of_mem_ofList hmem) with hmem | hmem
        · exact hall name value hmem
        · exact hright name value (List.mem_filter.mp hmem).1

end JsonModel
