-- Parts of documents. A property that an item takes over from its list, and a member from its
-- object, holds at every place that a pointer leads to. Heights and references are such properties.
import Mathlib.Data.List.Nodup
import JsonModel.Proofs.Members
import JsonModel.Schema.Compile

namespace JsonModel

/-! ## Properties of parts -/

/-- A property that goes from a document to its parts. -/
structure Hereditary (P : Json → Prop) : Prop where
  item : ∀ {items : List Json} {j : Json}, P (.arr items) → j ∈ items → P j
  member : ∀ {ms : Members Json} {name : String} {j : Json}, P (.obj ms) → (name, j) ∈ ms → P j

theorem Hereditary.found {P : Json → Prop} (hP : Hereditary P) {ms : Members Json} {name : String}
    {j : Json} (h : P (.obj ms)) (hj : ms.get? name = some j) : P j :=
  hP.member h (Members.mem_of_get? hj)

theorem Hereditary.step {P : Json → Prop} (hP : Hereditary P) {container j : Json}
    {segment : String} (h : P container) (hj : step? container segment = some j) : P j := by
  unfold step? at hj
  split at hj
  · rw [Option.bind_eq_some_iff] at hj
    obtain ⟨i, -, hi⟩ := hj
    exact hP.item h (List.mem_of_getElem? hi)
  · exact hP.found h hj
  · simp at hj

theorem Hereditary.walk {P : Json → Prop} (hP : Hereditary P) {current j : Json}
    {segments : List String} (h : P current) (hj : walk current segments = .ok j) : P j := by
  induction segments generalizing current with
  | nil =>
    cases hj
    exact h
  | cons segment rest ih =>
    unfold JsonModel.walk at hj
    split at hj
    · rename_i next hnext
      exact ih (hP.step h hnext) hj
    · simp at hj

/-- What a pointer leads to is a part of the document. -/
theorem Hereditary.target {P : Json → Prop} (hP : Hereditary P) {root : Members Json}
    {ref : String} {j : Json} (h : P (.obj root)) (hj : resolveRef ref root = .ok j) : P j := by
  have hwalk : ∀ {current : Json} {segments : List String}, P current →
      (JsonModel.walk current segments).mapError (CompileError.unresolved ref) = .ok j → P j := by
    intro current segments hc hw
    cases hs : JsonModel.walk current segments with
    | error segment => simp [hs, Except.mapError] at hw
    | ok found =>
      rw [hs] at hw
      cases hw
      exact hP.walk hc hs
  unfold resolveRef at hj
  split at hj
  · split at hj
    · rename_i definitions hdefs
      exact hwalk (hP.found h hdefs) hj
    · simp at hj
  · exact hwalk h hj

/-- A pointer that leads nowhere is reported as such, with the segment that is missing. -/
theorem resolveRef_error {ref : String} {root : Members Json} {e : CompileError}
    (h : resolveRef ref root = .error e) : ∃ segment, e = .unresolved ref segment := by
  have hwalk : ∀ {current : Json} {segments : List String},
      (walk current segments).mapError (CompileError.unresolved ref) = .error e →
        ∃ segment, e = .unresolved ref segment := by
    intro current segments hw
    cases hs : walk current segments with
    | error segment =>
      rw [hs] at hw
      cases hw
      exact ⟨segment, rfl⟩
    | ok found => simp [hs, Except.mapError] at hw
  unfold resolveRef at h
  split at h
  · split at h
    · exact hwalk h
    · cases h
      exact ⟨_, rfl⟩
  · exact hwalk h

namespace Json

/-! ## Induction -/

mutual

/-- What goes from all parts of a list or an object to the whole holds of every document. -/
theorem induction {P : Json → Prop}
    (scalar : ∀ j : Json, j.items? = none → j.members? = none → P j)
    (arr : ∀ items : List Json, (∀ item ∈ items, P item) → P (.arr items))
    (obj : ∀ ms : Members Json, (∀ m ∈ ms, P m.2) → P (.obj ms)) : ∀ j : Json, P j
  | .null | .bool _ | .num _ | .str _ => scalar _ rfl rfl
  | .arr items => arr items (induction_items scalar arr obj items)
  | .obj ms => obj ms (induction_members scalar arr obj ms)

theorem induction_items {P : Json → Prop}
    (scalar : ∀ j : Json, j.items? = none → j.members? = none → P j)
    (arr : ∀ items : List Json, (∀ item ∈ items, P item) → P (.arr items))
    (obj : ∀ ms : Members Json, (∀ m ∈ ms, P m.2) → P (.obj ms)) :
    ∀ items : List Json, ∀ item ∈ items, P item
  | [], _, h => absurd h List.not_mem_nil
  | head :: rest, _, h => by
    rcases List.mem_cons.mp h with heq | h
    · rw [heq]
      exact induction scalar arr obj head
    · exact induction_items scalar arr obj rest _ h

theorem induction_members {P : Json → Prop}
    (scalar : ∀ j : Json, j.items? = none → j.members? = none → P j)
    (arr : ∀ items : List Json, (∀ item ∈ items, P item) → P (.arr items))
    (obj : ∀ ms : Members Json, (∀ m ∈ ms, P m.2) → P (.obj ms)) :
    ∀ ms : List (String × Json), ∀ m ∈ ms, P m.2
  | [], _, h => absurd h List.not_mem_nil
  | (_, value) :: rest, _, h => by
    rcases List.mem_cons.mp h with heq | h
    · rw [heq]
      exact induction scalar arr obj value
    · exact induction_members scalar arr obj rest _ h

end

theorem eq_obj_of_members? {j : Json} {ms : Members Json} (h : j.members? = some ms) :
    j = .obj ms := by
  cases j with
  | obj ms' =>
    cases h
    rfl
  | _ => simp [members?] at h

/-! ## Numbers and names everywhere -/

mutual

/-- Every number inside satisfies `number`, and the names of every object inside satisfy `names`. -/
def Every (number : Number → Prop) (names : List String → Prop) : Json → Prop
  | .num n => number n
  | .arr items => EveryItem number names items
  | .obj ms => names (ms.map Prod.fst) ∧ EveryMember number names ms
  | _ => True

/-- Item by item. -/
def EveryItem (number : Number → Prop) (names : List String → Prop) : List Json → Prop
  | [] => True
  | item :: items => item.Every number names ∧ EveryItem number names items

/-- Member by member. -/
def EveryMember (number : Number → Prop) (names : List String → Prop) :
    List (String × Json) → Prop
  | [] => True
  | (_, value) :: ms => value.Every number names ∧ EveryMember number names ms

end

variable {number : Number → Prop} {names : List String → Prop}

theorem everyItem_iff {items : List Json} :
    EveryItem number names items ↔ ∀ item ∈ items, item.Every number names := by
  induction items with
  | nil => simp [EveryItem]
  | cons item items ih => simp [EveryItem, ih]

theorem everyMember_iff {ms : Members Json} :
    EveryMember number names ms ↔ ∀ m ∈ ms, m.2.Every number names := by
  induction ms with
  | nil => simp [EveryMember]
  | cons m ms ih => simp [EveryMember, ih]

theorem every_arr {items : List Json} :
    (Json.arr items).Every number names ↔ ∀ item ∈ items, item.Every number names := by
  rw [Every, everyItem_iff]

theorem every_obj {ms : Members Json} :
    (Json.obj ms).Every number names ↔
      names (Members.names ms) ∧ ∀ m ∈ ms, m.2.Every number names := by
  rw [Every, everyMember_iff]
  rfl

theorem hereditary_every : Hereditary (Every number names) where
  item h hj := every_arr.mp h _ hj
  member h hj := (every_obj.mp h).2 _ hj

/-- What follows for all numbers and for all lists of names follows for the whole document. -/
theorem Every.imp {number' : Number → Prop} {names' : List String → Prop} {j : Json}
    (hnumber : ∀ n, number n → number' n) (hnames : ∀ ns, names ns → names' ns)
    (h : j.Every number names) : j.Every number' names' := by
  induction j using Json.induction with
  | scalar j hitems hmembers =>
    cases j with
    | arr items => simp [items?] at hitems
    | obj ms => simp [members?] at hmembers
    | num n => exact hnumber n h
    | _ => trivial
  | arr items ih => exact every_arr.mpr fun item hmem => ih item hmem (every_arr.mp h item hmem)
  | obj ms ih =>
    obtain ⟨hms, hvalues⟩ := every_obj.mp h
    exact every_obj.mpr ⟨hnames _ hms, fun m hmem => ih m hmem (hvalues m hmem)⟩

theorem Every.and {number' : Number → Prop} {names' : List String → Prop} {j : Json}
    (h : j.Every number names) (h' : j.Every number' names') :
    j.Every (fun n => number n ∧ number' n) fun ns => names ns ∧ names' ns := by
  induction j using Json.induction with
  | scalar j hitems hmembers =>
    cases j with
    | arr items => simp [items?] at hitems
    | obj ms => simp [members?] at hmembers
    | num n => exact ⟨h, h'⟩
    | _ => trivial
  | arr items ih =>
    exact every_arr.mpr fun item hmem => ih item hmem (every_arr.mp h item hmem) (every_arr.mp h' item hmem)
  | obj ms ih =>
    obtain ⟨hms, hvalues⟩ := every_obj.mp h
    obtain ⟨hms', hvalues'⟩ := every_obj.mp h'
    exact every_obj.mpr ⟨⟨hms, hms'⟩, fun m hmem => ih m hmem (hvalues m hmem) (hvalues' m hmem)⟩

/-- No object inside names a member twice. -/
def Distinct (j : Json) : Prop := j.Every (fun _ => True) List.Nodup

/-- What a JSON text can hold: no number is NaN, and no object names a member twice. -/
def IsData (j : Json) : Prop := j.Every (· ≠ .nan) List.Nodup

theorem IsData.distinct {j : Json} (h : j.IsData) : j.Distinct :=
  h.imp (fun _ _ => trivial) fun _ => id

/-! ## Heights -/

theorem height_le_of_item {items : List Json} {j : Json} (h : j ∈ items) :
    j.height ≤ heightItems items := by
  induction items with
  | nil => simp at h
  | cons item items ih =>
    unfold heightItems
    rcases List.mem_cons.mp h with rfl | h
    · exact Nat.le_max_left _ _
    · exact Nat.le_trans (ih h) (Nat.le_max_right _ _)

theorem height_le_of_member {ms : Members Json} {name : String} {j : Json} (h : (name, j) ∈ ms) :
    j.height ≤ heightMembers ms := by
  induction ms with
  | nil => simp at h
  | cons m ms ih =>
    obtain ⟨k, value⟩ := m
    unfold heightMembers
    rcases List.mem_cons.mp h with h | h
    · cases h
      exact Nat.le_max_left _ _
    · exact Nat.le_trans (ih h) (Nat.le_max_right _ _)

theorem hereditary_height (limit : Nat) : Hereditary fun j => j.height ≤ limit where
  item h hj := by
    unfold height at h
    exact Nat.le_trans (height_le_of_item hj) (by omega)
  member h hj := by
    unfold height at h
    exact Nat.le_trans (height_le_of_member hj) (by omega)

/-! ## References -/

mutual

/-- The texts under the reference keyword, at any depth, used or not. -/
def refs : Json → List String
  | .arr items => refsOfItems items
  | .obj ms => refsOfMembers ms
  | _ => []

/-- The references of some items. -/
def refsOfItems : List Json → List String
  | [] => []
  | item :: items => item.refs ++ refsOfItems items

/-- The references of some members. -/
def refsOfMembers : List (String × Json) → List String
  | [] => []
  | (name, value) :: ms =>
    (if name = "$ref" then value.str?.toList else []) ++ value.refs ++ refsOfMembers ms

end

mutual

theorem length_refs_le : ∀ j : Json, j.refs.length ≤ j.refCount
  | .null | .bool _ | .num _ | .str _ => Nat.le_refl _
  | .arr items => length_refsOfItems_le items
  | .obj ms => length_refsOfMembers_le ms

theorem length_refsOfItems_le : ∀ items : List Json,
    (refsOfItems items).length ≤ refCountItems items
  | [] => Nat.le_refl _
  | item :: items => by
    unfold refsOfItems refCountItems
    rw [List.length_append]
    exact Nat.add_le_add (length_refs_le item) (length_refsOfItems_le items)

theorem length_refsOfMembers_le : ∀ ms : Members Json,
    (refsOfMembers ms).length ≤ refCountMembers ms
  | [] => Nat.le_refl _
  | (name, value) :: ms => by
    unfold refsOfMembers refCountMembers
    rw [List.length_append, List.length_append]
    refine Nat.add_le_add (Nat.add_le_add ?_ (length_refs_le value)) (length_refsOfMembers_le ms)
    split
    · cases value <;> simp [str?]
    · simp

end

theorem refs_subset_of_item {items : List Json} {j : Json} (h : j ∈ items) :
    j.refs ⊆ refsOfItems items := by
  induction items with
  | nil => simp at h
  | cons item items ih =>
    unfold refsOfItems
    rcases List.mem_cons.mp h with rfl | h
    · exact List.subset_append_left _ _
    · exact List.subset_append_of_subset_right _ (ih h)

theorem refs_subset_of_member {ms : Members Json} {name : String} {j : Json}
    (h : (name, j) ∈ ms) : j.refs ⊆ refsOfMembers ms := by
  induction ms with
  | nil => simp at h
  | cons m ms ih =>
    obtain ⟨k, value⟩ := m
    unfold refsOfMembers
    rcases List.mem_cons.mp h with h | h
    · cases h
      exact List.subset_append_of_subset_left _ (List.subset_append_right _ _)
    · exact List.subset_append_of_subset_right _ (ih h)

theorem hereditary_refs (known : List String) : Hereditary fun j => j.refs ⊆ known where
  item h hj := List.Subset.trans (refs_subset_of_item hj) h
  member h hj := List.Subset.trans (refs_subset_of_member hj) h

/-- The reference of a node is among its references. -/
theorem reference_mem_refs {node : Members Json} {ref : String} (h : reference? node = some ref) :
    ref ∈ (Json.obj node).refs := by
  have hget : node.get? "$ref" = some (.str ref) := by
    unfold reference? at h
    split at h
    · rename_i text htext
      split at h
      · simp at h
      · cases h
        exact htext
    · simp at h
  have hmem := Members.mem_of_get? hget
  clear h hget
  unfold refs
  induction node with
  | nil => simp at hmem
  | cons m ms ih =>
    obtain ⟨k, value⟩ := m
    unfold refsOfMembers
    rcases List.mem_cons.mp hmem with hm | hm
    · cases hm
      simp [str?]
    · exact List.mem_append_right _ (ih hm)

end Json
end JsonModel
