-- Documents that are written as text and read again. Their shape stays, and so do their numbers, but
-- for those that text cannot tell: what is not finite becomes null, and zero loses its sign.
import JsonModel.Proofs.Compile.Visit

namespace JsonModel

/-! ## What is left of a document -/

/-- The number that the text of a number is read as, if it has one. -/
def Number.reread? (n : Number) : Option Number :=
  if n.isFinite then some (if n.same .zero then .zero else n) else none

namespace Json

mutual

/-- What is left of a document that is written as text and read again. -/
def reread : Json → Json
  | .num n => (n.reread?.map .num).getD .null
  | .arr items => .arr (rereadItems items)
  | .obj ms => .obj (rereadMembers ms)
  | j => j

/-- Item by item. -/
def rereadItems : List Json → List Json
  | [] => []
  | item :: items => item.reread :: rereadItems items

/-- Member by member. -/
def rereadMembers : List (String × Json) → List (String × Json)
  | [] => []
  | (name, value) :: ms => (name, value.reread) :: rereadMembers ms

end

@[simp] theorem reread_str (s : String) : (Json.str s).reread = .str s := by simp [reread]

@[simp] theorem reread_obj (ms : Members Json) : (Json.obj ms).reread = .obj (rereadMembers ms) := by
  rw [reread]

theorem rereadItems_eq_map (items : List Json) : rereadItems items = items.map reread := by
  induction items with
  | nil => rw [rereadItems, List.map_nil]
  | cons item items ih => rw [rereadItems, ih, List.map_cons]

theorem rereadMembers_eq_map (ms : Members Json) :
    rereadMembers ms = ms.map fun m => (m.1, m.2.reread) := by
  induction ms with
  | nil => rw [rereadMembers, List.map_nil]
  | cons m ms ih => rw [rereadMembers, ih, List.map_cons]

@[simp] theorem reread_arr (items : List Json) :
    (Json.arr items).reread = .arr (items.map reread) := by rw [reread, rereadItems_eq_map]

@[simp] theorem get?_rereadMembers (name : String) (ms : Members Json) :
    Members.get? name (rereadMembers ms) = (Members.get? name ms).map reread := by
  rw [rereadMembers_eq_map, Members.get?_map]

@[simp] theorem names_rereadMembers (ms : Members Json) :
    Members.names (rereadMembers ms) = Members.names ms := by
  rw [rereadMembers_eq_map]
  unfold Members.names
  rw [List.map_map]
  rfl

end Json

/-! ## Numbers -/

namespace Number

variable {a b n : Number}

theorem reread?_eq_some {m : Number} (h : n.reread? = some m) :
    m = n ∨ n.same .zero = true ∧ m = .zero := by
  unfold reread? at h
  split at h
  · rw [Option.some.injEq] at h
    split at h
    · rename_i hzero
      exact .inr ⟨hzero, h.symm⟩
    · exact .inl h.symm
  · simp at h

theorem position_of_same (h : a.same b = true) : a.position = b.position := by
  unfold same at h
  split at h
  · rename_i x y ha hb
    rw [ha, hb, of_decide_eq_true h]
  · simp at h

/-- A number that is read again stands where it stood. -/
theorem position_reread {m : Number} (h : n.reread? = some m) : m.position = n.position := by
  rcases reread?_eq_some h with hm | ⟨hzero, hm⟩
  · rw [hm]
  · rw [hm, position_of_same hzero]

theorem le_congr_left (h : a.position = b.position) : a.le n = b.le n := by
  unfold le
  rw [h]

theorem le_congr_right (h : a.position = b.position) : n.le a = n.le b := by
  unfold le
  rw [h]

theorem lt_congr_left (h : a.position = b.position) : a.lt n = b.lt n := by
  unfold lt
  rw [h]

theorem lt_congr_right (h : a.position = b.position) : n.lt a = n.lt b := by
  unfold lt
  rw [h]

end Number

/-! ## Keywords of a node that is read again -/

theorem numberAt_reread (node : Members Json) (keyword : String) :
    numberAt (Json.rereadMembers node) keyword =
      (numberAt node keyword).bind Number.reread? := by
  unfold numberAt
  rw [Json.get?_rereadMembers]
  cases node.get? keyword with
  | none => rfl
  | some value =>
    cases value with
    | num n =>
      simp only [Option.map_some, Option.bind_some, Json.num?, Json.reread]
      cases n.reread? <;> rfl
    | _ => simp [Json.reread, Json.num?]

end JsonModel
