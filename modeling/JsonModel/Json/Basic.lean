-- JSON documents. The members of an object keep their order.
import JsonModel.Number.Basic
import JsonModel.Json.Members

namespace JsonModel

/-- A JSON document. -/
inductive Json
  | null
  | bool (b : Bool)
  | num (n : Number)
  | str (s : String)
  | arr (items : List Json)
  | obj (members : List (String × Json))

namespace Json

/-! ## Equality -/

mutual

/-- Two documents are equal, the order of members included. -/
def beq : Json → Json → Bool
  | .null, .null => true
  | .bool a, .bool b => a == b
  | .num a, .num b => a == b
  | .str a, .str b => a == b
  | .arr as, .arr bs => beqItems as bs
  | .obj as, .obj bs => beqMembers as bs
  | _, _ => false

/-- Item by item. -/
def beqItems : List Json → List Json → Bool
  | [], [] => true
  | a :: as, b :: bs => beq a b && beqItems as bs
  | _, _ => false

/-- Member by member. -/
def beqMembers : List (String × Json) → List (String × Json) → Bool
  | [], [] => true
  | (k, a) :: as, (l, b) :: bs => k == l && beq a b && beqMembers as bs
  | _, _ => false

end

instance : BEq Json := ⟨beq⟩

/-! ## Nesting -/

mutual

/-- How deep a document is nested. -/
def height : Json → Nat
  | .arr items => heightItems items + 1
  | .obj ms => heightMembers ms + 1
  | _ => 1

/-- The greatest height of some items. -/
def heightItems : List Json → Nat
  | [] => 0
  | item :: items => max item.height (heightItems items)

/-- The greatest height of some members. -/
def heightMembers : List (String × Json) → Nat
  | [] => 0
  | (_, value) :: ms => max value.height (heightMembers ms)

end

/-! ## Parts -/

/-- The members of an object. -/
def members? : Json → Option (Members Json)
  | .obj ms => some ms
  | _ => none

/-- The items of a list. -/
def items? : Json → Option (List Json)
  | .arr items => some items
  | _ => none

/-- The text of a text. -/
def str? : Json → Option String
  | .str s => some s
  | _ => none

/-- The number of a number. -/
def num? : Json → Option Number
  | .num n => some n
  | _ => none

/-- A member of an object. -/
def get? (name : String) (j : Json) : Option Json := j.members?.bind (Members.get? name)

/-- A value that counts as true in a condition: not null, false, zero, NaN or the empty text. -/
def isTruthy : Json → Bool
  | .null => false
  | .bool b => b
  | .num n => !(n.same .zero) && n != .nan
  | .str s => s != ""
  | .arr _ => true
  | .obj _ => true

end Json
end JsonModel
