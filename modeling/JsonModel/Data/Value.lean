-- The values that are checked and the values that come out of a check. Beyond
-- JSON there are bytes, secrets, the undefined value and functions.
import JsonModel.Json.Basic

namespace JsonModel

/-- Whether a container is one of the data or was made by a check. Two containers of the data met
at one place are one and the same; a container made by a check is no other's. -/
inductive Origin
  | given | made
deriving DecidableEq

/-- A value. -/
inductive Value
  | undefined
  | null
  | bool (b : Bool)
  | num (n : Number)
  | str (s : String)
  | bytes (origin : Origin) (content : List UInt8)
  | secretText (secret : String)
  | secretBytes (secret : List UInt8)
  /-- A function of some number of arguments. -/
  | function (arity : Nat)
  | arr (origin : Origin) (items : List Value)
  | obj (origin : Origin) (members : List (String × Value))

namespace Value

/-! ## JSON as data -/

mutual

/-- A document as data. -/
def ofJson : Json → Value
  | .null => .null
  | .bool b => .bool b
  | .num n => .num n
  | .str s => .str s
  | .arr items => .arr .given (ofItems items)
  | .obj ms => .obj .given (ofMembers ms)

/-- Each item as data. -/
def ofItems : List Json → List Value
  | [] => []
  | item :: items => ofJson item :: ofItems items

/-- Each member as data. -/
def ofMembers : List (String × Json) → List (String × Value)
  | [] => []
  | (name, value) :: ms => (name, ofJson value) :: ofMembers ms

end

mutual

/-- A document as a value that was made: its containers are new. -/
def makeJson : Json → Value
  | .null => .null
  | .bool b => .bool b
  | .num n => .num n
  | .str s => .str s
  | .arr items => .arr .made (makeItems items)
  | .obj ms => .obj .made (makeMembers ms)

/-- Each item as a new value. -/
def makeItems : List Json → List Value
  | [] => []
  | item :: items => makeJson item :: makeItems items

/-- Each member as a new value. -/
def makeMembers : List (String × Json) → List (String × Value)
  | [] => []
  | (name, value) :: ms => (name, makeJson value) :: makeMembers ms

end

/-! ## Reading keys -/

/-- The names that every object answers to with a function, declared or not, and how many arguments
the function takes. -/
def inheritedFunctions : List (String × Nat) :=
  [("constructor", 1), ("toString", 0), ("toLocaleString", 0), ("valueOf", 0),
    ("hasOwnProperty", 1), ("isPrototypeOf", 1), ("propertyIsEnumerable", 1),
    ("__defineGetter__", 2), ("__defineSetter__", 2), ("__lookupGetter__", 1),
    ("__lookupSetter__", 1)]

/-- The names that bytes answer to with a function beside those of every object. -/
def byteFunctions : List (String × Nat) :=
  [("constructor", 3), ("at", 1), ("copyWithin", 2), ("entries", 0), ("every", 1), ("fill", 1),
    ("filter", 1), ("find", 1), ("findIndex", 1), ("findLast", 1), ("findLastIndex", 1),
    ("forEach", 1), ("includes", 1), ("indexOf", 1), ("join", 1), ("keys", 0), ("lastIndexOf", 1),
    ("map", 1), ("reduce", 1), ("reduceRight", 1), ("reverse", 0), ("set", 1), ("slice", 2),
    ("some", 1), ("sort", 1), ("subarray", 2), ("toReversed", 0), ("toSorted", 1), ("values", 0),
    ("with", 2)]

/-- The entries of bytes, by index. -/
def byteMembers (content : List UInt8) : Members Value :=
  content.zipIdx.map fun (byte, i) =>
    (decimalText i, Value.num (.ofNat byte.toNat))

/-- The members of a value that counts as an object: an object, or bytes by index. -/
def members? : Value → Option (Members Value)
  | .obj _ ms => some ms
  | .bytes _ content => some (byteMembers content)
  | _ => none

/-- What bytes answer to a name that is no index. -/
def byteAnswer? (content : List UInt8) (name : String) : Option Value :=
  if name = "length" ∨ name = "byteLength" then some (.num (.ofNat content.length))
  else if name = "byteOffset" then some (.num .zero)
  else if name = "BYTES_PER_ELEMENT" then some (.num (.ofNat 1))
  else (List.lookup name byteFunctions).map .function

/-- What a value answers to a name that is not one of its members. -/
def inherited? (v : Value) (name : String) : Option Value :=
  let common := (List.lookup name inheritedFunctions).map .function
  match v with
  | .bytes _ content => (byteAnswer? content name).or common
  | _ => common

/-- What a value answers to a name, if it knows the name. -/
def read? (v : Value) (name : String) : Option Value :=
  match v.members?.bind (Members.get? name) with
  | some value => some value
  | none => v.inherited? name

/-- Null or undefined. -/
def isNullish : Value → Bool
  | .null | .undefined => true
  | _ => false

end Value
end JsonModel
