-- Values as they are shown in a text, and as the words that they are taken for where
-- a text or a number is asked for. What is secret never shows: a mask stands in its
-- place, and the length of the mask says nothing of the secret.
import JsonModel.Bytes.Utf8
import JsonModel.Data.Value
import JsonModel.Number.Literal

namespace JsonModel.Value

/-- What stands for a secret wherever a value is shown. -/
def mask : String := "**********"

/-- A secret with the kind of its content. -/
def secretLabel? : Value → Option String
  | .secretText _ => some ("SecretString('" ++ mask ++ "')")
  | .secretBytes _ => some ("SecretBytes('" ++ mask ++ "')")
  | _ => none

/-- Bytes as numbers. -/
def byteNumbers (content : List UInt8) : List Json :=
  content.map fun byte => .num (.ofNat byte.toNat)

/-- Bytes as they are shown: those that a check made as a list, those of the data by index. -/
def shownBytes (origin : Origin) (content : List UInt8) : Json :=
  match origin with
  | .made => .obj [("type", .str "Buffer"), ("data", .arr (byteNumbers content))]
  | .given =>
    .obj ((byteNumbers content).zipIdx.map fun (byte, i) => (decimalText i, byte))

mutual

/-- A value as it is shown, if there is a word of JSON for it. -/
def shown? : Value → Option Json
  | .undefined => none
  | .null => some .null
  | .bool b => some (.bool b)
  | .num n => some (.num n)
  | .str s => some (.str s)
  | .bytes origin content => some (shownBytes origin content)
  | .secretText _ => some (.str mask)
  | .secretBytes _ => some (.str mask)
  | .function _ => none
  | .arr _ items => some (.arr (shownItems items))
  | .obj _ ms => some (.obj (shownMembers ms))

/-- The items of a list as they are shown. A place that has nothing to show holds null. -/
def shownItems : List Value → List Json
  | [] => []
  | item :: items => (shown? item).getD .null :: shownItems items

/-- The members of an object as they are shown. A member that has nothing to show is left out. -/
def shownMembers : List (String × Value) → List (String × Json)
  | [] => []
  | (name, value) :: ms =>
    match shown? value with
    | some j => (name, j) :: shownMembers ms
    | none => shownMembers ms

end

/-- A value as it is shown, null if there is nothing to show. -/
def shown (v : Value) : Json := v.shown?.getD .null

/-! ## Values as words and numbers -/

mutual

/-- A value as a word: null and what is undefined are the empty one, and a list is the words of its
items. The words of functions and of objects matter only in that they write no number: an object
whose own members hide the functions that make its word is not told apart from others. -/
def word : Value → String
  | .undefined => ""
  | .null => ""
  | .bool b => if b then "true" else "false"
  | .num n => n.text
  | .str s => s
  | .bytes .made content => Utf8.decode ⟨content.toArray⟩
  | .bytes .given content => ",".intercalate (content.map fun byte => decimalText byte.toNat)
  | .secretText _ => mask
  | .secretBytes _ => mask
  | .function _ => "function"
  | .arr _ items => ",".intercalate (words items)
  | .obj .. => "[object Object]"

/-- Each item as a word. -/
def words : List Value → List String
  | [] => []
  | item :: items => word item :: words items

end

/-- The number that a value is taken for: what has none of its own is read from its word. -/
def asNumber : Value → Number
  | .undefined => .nan
  | .bool b => .ofNat b.toNat
  | .num n => n
  | v => .ofText v.word

end JsonModel.Value
