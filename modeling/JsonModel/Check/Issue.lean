-- What a check reports: an issue is a fault at a place of the data.
import JsonModel.Data.Shown

namespace JsonModel

/-- One step of a path into the data. -/
inductive Step
  | key (name : String)
  | index (i : Nat)
deriving DecidableEq

/-- What a type check expects. -/
inductive Expected
  | string | number | int | boolean | null | array | object | record | bytes
  /-- A key that must be there. -/
  | presentKey
deriving DecidableEq

/-- The word for what is expected. -/
def Expected.name : Expected → String
  | string => "string"
  | number => "number"
  | int => "int"
  | boolean => "boolean"
  | null => "null"
  | array => "array"
  | object => "object"
  | record => "record"
  | bytes => "Uint8Array"
  | presentKey => "nonoptional"

/-- The word for what was received. -/
def Value.kindName : Value → String
  | .undefined => "undefined"
  | .null => "null"
  | .bool _ => "boolean"
  | .num n => if n.isFinite then "number" else n.text
  | .str _ => "string"
  | .bytes .. => "Uint8Array"
  | .secretText _ => "SecretString"
  | .secretBytes _ => "SecretBytes"
  | .function _ => "function"
  | .arr .. => "array"
  | .obj .. => "object"

/-- What the length of a value counts. -/
inductive Measure
  | characters | items
  /-- The value only says that it has a length. -/
  | unknown
deriving DecidableEq

/-- The length of a value that has one, and what it counts. In a text the characters count, not the
16-bit units that write them. Any object may say how long it is, and what it says is taken as a
number. -/
def Value.length? : Value → Option (Measure × Number)
  | .str s => some (.characters, .ofNat s.length)
  | .arr _ items => some (.items, .ofNat items.length)
  | .bytes _ content => some (.unknown, .ofNat content.length)
  | .secretBytes secret => some (.unknown, .ofNat secret.length)
  | .function arity => some (.unknown, .ofNat arity)
  | .obj _ ms =>
    match Members.get? "length" ms with
    | none => none
    | some .undefined => none
    | some said => some (.unknown, said.asNumber)
  | _ => none

/-- What is wrong with a value. -/
inductive Fault
  | wrongType (expected : Expected) (received : String)
  /-- No variant of a union accepts the value. -/
  | noVariant
  | badJson
  | belowRange (bound : Number) (inclusive : Bool)
  | aboveRange (bound : Number) (inclusive : Bool)
  | belowSafeRange
  | aboveSafeRange
  | notMultiple (step : Number)
  | tooShort (measure : Measure) (bound : Number)
  | tooLong (measure : Measure) (bound : Number)
  /-- A text that does not have its form. -/
  | badForm (form : String)
  /-- A text that has its form but is refused. -/
  | refused (message : String)
  | unknownKeys (names : List String)
  /-- What a validator said. -/
  | validator (name message : String)

namespace Fault

/-- The word for the kind of a fault. -/
def code : Fault → String
  | wrongType .. => "invalid_type"
  | noVariant => "invalid_union"
  | badJson => "custom"
  | belowRange .. | belowSafeRange | tooShort .. => "too_small"
  | aboveRange .. | aboveSafeRange | tooLong .. => "too_big"
  | notMultiple _ => "not_multiple_of"
  | badForm _ => "invalid_format"
  | refused _ => "custom"
  | unknownKeys _ => "unrecognized_keys"
  | validator .. => "custom"

/-- The sign of a bound. -/
def boundSign (sign : String) (inclusive : Bool) : String := if inclusive then sign ++ "=" else sign

/-- The names in quotes with commas between them. -/
def quotedNames (names : List String) : String :=
  ", ".intercalate (names.map fun name => "\"" ++ name ++ "\"")

/-- What is expected of a length: a sign and a bound. -/
def lengthWording (measure : Measure) (sign : String) (bound : Number) : String :=
  match measure with
  | .characters => "expected string to have " ++ sign ++ bound.text ++ " characters"
  | .items => "expected array to have " ++ sign ++ bound.text ++ " items"
  | .unknown => "expected unknown to be " ++ sign ++ bound.text

/-- The message of a fault. -/
def message : Fault → String
  | wrongType expected received =>
    "Invalid input: expected " ++ expected.name ++ ", received " ++ received
  | noVariant => "Invalid input"
  | badJson => "Invalid JSON"
  | belowRange bound inclusive =>
    "Too small: expected number to be " ++ boundSign ">" inclusive ++ bound.text
  | aboveRange bound inclusive =>
    "Too big: expected number to be " ++ boundSign "<" inclusive ++ bound.text
  | belowSafeRange => "Too small: expected int to be >=" ++ Number.minSafe.text
  | aboveSafeRange => "Too big: expected int to be <=" ++ Number.maxSafe.text
  | notMultiple step => "Invalid number: must be a multiple of " ++ step.text
  | tooShort measure bound => "Too small: " ++ lengthWording measure ">=" bound
  | tooLong measure bound => "Too big: " ++ lengthWording measure "<=" bound
  | badForm form => "Invalid " ++ form
  | refused message => message
  | unknownKeys names =>
    (if names.length = 1 then "Unrecognized key: " else "Unrecognized keys: ") ++ quotedNames names
  | validator _ message => if message = "" then "Invalid input" else message

/-- A fault after which no further check of the value makes sense. -/
def aborts : Fault → Bool
  | wrongType .. | noVariant | badJson => true
  | _ => false

end Fault

/-- A fault and the path to the value that has it. -/
structure Issue where
  path : List Step
  fault : Fault

namespace Issue

/-- An issue of the checked value itself. -/
def here (fault : Fault) : Issue := ⟨[], fault⟩

/-- The issue as seen from the container that has the value under a step. -/
def under (step : Step) (issue : Issue) : Issue := ⟨step :: issue.path, issue.fault⟩

end Issue
end JsonModel
