-- What a schema compiles to: a definition with named fields, each with the type of
-- its values and the limits on them.
import JsonModel.Data.Value
import JsonModel.Schema.Kind

namespace JsonModel

/-! ## Limits and overrides -/

/-- The limits on the values of a field. -/
structure Limits where
  atLeast : Option Number := none
  above : Option Number := none
  atMost : Option Number := none
  below : Option Number := none
  multipleOf : Option Number := none
  minLength : Option Number := none
  maxLength : Option Number := none
  schemes : Option (List String) := none
  strict : Bool := false

/-- What a validator says about the object it was given. -/
inductive Verdict
  | pass
  | complain (message : String)
  /-- It raised a value instead of giving an answer. The text is the message of an error, and for any
  other value the word for it. A value that has no word would stop the check itself, and cannot be
  raised here. -/
  | raise (text : String)

/-- A named check on the whole object, run after the fields. -/
structure Validator where
  name : String
  judge : Value → Verdict

/-- What the caller adds to a definition. -/
structure Overrides where
  /-- The entries that a definition carries and shows as they are. -/
  carried : Members Json := []
  validators : List Validator := []

namespace Overrides

/-- An entry of the configuration, if the configuration is an object. -/
def setting? (o : Overrides) (name : String) : Option Json :=
  (o.carried.get? "config").bind (Json.get? name)

/-- How undeclared keys are treated. A name that is no mode means the default. -/
def extra (o : Overrides) : ExtraMode :=
  (((o.setting? "extra").bind Json.str?).bind ExtraMode.ofName?).getD .ignore

/-- The output is frozen. -/
def frozen (o : Overrides) : Bool := ((o.setting? "frozen").map Json.isTruthy).getD false

end Overrides

/-! ## Types, fields and definitions -/

mutual

/-- The type of a value. -/
inductive TypeDescriptor
  | primitive (kind : Primitive)
  | semantic (kind : Semantic)
  /-- An object of any keys and values. -/
  | mapping
  /-- A list of any items. -/
  | anyList
  | listOf (items : TypeDescriptor)
  | union (variants : List TypeDescriptor)
  | intersection (members : List TypeDescriptor)
  | composite (model : Definition)

/-- A named field. -/
structure Field where
  name : String
  type : TypeDescriptor
  required : Bool
  /-- A missing value is null. -/
  defaultsToNull : Bool
  description : Option String
  /-- The examples; none are recorded as an empty list. -/
  examples : List Json
  limits : Limits

/-- A named model: the fields of the model that it extends, its own fields, and what the caller
adds. -/
structure Definition where
  name : String
  base : List Field
  fields : List Field
  overrides : Overrides

end

namespace TypeDescriptor

/-- A primitive type of one of some kinds. -/
def isPrimitive (kinds : List Primitive) : TypeDescriptor → Bool
  | .primitive kind => kinds.contains kind
  | _ => false

/-- The null type. -/
def isNull (t : TypeDescriptor) : Bool := t.isPrimitive [.null]

/-- The type that accepts null too. A union takes null in, and a type that has null stays. -/
def nullable : TypeDescriptor → TypeDescriptor
  | .primitive .null => .primitive .null
  | .union variants =>
    if variants.any isNull then .union variants else .union (variants ++ [.primitive .null])
  | t => .union [t, .primitive .null]

end TypeDescriptor
end JsonModel
