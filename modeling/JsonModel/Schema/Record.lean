-- Definitions as JSON documents, and the way back.
import JsonModel.Schema.Descriptor

namespace JsonModel

/-- A member that is listed only if there is a value for it. -/
def optionalMember (name : String) (value : Option Json) : List (String × Json) :=
  match value with
  | some value => [(name, value)]
  | none => []

/-! ## Writing -/

/-- The limits that are set, as members. -/
def Limits.toMembers (limits : Limits) : List (String × Json) :=
  optionalMember "ge" (limits.atLeast.map .num)
    ++ optionalMember "gt" (limits.above.map .num)
    ++ optionalMember "le" (limits.atMost.map .num)
    ++ optionalMember "lt" (limits.below.map .num)
    ++ optionalMember "multipleOf" (limits.multipleOf.map .num)
    ++ optionalMember "minLength" (limits.minLength.map .num)
    ++ optionalMember "maxLength" (limits.maxLength.map .num)
    ++ optionalMember "allowedSchemes" (limits.schemes.map fun schemes => .arr (schemes.map .str))
    ++ optionalMember "strict" (if limits.strict then some (.bool true) else none)

mutual

/-- A type as a document. -/
def TypeDescriptor.toJson : TypeDescriptor → Json
  | .primitive kind => .obj [("kind", .str "primitive"), ("primitive", .str kind.name)]
  | .semantic kind => .obj [("kind", .str "semantic"), ("semantic", .str kind.name)]
  | .mapping => .obj [("kind", .str "mapping")]
  | .anyList => .obj [("kind", .str "collection")]
  | .listOf items => .obj [("kind", .str "collection"), ("items", items.toJson)]
  | .union variants =>
    .obj [("kind", .str "union"), ("variants", .arr (TypeDescriptor.listToJson variants))]
  | .intersection members =>
    .obj [("kind", .str "intersection"), ("members", .arr (TypeDescriptor.listToJson members))]
  | .composite model => .obj [("kind", .str "composite"), ("model", model.toJson)]

/-- Types as documents. -/
def TypeDescriptor.listToJson : List TypeDescriptor → List Json
  | [] => []
  | t :: ts => t.toJson :: TypeDescriptor.listToJson ts

/-- A field as a document. -/
def Field.toJson : Field → Json
  | ⟨name, type, required, defaultsToNull, description, examples, limits⟩ =>
    .obj ([("name", .str name), ("type", type.toJson), ("required", .bool required),
        ("constraints", .obj limits.toMembers)]
      ++ optionalMember "default" (if defaultsToNull then some .null else none)
      ++ optionalMember "description" (description.map .str)
      ++ optionalMember "examples" (if examples.isEmpty then none else some (.arr examples)))

/-- Fields as documents. -/
def Field.listToJson : List Field → List Json
  | [] => []
  | f :: fs => f.toJson :: Field.listToJson fs

/-- A definition as a document. The fields of the model that it extends are not shown. -/
def Definition.toJson : Definition → Json
  | ⟨name, _, fields, overrides⟩ =>
    .obj [("name", .str name), ("fields", .arr (Field.listToJson fields)),
      ("overrides", .obj overrides.carried)]

end

/-! ## Reading -/

/-- The limits that a document sets. -/
def Limits.ofJson (j : Json) : Limits where
  atLeast := (j.get? "ge").bind Json.num?
  above := (j.get? "gt").bind Json.num?
  atMost := (j.get? "le").bind Json.num?
  below := (j.get? "lt").bind Json.num?
  multipleOf := (j.get? "multipleOf").bind Json.num?
  minLength := (j.get? "minLength").bind Json.num?
  maxLength := (j.get? "maxLength").bind Json.num?
  schemes := ((j.get? "allowedSchemes").bind Json.items?).map (·.filterMap Json.str?)
  strict := ((j.get? "strict").map Json.isTruthy).getD false

/-- The overrides that carry some entries. A validator that is a document cannot be called. -/
def Overrides.ofMembers (carried : Members Json) : Overrides where
  carried
  validators := (((carried.get? "validators").bind Json.members?).getD []).map fun (name, _) =>
    { name, judge := fun _ => .raise "validator is not a function" }

mutual

/-- The type that a document describes. The fuel bounds the nesting of types. -/
def TypeDescriptor.ofJsonWith : Nat → Json → Option TypeDescriptor
  | 0, _ => none
  | fuel + 1, j => do
    match ← (j.get? "kind").bind Json.str? with
    | "primitive" =>
      return .primitive (← ((j.get? "primitive").bind Json.str?).bind Primitive.ofName?)
    | "semantic" =>
      return .semantic (← ((j.get? "semantic").bind Json.str?).bind Semantic.ofName?)
    | "mapping" => some .mapping
    | "collection" =>
      match j.get? "items" with
      | some items => return .listOf (← TypeDescriptor.ofJsonWith fuel items)
      | none => some .anyList
    | "union" =>
      let variants ← (j.get? "variants").bind Json.items?
      return .union (← variants.mapM (TypeDescriptor.ofJsonWith fuel))
    | "intersection" =>
      let members ← (j.get? "members").bind Json.items?
      return .intersection (← members.mapM (TypeDescriptor.ofJsonWith fuel))
    | "composite" => return .composite (← Definition.ofJsonWith fuel (← j.get? "model"))
    | _ => none

/-- The field that a document describes. -/
def Field.ofJsonWith : Nat → Json → Option Field
  | 0, _ => none
  | fuel + 1, j => do
    return {
      name := ← (j.get? "name").bind Json.str?
      type := ← TypeDescriptor.ofJsonWith fuel (← j.get? "type")
      required := ((j.get? "required").map Json.isTruthy).getD false
      defaultsToNull :=
        match j.get? "default" with
        | some .null => true
        | _ => false
      description := (j.get? "description").bind Json.str?
      examples := ((j.get? "examples").bind Json.items?).getD []
      limits := ((j.get? "constraints").map Limits.ofJson).getD {} }

/-- The definition that a document describes. -/
def Definition.ofJsonWith : Nat → Json → Option Definition
  | 0, _ => none
  | fuel + 1, j => do
    let fields ← (j.get? "fields").bind Json.items?
    return {
      name := ← (j.get? "name").bind Json.str?
      base := []
      fields := ← fields.mapM (Field.ofJsonWith fuel)
      overrides := .ofMembers (((j.get? "overrides").bind Json.members?).getD []) }

end

/-- The type that a document describes. -/
def TypeDescriptor.ofJson? (j : Json) : Option TypeDescriptor :=
  TypeDescriptor.ofJsonWith (j.height + 1) j

/-- The definition that a document describes. -/
def Definition.ofJson? (j : Json) : Option Definition := Definition.ofJsonWith (j.height + 1) j

end JsonModel
