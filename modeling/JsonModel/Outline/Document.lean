-- The JSON Schema that describes what a definition takes in. It says nothing of
-- validators, of models by name, or of what comes out.
import JsonModel.Check.Type
import JsonModel.Outline.Settle

namespace JsonModel

/-! ## Types that change their values -/

mutual

/-- A type has a part whose values come out as something else than they went in. -/
def TypeDescriptor.transforms : TypeDescriptor → Bool
  | .semantic kind => kind.transforms
  | .listOf items => items.transforms
  | .union variants => TypeDescriptor.anyTransforms variants
  | .intersection members => TypeDescriptor.anyTransforms members
  | .composite model => model.transforms
  | _ => false

/-- One of some types transforms. -/
def TypeDescriptor.anyTransforms : List TypeDescriptor → Bool
  | [] => false
  | t :: ts => t.transforms || TypeDescriptor.anyTransforms ts

/-- One of some fields transforms. -/
def Field.anyTransforms : List Field → Bool
  | [] => false
  | ⟨_, type, _, _, _, _, _⟩ :: fs => type.transforms || Field.anyTransforms fs

/-- A field of a definition transforms. -/
def Definition.transforms : Definition → Bool
  | ⟨_, base, fields, _⟩ => Field.anyTransforms base || Field.anyTransforms fields

end

/-! ## Types, fields and definitions -/

/-- What some outlines say together, each settled on its own. -/
def conjoin : List Outline → Outline
  | [only] => only
  | outlines => [("allOf", .arr (outlines.map fun outline => .obj outline.settle))]

/-- What the fields of a definition say: their outlines, and which of them must be there. -/
def fieldsOutline (fields : List (String × Bool × Outline)) (mode : ExtraMode) : Outline :=
  let declared := Members.erase reservedName (Members.ofList fields)
  let described : ObjectOutline := {
    properties := declared.map fun (name, _, outline) => (name, .obj outline.settle)
    required := Members.names (declared.filter fun (_, optional, _) => !optional)
    additional :=
      match mode with
      | .ignore => none
      | .forbid => some (.bool false)
      | .allow => some (.obj []) }
  described.outline

mutual

/-- What a type says of a value: outlines that must all hold. -/
def TypeDescriptor.outlines : TypeDescriptor → Limits → List Outline
  | .primitive kind, limits => [kind.outline limits]
  | .semantic kind, _ => [kind.outline]
  | .mapping, _ =>
    [typeOutline "object"
      ++ [("propertyNames", .obj (typeOutline "string")), ("additionalProperties", .obj [])]]
  | .anyList, _ => [typeOutline "array" ++ [("items", .obj [])]]
  | .listOf items, _ =>
    [typeOutline "array" ++ [("items", .obj (conjoin (items.outlines {})).settle)]]
  | .union variants, limits => [anyOfOutline (TypeDescriptor.variantOutlines variants limits)]
  | .intersection [], _ => [[]]
  | .intersection (first :: rest), _ =>
    first.outlines {} ++ TypeDescriptor.memberOutlines rest
  | .composite model, _ => [model.outline]

/-- What each variant of a union says. -/
def TypeDescriptor.variantOutlines : List TypeDescriptor → Limits → List Outline
  | [], _ => []
  | t :: ts, limits =>
    (conjoin (t.outlines limits)).settle :: TypeDescriptor.variantOutlines ts limits

/-- What the members of an intersection say, those of inner intersections among them. -/
def TypeDescriptor.memberOutlines : List TypeDescriptor → List Outline
  | [] => []
  | t :: ts => t.outlines {} ++ TypeDescriptor.memberOutlines ts

/-- What each field says of the value under its name, and whether it can be missing. A default comes
first, and a description last. A type that transforms has no default. -/
def Field.outlines : List Field → List (String × Bool × Outline)
  | [] => []
  | ⟨name, type, _, defaultsToNull, description, _, limits⟩ :: fields =>
    let outline := (if defaultsToNull && !type.transforms then [("default", .null)] else [])
      ++ conjoin (type.outlines limits)
      ++ optionalMember "description" ((description.filter (· != "")).map .str)
    (name, defaultsToNull, outline) :: Field.outlines fields

/-- What a definition says of an object. -/
def Definition.outline : Definition → Outline
  | ⟨_, base, fields, overrides⟩ =>
    fieldsOutline (Field.outlines base ++ Field.outlines fields) overrides.extra

end

/-! ## Documents -/

/-- The vocabulary that documents are written in. -/
def vocabulary : String :=
  "/".intercalate ["https:", "", "json-schema.org", "draft", "2020-12", "schema"]

/-- The JSON Schema of a definition. -/
def Definition.document (d : Definition) : Json :=
  .obj ([("$schema", .str vocabulary)]
    ++ optionalMember "readOnly" (if d.overrides.frozen then some (.bool true) else none)
    ++ d.outline)

end JsonModel
