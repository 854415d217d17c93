-- Shorter words for what an outline says: alternatives that are bare types become a
-- list of types, and objects that must all hold become one object.
import JsonModel.Outline.Leaf
import JsonModel.Schema.Format

namespace JsonModel

/-! ## Alternatives -/

/-- The type names of an outline that has no other keyword. -/
def bareTypes? : Json → Option (List Json)
  | .obj [("type", .str name)] => some [.str name]
  | .obj [("type", .arr names)] => some names
  | _ => none

/-- The keyword for some type names. One name stands alone. -/
def typesOutline (names : List Json) : Outline :=
  match names with
  | [only] => [("type", only)]
  | names => [("type", .arr names)]

/-! ## Objects that must all hold -/

/-- An outline of an object: its properties, those that must be there, and what other keys may
hold. -/
structure ObjectOutline where
  properties : Members Json
  required : List String
  additional : Option Json

namespace ObjectOutline

/-- The keywords that an outline of an object may have. -/
def keywords : List String := ["type", "properties", "required", "additionalProperties"]

/-- The object that an outline describes, if it has no other keyword. -/
def ofJson? (j : Json) : Option ObjectOutline := do
  let ms ← j.members?
  if !ms.names.all keywords.contains then none
  else match ms.get? "type", ms.get? "properties" with
    | some (.str "object"), some (.obj properties) =>
      some {
        properties
        required := textsOf (ms.get? "required")
        additional := ms.get? "additionalProperties" }
    | _, _ => none

/-- The keywords of an object. -/
def outline (o : ObjectOutline) : Outline :=
  typeOutline "object" ++ [("properties", .obj o.properties)]
    ++ optionalMember "required"
      (if o.required.isEmpty then none else some (.arr (o.required.map .str)))
    ++ optionalMember "additionalProperties" o.additional

/-- An object refuses keys that it does not declare. -/
def isClosed (o : ObjectOutline) : Bool :=
  match o.additional with
  | some (.bool false) => true
  | _ => false

/-- One object for several that must all hold. A property that several of them declare is one
property: the same one, or objects made one, or all that are said of it. The fuel bounds the nesting
of objects. -/
def join : Nat → List ObjectOutline → ObjectOutline
  | fuel, os =>
    let shared (name : String) : Json :=
      match (os.filterMap fun o => o.properties.get? name).eraseDups with
      | [only] => only
      | said =>
        match fuel, said.mapM ofJson? with
        | fuel + 1, some parts => .obj (join fuel parts).outline
        | _, _ => .obj [("allOf", .arr said)]
    let names := (os.flatMap fun o => o.properties.names).eraseDups
    { properties := Members.ofList (names.map fun name => (name, shared name))
      required := (os.flatMap (·.required)).eraseDups
      additional := if os.all isClosed then some (.bool false) else none }

end ObjectOutline

/-- The one object that some outlines describe together, if each describes an object. -/
def joinObjects? (outlines : List Json) : Option Outline :=
  (outlines.mapM ObjectOutline.ofJson?).map fun os =>
    (ObjectOutline.join (Json.heightItems outlines) os).outline

/-- The alternatives of an outline that has no other keyword. -/
def alternatives? : Json → Option (List Json)
  | .obj [("anyOf", .arr branches)] => some branches
  | _ => none

/-- The one member with alternatives among some outlines, with those before and after it. -/
def splitAlternatives : List Json → Option (List Json × List Json × List Json)
  | [] => none
  | j :: rest =>
    match alternatives? j with
    | some branches =>
      if rest.any fun other => (alternatives? other).isSome then none else some ([], branches, rest)
    | none =>
      (splitAlternatives rest).map fun (before, branches, after) => (j :: before, branches, after)

/-- What some outlines say together, in fewer words: one object, or alternatives each of which is
one object. -/
def joinAll? (outlines : List Json) : Option Outline :=
  match joinObjects? outlines with
  | some joined => some joined
  | none => do
    let (before, branches, after) ← splitAlternatives outlines
    return anyOfOutline (← branches.mapM fun branch => joinObjects? (before ++ branch :: after))

/-! ## Settling -/

/-- An outline in its shorter words. What replaces a keyword stands behind the others. -/
def Outline.settle (outline : Outline) : Outline :=
  match outline.get? "anyOf", outline.get? "allOf" with
  | some (.arr (branch :: branches)), _ =>
    match (branch :: branches).mapM bareTypes? with
    | some names => Members.erase "anyOf" outline ++ typesOutline names.flatten.eraseDups
    | none => outline
  | none, some (.arr members) =>
    match joinAll? members with
    | some joined => Members.erase "allOf" outline ++ joined
    | none => outline
  | _, _ => outline

end JsonModel
