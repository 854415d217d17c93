-- Compiling a schema into a definition. The keywords of a node are looked at in a
-- fixed order: the reference, then the alternatives, then the parts that must all
-- hold, then the type. Nothing is remembered between nodes, so a definition that is
-- referenced twice is compiled twice.
import JsonModel.Schema.Format
import JsonModel.Schema.Pointer
import JsonModel.Text.TitleCase

namespace JsonModel

/-! ## Keywords of a node -/

/-- The reference of a node: a text that is not empty. -/
def reference? (node : Members Json) : Option String :=
  match node.get? "$ref" with
  | some (.str ref) => if ref = "" then none else some ref
  | _ => none

/-- The entries of a list of nodes. Every entry has to be an object. -/
def subNodes (node : Members Json) (keyword : String) : Except CompileError (List (Members Json)) :=
  match node.get? keyword with
  | some (.arr entries) =>
    entries.mapM fun
      | .obj entry => .ok entry
      | other => .error (.unsupported other node)
  | _ => .ok []

/-- The members of an object that is not empty. -/
def filledObject? (value : Option Json) : Option (Members Json) :=
  match value with
  | some (.obj []) => none
  | some (.obj ms) => some ms
  | _ => none

/-- The primitive kind of a type name that has no parts. -/
def scalarKind? : String → Option Primitive
  | "string" => some .string
  | "integer" => some .integer
  | "number" => some .number
  | "boolean" => some .boolean
  | "null" => some .null
  | _ => none

/-! ## Fields -/

/-- How the type of a node is found, given a name for what has none. -/
abbrev Resolver := Option String → Members Json → Except CompileError TypeDescriptor

/-- The number under a keyword. -/
def numberAt (node : Members Json) (keyword : String) : Option Number :=
  (node.get? keyword).bind Json.num?

/-- The bounds that a node puts on a number. -/
def numberLimits (node : Members Json) : Limits where
  atLeast := numberAt node "minimum"
  above := numberAt node "exclusiveMinimum"
  atMost := numberAt node "maximum"
  below := numberAt node "exclusiveMaximum"
  multipleOf := numberAt node "multipleOf"

/-- The bounds that a node puts on the length of a string. -/
def lengthLimits (node : Members Json) : Limits where
  minLength := numberAt node "minLength"
  maxLength := numberAt node "maxLength"

/-- The format of a node, if it is one that is known. -/
def format? (node : Members Json) : Option StringFormat :=
  ((node.get? "format").bind Json.str?).bind StringFormat.ofName?

/-- The type of a field and the limits on it, from the type of its node and the keywords beside
it. Bounds belong to numbers, a format to strings, and lengths to strings without a format. -/
def refine (type : TypeDescriptor) (node : Members Json) : TypeDescriptor × Limits :=
  if type.isPrimitive [.integer, .number] then (type, numberLimits node)
  else if type.isPrimitive [.string] then
    match format? node with
    | some format => format.narrow node
    | none => (type, lengthLimits node)
  else (type, {})

/-- The description of a node: a text that is not empty. -/
def description? (node : Members Json) : Option String :=
  match node.get? "description" with
  | some (.str text) => if text = "" then none else some text
  | _ => none

/-- The examples of a node. -/
def examplesOf (node : Members Json) : List Json :=
  ((node.get? "examples").bind Json.items?).getD []

/-- The field of a name and a node. A field that is not required accepts null and is null when it is
missing. The keywords are those of the node itself, also where it refers to another one. -/
def compileFieldWith (resolve : Resolver) (requiredNames : List String) (name : String)
    (node : Members Json) : Except CompileError Field := do
  let base ← resolve (some (titleCase name)) node
  let (type, limits) := refine base node
  let required := requiredNames.contains name
  return {
    name
    type := if required then type else type.nullable
    required
    defaultsToNull := !required
    description := description? node
    examples := examplesOf node
    limits }

/-! ## Definitions -/

/-- The name of a model without a title. -/
def fallbackName : String := "DynamicModel"

/-- The name of the model that a node describes. -/
def modelName (node : Members Json) : String :=
  match node.get? "title" with
  | some (.str title) => if title = "" then fallbackName else title
  | _ => fallbackName

/-- The node with the hint as its title, if it has none and there is a hint. -/
def withTitle (hint : Option String) (node : Members Json) : Members Json :=
  match hint, node.get? "title" with
  | some title, none => node.put "title" (.str title)
  | some title, some .null => node.put "title" (.str title)
  | _, _ => node

/-- The field of a property. A property has to be an object. -/
def compileProperty (resolve : Resolver) (node : Members Json) (property : String × Json) :
    Except CompileError Field :=
  match property with
  | (name, .obj schema) => compileFieldWith resolve (textsOf (node.get? "required")) name schema
  | (_, other) => .error (.unsupported other node)

/-- The definition that an object schema describes. -/
def buildDefinitionWith (resolve : Resolver) (node : Members Json) (overrides : Overrides) :
    Except CompileError Definition := do
  let properties :=
    match node.get? "properties" with
    | some (.obj ms) => ms
    | _ => []
  let fields ← properties.mapM (compileProperty resolve node)
  return { name := modelName node, base := [], fields, overrides }

/-! ## Types -/

/-- The type of a node by its `type` keyword. -/
def resolveByType (resolve : Resolver) (hint : Option String) (node : Members Json) :
    Except CompileError TypeDescriptor :=
  match node.get? "type" with
  | none => .ok (.primitive .any)
  | some (.str "array") =>
    match filledObject? (node.get? "items") with
    | some items => do return .listOf (← resolve hint items)
    | none => .ok .anyList
  | some (.str "object") =>
    match filledObject? (node.get? "properties") with
    | some _ => do return .composite (← buildDefinitionWith resolve (withTitle hint node) {})
    | none => .ok .mapping
  | some (.str name) =>
    match scalarKind? name with
    | some kind => .ok (.primitive kind)
    | none => .error (.unsupported (.str name) node)
  | some other => .error (.unsupported other node)

/-- Where a compilation stands: the document that references start from, and the references that
are being followed. -/
structure Scope where
  root : Members Json
  opened : List String := []

/-- The type of a node. A reference that is followed while it is being followed has no end, and the
fuel bounds the nodes on the way from the start to this one. -/
def resolveTypeWith : Nat → Scope → Resolver
  | 0, scope, _, _ => .error (.endless (scope.opened.headD ""))
  | fuel + 1, scope, hint, node =>
    match reference? node with
    | some ref =>
      if scope.opened.contains ref then .error (.endless ref)
      else do
        match ← resolveRef ref scope.root with
        | .obj target =>
          resolveTypeWith fuel { scope with opened := ref :: scope.opened } hint target
        | other => .error (.unsupported other node)
    | none => do
      let anyOf ← subNodes node "anyOf"
      let oneOf ← subNodes node "oneOf"
      match anyOf ++ oneOf with
      | [] =>
        match ← subNodes node "allOf" with
        | [] => resolveByType (resolveTypeWith fuel scope) hint node
        | [only] => resolveTypeWith fuel scope none only
        | members => return .intersection (← members.mapM (resolveTypeWith fuel scope none))
      | variants => return .union (← variants.mapM (resolveTypeWith fuel scope none))

/-! ## The depth of a compilation -/

mutual

/-- How many references a document has, used or not. -/
def Json.refCount : Json → Nat
  | .arr items => Json.refCountItems items
  | .obj ms => Json.refCountMembers ms
  | _ => 0

/-- How many references some items have. -/
def Json.refCountItems : List Json → Nat
  | [] => 0
  | item :: items => item.refCount + refCountItems items

/-- How many references some members have. -/
def Json.refCountMembers : List (String × Json) → Nat
  | [] => 0
  | (name, value) :: ms => (if name = "$ref" then 1 else 0) + value.refCount + refCountMembers ms

end

/-- Enough fuel for every node of a document and a root: each reference is followed once on the way
to a node, and between two references the way only leads deeper. -/
def enoughFuel (node root : Members Json) : Nat :=
  (Json.refCountMembers node + Json.refCountMembers root + 1)
    * (Json.heightMembers node + Json.heightMembers root + 2)

/-! ## The compiler -/

/-- The type of a node, references being followed from a root. -/
def resolveType (node root : Members Json) (hint : Option String := none) :
    Except CompileError TypeDescriptor :=
  resolveTypeWith (enoughFuel node root) { root } hint node

/-- The field of a name and a node. -/
def compileField (name : String) (node : Members Json) (requiredNames : List String)
    (root : Members Json) : Except CompileError Field :=
  compileFieldWith (resolveTypeWith (enoughFuel node root) { root }) requiredNames name node

/-- The definition of an object schema, references being followed from a root. -/
def buildDefinition (schema root : Members Json) (overrides : Overrides := {}) :
    Except CompileError Definition :=
  buildDefinitionWith (resolveTypeWith (enoughFuel schema root) { root }) schema overrides

/-- The definition of a schema document. References start from the root if there is one, and from
the schema itself otherwise. -/
def compileSchema (schema : Members Json) (root : Option (Members Json) := none)
    (overrides : Overrides := {}) : Except CompileError Definition :=
  buildDefinition schema (root.getD schema) overrides

end JsonModel
