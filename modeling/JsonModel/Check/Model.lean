-- Models: compiled definitions that check data, and the report of what they find.
import JsonModel.Check.Type
import JsonModel.Json.Printer
import JsonModel.Schema.Compile

namespace JsonModel

/-! ## Building -/

namespace Definition

/-- The definition that extends the fields of another model and is checked by further validators. -/
def extend (d : Definition) (base : List Field) (validators : List Validator) : Definition :=
  { d with
    base
    overrides := { d.overrides with validators := d.overrides.validators ++ validators } }

/-- The namespace that the definition records. -/
def module? (d : Definition) : Option Json := d.overrides.carried.get? "module"

/-- The further arguments that the definition records. -/
def classArgs (d : Definition) : Json :=
  match d.overrides.carried.get? "classArgs" with
  | none => .obj []
  | some .null => .obj []
  | some value => value

end Definition

/-! ## Checking -/

/-- The answer to some data. -/
inductive ParseResult
  | success (value : Value)
  | failure (issues : List Issue)

/-- The answer of an outcome: its value, if it has no issues. -/
def Outcome.toResult (o : Outcome) : ParseResult :=
  if o.accepted then .success o.value else .failure o.issues

/-- The answer of a type to some data. -/
def TypeDescriptor.safeParse (places : Places) (t : TypeDescriptor) (limits : Limits) (v : Value) :
    Except Clash ParseResult :=
  (t.check places limits v).map Outcome.toResult

/-- The answer of a definition to some data. -/
def Definition.safeParse (places : Places) (d : Definition) (v : Value) :
    Except Clash ParseResult :=
  (d.check places v).map Outcome.toResult

/-! ## Reporting -/

/-- A step as a document. -/
def Step.toJson : Step → Json
  | .key name => .str name
  | .index i => .num (.ofNat i)

/-- The message of a clash. -/
def Clash.message (clash : Clash) : String :=
  "Unmergable intersection. Error path: " ++ (Json.arr (clash.path.map Step.toJson)).compact

/-- A character of a name that is written without quotes in a path. -/
def isPlainName (c : Char) : Bool := isBasicAlphanumeric c || c == '_' || c == '$'

/-- A step in a path, given whether it is the first. -/
def Step.dotted (first : Bool) : Step → String
  | .index i => "[" ++ decimalText i ++ "]"
  | .key name =>
    if name.toList.all isPlainName then (if first then name else "." ++ name)
    else "[" ++ (Json.str name).compact ++ "]"

/-- The text of a path. -/
def dottedPath : List Step → String
  | [] => ""
  | step :: steps => step.dotted true ++ String.join (steps.map (Step.dotted false))

/-- The lines of an issue. -/
def Issue.lines (issue : Issue) : List String :=
  ("✖ " ++ issue.fault.message)
    :: (if issue.path.isEmpty then [] else ["  → at " ++ dottedPath issue.path])

/-- The issues in the order of the lengths of their paths, issues of one length staying as they
are. -/
def byDepth (issues : List Issue) : List Issue :=
  issues.mergeSort fun a b => a.path.length ≤ b.path.length

/-- The report of a failed check. -/
def Definition.report (d : Definition) (issues : List Issue) : String :=
  let count := decimalText issues.length
  let noun := if issues.length = 1 then "error" else "errors"
  "\n".intercalate ((count ++ " validation " ++ noun ++ " for " ++ d.name)
    :: (byDepth issues).flatMap Issue.lines)

end JsonModel
