-- What a tool answers: a JSON text, and whether it tells of an error. A result is
-- indented, an error stands on one line.
import JsonModel.Check.Model
import JsonModel.Data.Shown
import JsonModel.Schema.Record
import JsonModel.Tool.Basic

namespace JsonModel

/-- The answer of a tool. -/
structure ToolAnswer where
  isError : Bool
  text : String

namespace ToolAnswer

/-- A result. -/
def result (document : Json) : ToolAnswer := ⟨false, document.pretty⟩

/-- An error: what it is, and what is known about it. -/
def error (code : String) (details : List (String × Json)) : ToolAnswer :=
  ⟨true, (Json.obj [("error", .obj (("code", .str code) :: details))]).compact⟩

end ToolAnswer

/-! ## Errors -/

/-- The word for the kind of an error. -/
def CompileError.code : CompileError → String
  | .unsupported .. => "unsupported_schema"
  | .unresolved .. => "unresolved_reference"
  | .endless _ => "error"

/-- A schema that does not compile. -/
def ToolAnswer.compileError (e : CompileError) : ToolAnswer :=
  .error e.code [("message", .str e.message)]

/-- The text of a step. -/
def Step.text : Step → String
  | .key name => name
  | .index i => decimalText i

/-- An issue as it is shown to a client. -/
def Issue.shown (issue : Issue) : Json :=
  .obj [("path", .str (joinTexts "." (issue.path.map Step.text))),
    ("message", .str issue.fault.message)]

/-! ## Answers -/

/-- The compiled definition of a schema. -/
def compileAnswer (overrides : Overrides) (schema : Members Json) : ToolAnswer :=
  match compileSchema schema none overrides with
  | .ok d => .result d.toJson
  | .error e => .compileError e

/-- The checked data, or the issues that were found. -/
def validateAnswer (places : Places) (overrides : Overrides) (schema : Members Json)
    (data : Value) : ToolAnswer :=
  match compileSchema schema none overrides with
  | .error e => .compileError e
  | .ok d =>
    match d.safeParse places data with
    | .ok (.success value) => .result (.obj [("model", .str d.name), ("data", value.shown)])
    | .ok (.failure issues) =>
      .error "validation_error"
        [("model", .str d.name), ("issues", .arr (issues.map Issue.shown))]
    | .error clash => .error "error" [("message", .str clash.message)]

/-- The formats and what they narrow a string to. -/
def formatsAnswer : ToolAnswer :=
  .result (.arr (StringFormat.all.map fun format =>
    .obj [("format", .str format.name), ("type", format.type.toJson)]))

/-! ## Calls -/

/-- The argument of a name. -/
def argument (name : String) (arguments : Value) : Value :=
  (arguments.read? name).getD .undefined

/-- The schema among some arguments. -/
def schemaArgument (arguments : Value) : Members Json :=
  ((argument "schema" arguments).shown.members?).getD []

/-- The answer of a tool to arguments that it takes. -/
def Tool.answer (places : Places) (overrides : Overrides) (arguments : Value) : Tool → ToolAnswer
  | compileSchema => compileAnswer overrides (schemaArgument arguments)
  | validateData =>
    validateAnswer places overrides (schemaArgument arguments) (argument "data" arguments)
  | describeFormats => formatsAnswer

/-- A call of a tool: its answer, or what is wrong with the arguments. A tool that has no arguments
takes anything. -/
def Tool.call (places : Places) (overrides : Overrides) (tool : Tool) (arguments : Value) :
    Except (List Issue) ToolAnswer :=
  if tool.arguments.isEmpty then .ok (tool.answer places overrides arguments)
  else match tool.input.safeParse places arguments with
    | .ok (.success taken) => .ok (tool.answer places overrides taken)
    | .ok (.failure issues) => .error issues
    | .error _ => .error []

end JsonModel
