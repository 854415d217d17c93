-- The command line: what its arguments ask for, and how it explains itself.

namespace JsonModel

/-- The version of the program. -/
def programVersion : String := "0.1.0"

/-- How the program is used. -/
def usage : String :=
  "\n".intercalate
    ["schemodel v" ++ programVersion ++ " — JSON Schema to validating model compiler",
      "",
      "Usage:",
      "  schemodel compile <schema.json>               Print the compiled model definition",
      "  schemodel validate <schema.json> <data.json>  Validate data against a schema",
      "  schemodel json-schema <schema.json>           Print the model's JSON Schema",
      "  schemodel serve [<project-path>]              Start the MCP server on stdio",
      "  schemodel version                             Print version",
      "",
      "Model settings are read from config/schemodel.md in the current directory."]

/-- What is asked for. Paths can be missing. -/
inductive Request
  | help
  | version
  | serve
  | compile (schema : Option String)
  | validate (schema data : Option String)
  | outline (schema : Option String)
  | unknown (name : String)
deriving DecidableEq

namespace Request

/-- An argument that is not empty. -/
def given (argument : Option String) : Option String := argument.filter fun text => text != ""

/-- What arguments ask for. Arguments that a command does not need are passed over. -/
def ofArguments (arguments : List String) : Request :=
  let first := given arguments[1]?
  match arguments.head? with
  | none | some "" | some "--help" | some "-h" => help
  | some "version" | some "--version" | some "-v" => version
  | some "serve" => serve
  | some "compile" => compile first
  | some "validate" => validate first (given arguments[2]?)
  | some "json-schema" => outline first
  | some name => unknown name

end Request
end JsonModel
