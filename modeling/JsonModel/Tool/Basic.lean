-- The tools that are offered to a client: what each is called, and what it takes.
import JsonModel.Schema.Descriptor

namespace JsonModel

/-- A tool. -/
inductive Tool
  | compileSchema
  | validateData
  | describeFormats
deriving DecidableEq

namespace Tool

/-- The tools in the order in which they are offered. -/
def all : List Tool := [compileSchema, validateData, describeFormats]

def name : Tool → String
  | compileSchema => "compile_schema"
  | validateData => "validate_data"
  | describeFormats => "describe_formats"

/-- The tool of a name. -/
def ofName? (name : String) : Option Tool := all.find? fun tool => tool.name == name

def title : Tool → String
  | compileSchema => "Compile Schema"
  | validateData => "Validate Data"
  | describeFormats => "Describe Formats"

def description : Tool → String
  | compileSchema =>
    "Compile a JSON Schema object into a model definition: fields, resolved types, "
      ++ "defaults and constraints."
  | validateData =>
    "Build a model from a JSON Schema and validate data against it. "
      ++ "Returns the parsed data or the validation issues."
  | describeFormats =>
    "List the string \x60format\x60 keywords the compiler narrows into semantic types."

/-- The arguments of a tool and their types. -/
def arguments : Tool → List (String × TypeDescriptor)
  | compileSchema => [("schema", .mapping)]
  | validateData => [("schema", .mapping), ("data", .primitive .any)]
  | describeFormats => []

/-- The object of the arguments of a tool: each must be there, and others are dropped. -/
def input (tool : Tool) : Definition where
  name := tool.name
  base := []
  fields := tool.arguments.map fun (name, type) =>
    { name, type, required := true, defaultsToNull := false, description := none, examples := [],
      limits := {} }
  overrides := {}

end Tool
end JsonModel
