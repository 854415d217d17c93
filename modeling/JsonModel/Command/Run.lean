-- Running a command. Everything that goes wrong ends in one line of error output,
-- and then nothing was printed.
import JsonModel.Check.Model
import JsonModel.Command.Request
import JsonModel.Data.Shown
import JsonModel.Json.Reader
import JsonModel.Outline.Document
import JsonModel.Schema.Record
import JsonModel.Settings.Text

namespace JsonModel

/-! ## Failures -/

/-- Why a command fails. -/
inductive Failure
  | missing (what : String)
  | file (error : FileError)
  | notJson (path text : String) (error : ReadError)
  | notSchema (path : String)
  | schema (error : CompileError)
  | clash (error : Clash)
  /-- The server is a program of its own. -/
  | noServer

/-- The message of a failure. -/
def Failure.message : Failure → String
  | .missing what => "missing <" ++ what ++ ".json> argument"
  | .file error => error.message
  | .notJson path text error => path ++ " is not valid JSON: " ++ error.message text
  | .notSchema path => path ++ " does not contain a JSON Schema object"
  | .schema error => error.message
  | .clash error => error.message
  | .noServer => "the server is not part of this program"

/-! ## Printing -/

/-- What a command prints, and the code it exits with. -/
structure Printout where
  exitCode : Nat
  output : String
  errors : String

namespace Printout

/-- A line of output. -/
def success (text : String) : Printout := ⟨0, text ++ "\n", ""⟩

/-- A line of error output. -/
def refusal (text : String) : Printout := ⟨1, "", text ++ "\n"⟩

/-- A failure. -/
def failure (f : Failure) : Printout := .refusal ("Error: " ++ f.message)

/-- A command that nobody knows. -/
def unknownCommand (name : String) : Printout :=
  ⟨1, usage ++ "\n", "Unknown command: " ++ name ++ "\n"⟩

end Printout

/-! ## Inputs -/

/-- An argument that has to be there. -/
def need (what : String) (argument : Option String) : Except Failure String :=
  match argument with
  | some text => .ok text
  | none => .error (.missing what)

/-- The document in a file. -/
def readDocument (disk : Disk) (path : String) : Except Failure Json := do
  let text ← (disk.fileText path).mapError .file
  (Json.read text).mapError (.notJson path text)

/-- The schema in a file. -/
def readSchema (disk : Disk) (path : String) : Except Failure (Members Json) := do
  match ← readDocument disk path with
  | .obj schema => .ok schema
  | _ => .error (.notSchema path)

/-- The definition that a schema file compiles to. -/
def readDefinition (disk : Disk) (settings : Settings) (path : String) :
    Except Failure Definition := do
  (compileSchema (← readSchema disk path) none settings.overrides).mapError .schema

/-! ## Commands -/

/-- The data in a file, checked against a schema file. -/
def validateFiles (disk : Disk) (settings : Settings) (schema data : String) :
    Except Failure Printout := do
  let d ← readDefinition disk settings schema
  let document ← readDocument disk data
  match d.safeParse disk.places (.ofJson document) with
  | .ok (.success value) => .ok (.success value.shown.pretty)
  | .ok (.failure issues) => .ok (.refusal (d.report issues))
  | .error clash => .error (.clash clash)

/-- A command that needs the settings. -/
def Request.perform (disk : Disk) (settings : Settings) : Request → Except Failure Printout
  | help => .ok (.success usage)
  | version => .ok (.success ("schemodel v" ++ programVersion))
  | compile schema => do
    return .success (← readDefinition disk settings (← need "schema" schema)).toJson.pretty
  | validate schema data => do
    let schema ← need "schema" schema
    let data ← need "data" data
    validateFiles disk settings schema data
  | outline schema => do
    return .success (← readDefinition disk settings (← need "schema" schema)).document.pretty
  | serve => .error .noServer
  | unknown name => .ok (.unknownCommand name)

/-- A request needs the settings of the project. -/
def Request.needsSettings : Request → Bool
  | help | version | serve => false
  | _ => true

/-- What some arguments print. Where settings are needed, they are read before anything else. -/
def run (disk : Disk) (arguments : List String) : Printout :=
  let request := Request.ofArguments arguments
  let outcome : Except Failure Printout := do
    let settings ←
      if request.needsSettings then (Settings.load disk disk.current).mapError .file else .ok {}
    request.perform disk settings
  match outcome with
  | .ok printout => printout
  | .error f => .failure f

end JsonModel
