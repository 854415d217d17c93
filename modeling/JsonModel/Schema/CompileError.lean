-- Why a schema does not compile. Either error ends the whole compilation.
import JsonModel.Json.Printer

namespace JsonModel

/-- Why a schema does not compile. -/
inductive CompileError
  /-- A place of a node holds something that it must not hold. -/
  | unsupported (found : Json) (node : Members Json)
  /-- A reference cannot be followed to its end. -/
  | unresolved (ref : String) (segment : String)
  /-- A reference leads back to itself. -/
  | endless (ref : String)

/-- The text of the error. -/
def CompileError.message : CompileError → String
  | .unsupported found node =>
    "Unsupported JSON schema type: " ++ found.compact ++ " from " ++ (Json.obj node).compact
  | .unresolved ref segment =>
    "Cannot resolve $ref \"" ++ ref ++ "\": segment \"" ++ segment ++ "\" not found"
  | .endless ref => "The expansion of $ref \"" ++ ref ++ "\" has no end"

end JsonModel
