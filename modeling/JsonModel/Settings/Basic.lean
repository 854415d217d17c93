-- The settings of a project: how its models treat undeclared keys, whether what
-- comes out is frozen, and the namespace that models belong to.
import JsonModel.Schema.Descriptor

namespace JsonModel

/-- What models are built with. -/
structure Settings where
  extra : ExtraMode := .ignore
  frozen : Bool := false
  module : String := "schemodel"
deriving DecidableEq

namespace Settings

/-- The settings of models alone. -/
def modelMembers (s : Settings) : Members Json :=
  [("extra", .str s.extra.name), ("frozen", .bool s.frozen)]

/-- The settings as a document. -/
def toJson (s : Settings) : Json :=
  .obj [("model", .obj s.modelMembers), ("module", .str s.module)]

/-- What the settings add to a definition. -/
def overrides (s : Settings) : Overrides where
  carried := [("config", .obj s.modelMembers), ("module", .str s.module)]

end Settings
end JsonModel
