-- Schemas without alternatives. The unions in what they compile to come from formats and from fields
-- that are not required, so that at most one variant of a union takes anything but scalars.
import JsonModel.Proofs.Compile.Pieces
import JsonModel.Proofs.Compile.Rewrite

namespace JsonModel

/-! ## Unions with one way to go -/

end JsonModel
