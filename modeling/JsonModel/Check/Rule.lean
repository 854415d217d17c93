-- Ready-made validators.
import JsonModel.Schema.Descriptor

namespace JsonModel

/-- A rule that a validator applies to the object it is given. -/
inductive Rule
  | pass
  | fail (message : String)
  | raise (text : String)
  /-- A member must be there and must not be null. -/
  | present (name message : String)
  /-- A member that is a number must be above zero. -/
  | positive (name message : String)
  /-- Complains with the names of the members. -/
  | names

/-- What a rule says about a value. -/
def Rule.judge (rule : Rule) (v : Value) : Verdict :=
  match rule with
  | .pass => .pass
  | .fail message => .complain message
  | .raise text => .raise text
  | .present name message =>
    if ((v.read? name).getD .undefined).isNullish then .complain message else .pass
  | .positive name message =>
    match v.read? name with
    | some (.num n) => if n.le .zero then .complain message else .pass
    | _ => .pass
  | .names => .complain (",".intercalate ((v.members?).getD []).names)

end JsonModel
