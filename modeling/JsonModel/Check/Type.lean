-- The check of a value against a type or a definition.
import JsonModel.Check.Leaf

namespace JsonModel

/-! ## Unions -/

/-- The outcome of a union none of whose variants accepts: if one alone of them was not aborted,
its outcome stands for all. -/
def noVariantOutcome (v : Value) (outcomes : List Outcome) : Outcome :=
  match outcomes.filter fun o => !o.aborted with
  | [only] => only
  | _ => .reject v .noVariant

/-! ## Objects -/

/-- What a field adds to the check of an object: issues, and the value under its name, if any. -/
structure Contribution where
  issues : List Issue
  value : Option Value

/-- What a field adds, given what was read under its name and the outcome of its check. A name that
is not there has no value, and has to be there unless the field has a default. -/
def contribution (name : String) (reading : Option Value) (defaultsToNull : Bool) (o : Outcome) :
    Contribution :=
  let issues := o.issues.map (.under (.key name))
  match reading, defaultsToNull with
  | none, false =>
    if o.accepted then
      ⟨[⟨[.key name], .wrongType .presentKey Value.undefined.kindName⟩], none⟩
    else ⟨issues, none⟩
  | _, _ => ⟨issues, some o.value⟩

/-- The name that no field can have: it is neither read nor written. -/
def reservedName : String := "__proto__"

/-- What the fields of an object add, in the order of their names. Of two fields with one name, the
later stands at the place of the earlier. -/
def inOrder (contributions : List (String × Except Clash Contribution)) :
    Except Clash (List (String × Contribution)) :=
  (Members.erase reservedName (Members.ofList contributions)).mapM fun (name, c) =>
    c.map fun c => (name, c)

/-- The members of the data that no field declares. -/
def undeclared (declared : List String) (ms : Members Value) : Members Value :=
  ms.filter fun m => m.1 != reservedName && !declared.contains m.1

/-- The object made of what the fields add and of the undeclared members. -/
def assemble (mode : ExtraMode) (ms : Members Value) (fields : List (String × Contribution)) :
    Outcome :=
  let extra := undeclared (fields.map Prod.fst) ms
  let values := fields.filterMap fun (name, c) => c.value.map fun value => (name, value)
  let issues := fields.flatMap fun (_, c) => c.issues
  match mode with
  | .ignore => ⟨.obj .made (Members.ofList values), issues, false⟩
  | .allow => ⟨.obj .made (Members.ofList (values ++ extra)), issues, false⟩
  | .forbid =>
    let unknown : List Issue := if extra.isEmpty then [] else [.here (.unknownKeys extra.names)]
    ⟨.obj .made (Members.ofList values), issues ++ unknown, false⟩

/-- What a validator reports. -/
def Validator.report (validator : Validator) (v : Value) : List Issue :=
  match validator.judge v with
  | .pass => []
  | .complain message => [.here (.validator validator.name message)]
  | .raise text => [.here (.validator validator.name text)]

/-- The outcome after the validators. They run only if nothing has aborted. -/
def runValidators (validators : List Validator) (o : Outcome) : Outcome :=
  if o.aborted then o
  else { o with issues := o.issues ++ validators.flatMap fun validator => validator.report o.value }

/-! ## Types and definitions -/

mutual

/-- The check of a value. Limits reach the leaves of a type through its unions alone. -/
def TypeDescriptor.check (places : Places) : TypeDescriptor → Limits → Value →
    Except Clash Outcome
  | .primitive kind, limits, v => .ok (kind.check limits v)
  | .semantic kind, limits, v => .ok (kind.check places limits v)
  | .mapping, _, v =>
    match v with
    | .obj _ ms => .ok (.accept (.obj .made (Members.erase reservedName ms)))
    | _ => .ok (wrongType .record v)
  | .anyList, _, v =>
    match v with
    | .arr _ items => .ok (.accept (.arr .made items))
    | _ => .ok (wrongType .array v)
  | .listOf type, _, v =>
    match v with
    | .arr _ items => do
      let outcomes ← items.mapM fun item => type.check places {} item
      let issues := outcomes.zipIdx.flatMap fun (o, i) => o.issues.map (.under (.index i))
      return ⟨.arr .made (outcomes.map (·.value)), issues, false⟩
    | _ => .ok (wrongType .array v)
  | .union [only], limits, v => only.check places limits v
  | .union variants, limits, v => do
    match ← TypeDescriptor.checkVariants places variants limits v with
    | .inl winner => return winner
    | .inr outcomes => return noVariantOutcome v outcomes
  | .intersection [], _, v => .ok (.accept v)
  | .intersection (first :: rest), _, v => do
    TypeDescriptor.checkMembers places (← first.check places {} v) rest v
  | .composite model, _, v => model.check places v

/-- The first variant that accepts, or the outcomes of all of them. Variants after the one that
accepts are not tried. -/
def TypeDescriptor.checkVariants (places : Places) : List TypeDescriptor → Limits → Value →
    Except Clash (Outcome ⊕ List Outcome)
  | [], _, _ => .ok (.inr [])
  | type :: types, limits, v => do
    let o ← type.check places limits v
    if o.accepted then return .inl o
    match ← TypeDescriptor.checkVariants places types limits v with
    | .inl winner => return .inl winner
    | .inr outcomes => return .inr (o :: outcomes)

/-- The outcome of the members so far, joined with each further one in turn. -/
def TypeDescriptor.checkMembers (places : Places) (sofar : Outcome) : List TypeDescriptor → Value →
    Except Clash Outcome
  | [], _ => .ok sofar
  | type :: types, v => do
    let o ← type.check places {} v
    TypeDescriptor.checkMembers places (← sofar.both v o) types v

/-- What each field adds. A field with a default does not look at a missing value. -/
def Field.checkAll (places : Places) : List Field → Value →
    List (String × Except Clash Contribution)
  | [], _ => []
  | ⟨name, type, _, defaultsToNull, _, _, limits⟩ :: fields, v =>
    let reading := v.read? name
    let outcome : Except Clash Outcome :=
      match reading.getD .undefined, defaultsToNull with
      | .undefined, true => .ok (.accept .null)
      | value, _ => type.check places limits value
    (name, outcome.map (contribution name reading defaultsToNull)) :: Field.checkAll places fields v

/-- The check of an object: its fields in order, then the undeclared keys, then the validators. -/
def Definition.check (places : Places) : Definition → Value → Except Clash Outcome
  | ⟨_, base, fields, overrides⟩, v =>
    match v.members? with
    | none => .ok (wrongType .object v)
    | some ms => do
      let contributions ←
        inOrder (Field.checkAll places base v ++ Field.checkAll places fields v)
      return runValidators overrides.validators (assemble overrides.extra ms contributions)

end

end JsonModel
