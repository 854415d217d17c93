-- What a check answers: the value that came out, and what is wrong with it.
import JsonModel.Check.Issue

namespace JsonModel

/-- The value that a check made of its input, and the issues that it found. A check that has to
change its input, and cannot, is halted: it has no value of its own to show. -/
structure Outcome where
  value : Value
  issues : List Issue
  halted : Bool

namespace Outcome

/-- A value without issues. -/
def accept (value : Value) : Outcome := ⟨value, [], false⟩

/-- A value with one issue. -/
def reject (value : Value) (fault : Fault) : Outcome := ⟨value, [.here fault], false⟩

/-- A value that stays as it is, with the faults found. -/
def keep (value : Value) (faults : List Fault) : Outcome := ⟨value, faults.map .here, false⟩

/-- The check found nothing wrong. -/
def accepted (o : Outcome) : Bool := o.issues.isEmpty

/-- Nothing further is checked on the value. -/
def aborted (o : Outcome) : Bool := o.halted || o.issues.any fun issue => issue.fault.aborts

end Outcome

/-- Two answers to one value that do not fit together, and where they part. -/
structure Clash where
  path : List Step

/-! ## Joining values -/

namespace Value

/-- Two values that are no containers made by a check are one and the same. -/
def identical : Value → Value → Bool
  | .undefined, .undefined => true
  | .null, .null => true
  | .bool a, .bool b => a == b
  | .num a, .num b => a.same b
  | .str a, .str b => a == b
  | .bytes .given _, .bytes .given _ => true
  | .function _, .function _ => true
  | .arr .given _, .arr .given _ => true
  | .obj .given _, .obj .given _ => true
  | _, _ => false

mutual

/-- The value that two answers to one value make together: the same value, or lists of one length
item by item, or objects key by key. Otherwise the path to where they part. -/
def join : Value → Value → Except (List Step) Value
  | .arr o xs, w =>
    if identical (.arr o xs) w then .ok (.arr o xs)
    else match w with
      | .arr _ ys =>
        if xs.length = ys.length then (joinItems 0 xs ys).map (.arr .made) else .error []
      | _ => .error []
  | .obj o xs, w =>
    if identical (.obj o xs) w then .ok (.obj o xs)
    else match w with
      | .obj _ ys =>
        (joinMembers xs ys).map fun shared =>
          .obj .made (Members.ofList (shared ++ ys.filter fun y => !Members.has y.1 xs))
      | _ => .error []
  | v, w => if identical v w then .ok v else .error []

/-- Item by item, the first one having an index. -/
def joinItems (i : Nat) : List Value → List Value → Except (List Step) (List Value)
  | x :: xs, y :: ys => do
    let item ← (join x y).mapError (.index i :: ·)
    return item :: (← joinItems (i + 1) xs ys)
  | _, _ => .ok []

/-- The members of the first object, joined with those of the second that have their names. -/
def joinMembers : List (String × Value) → List (String × Value) →
    Except (List Step) (List (String × Value))
  | [], _ => .ok []
  | (name, x) :: xs, ys =>
    match Members.get? name ys with
    | some y => do
      let value ← (join x y).mapError (.key name :: ·)
      return (name, value) :: (← joinMembers xs ys)
    | none => do return (name, x) :: (← joinMembers xs ys)

end

end Value

/-! ## Joining outcomes -/

namespace Outcome

/-- The names of an issue that reports unknown keys of the checked value itself. -/
def unknownHere? (issue : Issue) : Option (List String) :=
  match issue with
  | ⟨[], .unknownKeys names⟩ => some names
  | _ => none

/-- The issues of two checks of one value. An unknown key of the value itself counts only if both
report it. -/
def joinIssues (left right : List Issue) : List Issue :=
  let others (issues : List Issue) := issues.filter fun issue => (unknownHere? issue).isNone
  let unknown (issues : List Issue) := (issues.filterMap unknownHere?).flatten
  let both := (unknown left).filter (unknown right).contains
  others left ++ others right ++ (if both.isEmpty then [] else [.here (.unknownKeys both)])

/-- The outcome of two checks that must both hold. If an issue aborts, the values are not joined. -/
def both (input : Value) (left right : Outcome) : Except Clash Outcome :=
  let issues := joinIssues left.issues right.issues
  if issues.any fun issue => issue.fault.aborts then .ok ⟨input, issues, false⟩
  else match left.value.join right.value with
    | .ok value => .ok ⟨value, issues, false⟩
    | .error path => .error ⟨path⟩

end Outcome
end JsonModel
