-- Members of an object, in the order in which they are listed: names that are
-- indexes come first and ascend, the others follow in the order of arrival.
import JsonModel.Text.Digits

namespace JsonModel

/-- Named entries in order. -/
abbrev Members (α : Type _) := List (String × α)

/-- The number that a name writes, if it is an index: plain decimal digits below 2³² - 1. -/
def indexName? (name : String) : Option Nat :=
  let cs := name.toList
  if isPlainDecimal cs then
    let n := digitsValue 10 cs
    if n < Nat.pow 2 32 - 1 then some n else none
  else none

namespace Members

variable {α : Type _}

/-- The names in order. -/
def names (ms : Members α) : List String := ms.map Prod.fst

/-- There is an entry of that name. -/
def has (name : String) (ms : Members α) : Bool := ms.any fun m => m.1 == name

/-- The entry of a name. -/
def get? (name : String) (ms : Members α) : Option α := List.lookup name ms

/-- The place of a new index: after the smaller indexes, before everything else. -/
def insertIndex (index : Nat) (entry : String × α) : Members α → Members α
  | [] => [entry]
  | m :: ms =>
    match indexName? m.1 with
    | some j => if j < index then m :: insertIndex index entry ms else entry :: m :: ms
    | none => entry :: m :: ms

/-- Sets an entry. A name that is there keeps its place. -/
def put (name : String) (value : α) (ms : Members α) : Members α :=
  if ms.has name then ms.map fun m => if m.1 == name then (name, value) else m
  else match indexName? name with
    | some index => insertIndex index (name, value) ms
    | none => ms ++ [(name, value)]

/-- The entries set one after the other: of two with one name, the later value stands at the
earlier place. -/
def ofList (entries : List (String × α)) : Members α :=
  entries.foldl (fun ms entry => put entry.1 entry.2 ms) []

/-- The entries without one name. -/
def erase (name : String) (ms : Members α) : Members α := ms.filter fun m => m.1 != name

end Members
end JsonModel
