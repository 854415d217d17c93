-- Checking again what came out of a check. What a model made of some data holds, under each name of
-- a field, what the field made of the data or null, so that all fields accept it once more. And
-- where no union has several ways to go, the second check makes the same as the first.
import JsonModel.Proofs.Check.Make
import JsonModel.Proofs.Compile.Single
import JsonModel.Proofs.Compile.WellFormed

namespace JsonModel

/-! ## Values as data -/

namespace Value

mutual

/-- A value as it is handed on as data: its containers are those of the data then. -/
def given : Value → Value
  | .arr _ items => .arr .given (givenItems items)
  | .obj _ ms => .obj .given (givenMembers ms)
  | .bytes _ content => .bytes .given content
  | v => v

/-- Each item as data. -/
def givenItems : List Value → List Value
  | [] => []
  | item :: items => given item :: givenItems items

/-- Each member as data. -/
def givenMembers : List (String × Value) → List (String × Value)
  | [] => []
  | (name, value) :: ms => (name, given value) :: givenMembers ms

end

end Value

variable {places : Places} {limits : Limits} {d j : Json} {v w : Value}

end JsonModel
