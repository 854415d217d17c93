-- Writing JSON text, on one line or indented. A number that JSON cannot write
-- is written as null, and zero has no sign.
import JsonModel.Json.Basic
import JsonModel.Number.Decimal
import JsonModel.Text.Quoted

namespace JsonModel.Json

/-- Where the blanks of a text stand. -/
structure Layout where
  /-- What stands before an entry at a depth. -/
  gap : Nat → List Char
  /-- What stands after the colon of a member. -/
  afterColon : List Char

namespace Layout

/-- Everything on one line, without blanks. -/
def compact : Layout where
  gap := fun _ => []
  afterColon := []

/-- Each entry on a line of its own, two blanks deeper than what holds it. -/
def indented : Layout where
  gap := fun depth => '\n' :: List.replicate (2 * depth) ' '
  afterColon := [' ']

end Layout

/-- The text of a number. -/
def writeNumber (n : Number) : List Char :=
  if n.isFinite then numberLayout.number n else "null".toList

mutual

/-- The text of a document that stands at a depth. -/
def write (layout : Layout) (depth : Nat) : Json → List Char
  | .null => "null".toList
  | .bool true => "true".toList
  | .bool false => "false".toList
  | .num n => writeNumber n
  | .str s => Quoted.encode s
  | .arr [] => ['[', ']']
  | .arr (item :: items) =>
    '[' :: layout.gap (depth + 1) ++ write layout (depth + 1) item
      ++ writeItems layout (depth + 1) items ++ layout.gap depth ++ [']']
  | .obj [] => ['{', '}']
  | .obj ((name, value) :: ms) =>
    '{' :: layout.gap (depth + 1) ++ Quoted.encode name ++ ':' :: layout.afterColon
      ++ write layout (depth + 1) value ++ writeMembers layout (depth + 1) ms
      ++ layout.gap depth ++ ['}']

/-- Further items of a list, each behind a comma. -/
def writeItems (layout : Layout) (depth : Nat) : List Json → List Char
  | [] => []
  | item :: items =>
    ',' :: layout.gap depth ++ write layout depth item ++ writeItems layout depth items

/-- Further members of an object, each behind a comma. -/
def writeMembers (layout : Layout) (depth : Nat) : List (String × Json) → List Char
  | [] => []
  | (name, value) :: ms =>
    ',' :: layout.gap depth ++ Quoted.encode name ++ ':' :: layout.afterColon
      ++ write layout depth value ++ writeMembers layout depth ms

end

/-- The text on one line. -/
def compact (j : Json) : String := String.ofList (j.write .compact 0)

/-- The text with a line for each entry. -/
def pretty (j : Json) : String := String.ofList (j.write .indented 0)

end JsonModel.Json
