-- Why a text is not JSON, and where.
import JsonModel.Text.Digits
import JsonModel.Text.Units

namespace JsonModel

/-- What is wrong at a place of a text. -/
inductive ReadFault
  | unexpected
  | leadingZero
  | noNumberAfterMinus
  | unterminatedFraction
  | missingExponent
  | unterminatedString
  | badControl
  | badEscape
  | badUnicodeEscape
  | expectedNameOrBrace
  | expectedName
  | expectedColon
  | expectedCommaOrBrace
  | expectedCommaOrBracket
  | textAfterEnd

/-- A fault, and the text from its place on. -/
structure ReadError where
  fault : ReadFault
  rest : List Char

namespace ReadFault

/-- What is said about a fault before its place, for the faults that are told by their place. -/
def wording : ReadFault → String
  | unexpected => "Unexpected token"
  | leadingZero => "Unexpected number"
  | noNumberAfterMinus => "No number after minus sign"
  | unterminatedFraction => "Unterminated fractional number"
  | missingExponent => "Exponent part is missing a number"
  | unterminatedString => "Unterminated string"
  | badControl => "Bad control character in string literal"
  | badEscape => "Bad escaped character"
  | badUnicodeEscape => "Bad Unicode escape"
  | expectedNameOrBrace => "Expected property name or '\x7d'"
  | expectedName => "Expected double-quoted property name"
  | expectedColon => "Expected ':' after property name"
  | expectedCommaOrBrace => "Expected ',' or '\x7d' after property value"
  | expectedCommaOrBracket => "Expected ',' or ']' after array element"
  | textAfterEnd => "Unexpected non-whitespace character after JSON"

end ReadFault

namespace ReadError

/-- The line and the column at the end of a text, both from one on. -/
def lineAndColumn (line column : Nat) : List Char → Nat × Nat
  | [] => (line, column)
  | '\r' :: '\n' :: cs => lineAndColumn (line + 1) 1 cs
  | c :: cs =>
    if c = '\r' ∨ c = '\n' then lineAndColumn (line + 1) 1 cs
    else lineAndColumn line (column + (unitsOf c).length) cs

/-- A fault told by its place. -/
def placed (text : List Char) (e : ReadError) : String :=
  let before := text.take (text.length - e.rest.length)
  let (line, column) := lineAndColumn 1 1 before
  e.fault.wording ++ (if e.fault matches .textAfterEnd then "" else " in JSON") ++ " at position "
    ++ decimalText (units16 before) ++ " (line " ++ decimalText line ++ " column "
    ++ decimalText column ++ ")"

/-- An unexpected character, told with up to ten units around it. -/
def unexpectedIn (text : List Char) (c : Char) (rest : List Char) : String :=
  let units := text.flatMap unitsOf
  let place := units16 (text.take (text.length - (c :: rest).length))
  let excerpt (start stop : Nat) : String :=
    "\"" ++ String.ofList (joinUnits ((units.take stop).drop start)) ++ "\""
  let shown :=
    if units.length < 21 then excerpt 0 units.length
    else if place < 10 then excerpt 0 (place + 10) ++ "..."
    else if place < units.length - 10 then "..." ++ excerpt (place - 10) (place + 10) ++ "..."
    else "..." ++ excerpt (place - 10) units.length
  "Unexpected token '" ++ String.ofList (joinUnits ((unitsOf c).take 1)) ++ "', " ++ shown
    ++ " is not valid JSON"

/-- The texts that are told whole when they are read as JSON. -/
def wholeTexts : List String := ["[object Object]", "NaN", "Infinity", "undefined"]

/-- The message of an error in a text. -/
def message (text : String) (e : ReadError) : String :=
  match e.fault, e.rest with
  | .unexpected, [] => "Unexpected end of JSON input"
  | .unexpected, c :: rest =>
    if wholeTexts.contains text then "\"" ++ text ++ "\" is not valid JSON"
    else unexpectedIn text.toList c rest
  | _, _ => placed text.toList e

end ReadError
end JsonModel
