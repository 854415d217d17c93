-- Reading JSON text. Numbers are rounded to the nearest one, a repeated name
-- keeps its first place and its last value, and blank space around a value is
-- the four blanks of JSON alone.
import JsonModel.Json.Basic
import JsonModel.Json.ReadError
import JsonModel.Number.Decimal

namespace JsonModel.Json

/-- A fault at the start of a text. -/
def fail {α : Type} (fault : ReadFault) (rest : List Char) : Except ReadError (α × List Char) :=
  .error ⟨fault, rest⟩

/-- The blanks of JSON text. -/
def isJsonBlank (c : Char) : Bool := c == ' ' || c == '\t' || c == '\n' || c == '\r'

/-- The text after its leading blanks. -/
def skipBlank (cs : List Char) : List Char := cs.dropWhile isJsonBlank

/-! ## Numbers -/

/-- The digits after a point, if there is a point; at least one has to follow. -/
def readFraction : List Char → Except ReadError (List Char × List Char)
  | '.' :: cs =>
    match cs.span isDecimalDigit with
    | ([], rest) => fail .unterminatedFraction rest
    | (ds, rest) => .ok (ds, rest)
  | cs => .ok ([], cs)

/-- The digits of an exponent, at least one of them. -/
def readExponentDigits (negative : Bool) (cs : List Char) : Except ReadError (Int × List Char) :=
  match cs.span isDecimalDigit with
  | ([], rest) => fail .missingExponent rest
  | (ds, rest) =>
    let n : Int := digitsValue 10 ds
    .ok (if negative then -n else n, rest)

/-- An exponent, if one follows. -/
def readExponent : List Char → Except ReadError (Int × List Char)
  | [] => .ok (0, [])
  | c :: cs =>
    if c = 'e' ∨ c = 'E' then
      match cs with
      | '-' :: cs => readExponentDigits true cs
      | '+' :: cs => readExponentDigits false cs
      | cs => readExponentDigits false cs
    else .ok (0, c :: cs)

/-- The whole part of a number: digits without leading zeros. -/
def readWhole (cs : List Char) : Except ReadError (List Char × List Char) :=
  let (whole, rest) := cs.span isDecimalDigit
  match whole with
  | '0' :: d :: ds => fail .leadingZero (d :: ds ++ rest)
  | whole => .ok (whole, rest)

/-- A number without its sign. -/
def readUnsigned (negative : Bool) (cs : List Char) : Except ReadError (Number × List Char) := do
  let (whole, rest) ← readWhole cs
  let (fraction, rest) ← readFraction rest
  let (exponent, rest) ← readExponent rest
  .ok (.ofDecimal negative ⟨digitsValue 10 (whole ++ fraction), exponent - fraction.length⟩, rest)

/-- A number. -/
def readNumber : List Char → Except ReadError (Number × List Char)
  | '-' :: cs =>
    if (cs.head?.map isDecimalDigit).getD false then readUnsigned true cs
    else fail .noNumberAfterMinus cs
  | cs =>
    if (cs.head?.map isDecimalDigit).getD false then readUnsigned false cs
    else fail .unexpected cs

/-! ## Strings -/

/-- The first of some characters that is no hexadecimal digit, and what follows it. -/
def badHexDigit (digits rest : List Char) : List Char := digits.dropWhile isHexDigit ++ rest

/-- The character that a short escape stands for. -/
def shortEscape? : Char → Option Char
  | '"' => some '"'
  | '\\' => some '\\'
  | '/' => some '/'
  | 'b' => some (Char.ofNat 8)
  | 'f' => some (Char.ofNat 12)
  | 'n' => some '\n'
  | 'r' => some '\r'
  | 't' => some '\t'
  | _ => none

/-- The units and characters up to the closing quote. -/
def readUnits : List Char → Except ReadError (List Nat × List Char)
  | [] => fail .unterminatedString []
  | '"' :: rest => .ok ([], rest)
  | '\\' :: 'u' :: a :: b :: c :: d :: rest =>
    if [a, b, c, d].all isHexDigit then do
      let (units, rest) ← readUnits rest
      .ok (digitsValue 16 [a, b, c, d] :: units, rest)
    else fail .badUnicodeEscape (badHexDigit [a, b, c, d] rest)
  | '\\' :: 'u' :: rest => fail .badUnicodeEscape (badHexDigit rest [])
  | '\\' :: c :: rest =>
    match shortEscape? c with
    | some char => do
      let (units, rest) ← readUnits rest
      .ok (char.toNat :: units, rest)
    | none => fail .badEscape (c :: rest)
  | ['\\'] => fail .unterminatedString []
  | c :: rest =>
    if c.toNat < 32 then fail .badControl (c :: rest) else do
    let (units, rest) ← readUnits rest
    .ok (c.toNat :: units, rest)

/-- The text up to the closing quote. -/
def readString (cs : List Char) : Except ReadError (String × List Char) := do
  let (units, rest) ← readUnits cs
  .ok (String.ofList (joinUnits units), rest)

/-! ## Values -/

/-- A word that has to stand at the start of a text. The fault is where they part. -/
def readWord (value : Json) : List Char → List Char → Except ReadError (Json × List Char)
  | [], rest => .ok (value, rest)
  | _ :: _, [] => fail .unexpected []
  | c :: word, d :: rest =>
    if c = d then readWord value word rest else fail .unexpected (d :: rest)

mutual

/-- A value at the start of a text. The fuel bounds how many values are read inside and beside
each other; the length of the text is enough. -/
def readValue : Nat → List Char → Except ReadError (Json × List Char)
  | 0, cs => fail .unexpected cs
  | fuel + 1, cs =>
    match cs with
    | 'n' :: rest => readWord .null "ull".toList rest
    | 't' :: rest => readWord (.bool true) "rue".toList rest
    | 'f' :: rest => readWord (.bool false) "alse".toList rest
    | '"' :: rest => do
      let (s, rest) ← readString rest
      .ok (.str s, rest)
    | '[' :: rest =>
      match skipBlank rest with
      | ']' :: rest => .ok (.arr [], rest)
      | rest => do
        let (items, rest) ← readItems fuel rest
        .ok (.arr items, rest)
    | '{' :: rest =>
      match skipBlank rest with
      | '}' :: rest => .ok (.obj [], rest)
      | rest => do
        let (ms, rest) ← readMembers .expectedNameOrBrace fuel rest
        .ok (.obj (Members.ofList ms), rest)
    | cs => do
      let (n, rest) ← readNumber cs
      .ok (.num n, rest)

/-- One or more items up to the closing bracket. -/
def readItems : Nat → List Char → Except ReadError (List Json × List Char)
  | 0, cs => fail .unexpected cs
  | fuel + 1, cs => do
    let (item, rest) ← readValue fuel cs
    match skipBlank rest with
    | ']' :: rest => .ok ([item], rest)
    | ',' :: rest => do
      let (items, rest) ← readItems fuel (skipBlank rest)
      .ok (item :: items, rest)
    | rest => fail .expectedCommaOrBracket rest

/-- One or more members up to the closing brace, in the order of the text. -/
def readMembers (missing : ReadFault) : Nat → List Char →
    Except ReadError (List (String × Json) × List Char)
  | 0, cs => fail .unexpected cs
  | fuel + 1, cs =>
    match cs with
    | '"' :: rest => do
      let (name, rest) ← readString rest
      match skipBlank rest with
      | ':' :: rest => do
        let (value, rest) ← readValue fuel (skipBlank rest)
        match skipBlank rest with
        | '}' :: rest => .ok ([(name, value)], rest)
        | ',' :: rest => do
          let (ms, rest) ← readMembers .expectedName fuel (skipBlank rest)
          .ok ((name, value) :: ms, rest)
        | rest => fail .expectedCommaOrBrace rest
      | rest => fail .expectedColon rest
    | cs => fail missing cs

end

/-- The document that a text writes. -/
def read (text : String) : Except ReadError Json := do
  let cs := text.toList
  let (j, rest) ← readValue (cs.length + 1) (skipBlank cs)
  match skipBlank rest with
  | [] => .ok j
  | rest => .error ⟨.textAfterEnd, rest⟩

end JsonModel.Json
