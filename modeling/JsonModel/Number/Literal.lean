-- Numbers written by hand: white space around them is ignored, the empty text is
-- zero, and hexadecimal, octal and binary numbers are read too. Any other text is
-- NaN.
import JsonModel.Number.Decimal
import JsonModel.Text.Blank
import JsonModel.Text.Digits

namespace JsonModel.Number

/-- The whole number that digits of a base write: one digit at least, and nothing else. -/
def ofBase (base : Nat) (cs : List Char) : Number :=
  if cs ≠ [] ∧ cs.all (isDigitOf base) then ofNat (digitsValue base cs) else .nan

/-- An exponent up to the end of the text: nothing, or the mark, a sign if wanted, and digits. -/
def literalExponent? : List Char → Option Int
  | [] => some 0
  | mark :: cs =>
    let digits (ds : List Char) : Option Int :=
      if ds ≠ [] ∧ ds.all isDecimalDigit then some (digitsValue 10 ds) else none
    if mark = 'e' ∨ mark = 'E' then
      match cs with
      | '-' :: ds => (digits ds).map (- ·)
      | '+' :: ds => digits ds
      | ds => digits ds
    else none

/-- A decimal number without its sign. The digits may stand on one side of the point only. -/
def literalUnsigned (negative : Bool) (cs : List Char) : Number :=
  if cs = "Infinity".toList then .infinite negative
  else
    let (whole, rest) := cs.span isDecimalDigit
    let (fraction, rest) :=
      match rest with
      | '.' :: rest => rest.span isDecimalDigit
      | rest => ([], rest)
    match literalExponent? rest with
    | some exponent =>
      if whole ++ fraction = [] then .nan
      else ofDecimal negative ⟨digitsValue 10 (whole ++ fraction), exponent - fraction.length⟩
    | none => .nan

/-- The number that a text writes, or NaN. -/
def ofText (text : String) : Number :=
  match trimBlank text.toList with
  | [] => zero
  | '0' :: mark :: ds =>
    if mark = 'x' ∨ mark = 'X' then ofBase 16 ds
    else if mark = 'o' ∨ mark = 'O' then ofBase 8 ds
    else if mark = 'b' ∨ mark = 'B' then ofBase 2 ds
    else literalUnsigned false ('0' :: mark :: ds)
  | '-' :: cs => literalUnsigned true cs
  | '+' :: cs => literalUnsigned false cs
  | cs => literalUnsigned false cs

end JsonModel.Number
