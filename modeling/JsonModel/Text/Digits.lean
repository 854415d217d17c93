-- Runs of digits and the numbers they write.

namespace JsonModel

/-- The value of a digit of a base up to 36, letters of either case counting from ten. -/
def digitValue? (base : Nat) (c : Char) : Option Nat :=
  let value :=
    if '0' ≤ c ∧ c ≤ '9' then c.toNat - '0'.toNat
    else if 'a' ≤ c ∧ c ≤ 'z' then c.toNat - 'a'.toNat + 10
    else if 'A' ≤ c ∧ c ≤ 'Z' then c.toNat - 'A'.toNat + 10
    else base
  if value < base then some value else none

/-- A digit of a base. -/
def isDigitOf (base : Nat) (c : Char) : Bool := (digitValue? base c).isSome

/-- The number that a run of digits writes. -/
def digitsValue (base : Nat) (cs : List Char) : Nat :=
  cs.foldl (fun n c => n * base + (digitValue? base c).getD 0) 0

/-- The decimal digits of a number. -/
def decimalText (n : Nat) : String := String.ofList (Nat.toDigits 10 n)

/-- A decimal digit. -/
def isDecimalDigit (c : Char) : Bool := isDigitOf 10 c

/-- A hexadecimal digit. -/
def isHexDigit (c : Char) : Bool := isDigitOf 16 c

/-- A letter of the basic alphabet. -/
def isBasicLetter (c : Char) : Bool := ('a' ≤ c && c ≤ 'z') || ('A' ≤ c && c ≤ 'Z')

/-- A letter of the basic alphabet or a decimal digit. -/
def isBasicAlphanumeric (c : Char) : Bool := isBasicLetter c || isDecimalDigit c

/-- A run of decimal digits without leading zeros: zero itself, or a run that starts otherwise. -/
def isPlainDecimal : List Char → Bool
  | [] => false
  | ['0'] => true
  | c :: cs => c != '0' && (c :: cs).all isDecimalDigit

end JsonModel
