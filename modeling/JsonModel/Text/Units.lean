-- Texts in 16-bit units: a character above 65535 is a pair of units.

namespace JsonModel

/-- The units of a character. -/
def unitsOf (c : Char) : List Nat :=
  if c.toNat < 0x10000 then [c.toNat]
  else [0xD800 + (c.toNat - 0x10000) / 0x400, 0xDC00 + (c.toNat - 0x10000) % 0x400]

/-- How many units a text has. -/
def units16 (cs : List Char) : Nat := (cs.flatMap unitsOf).length

/-- The first unit of a pair. -/
def isHighUnit (unit : Nat) : Bool := 0xD800 ≤ unit && unit < 0xDC00

/-- The second unit of a pair. -/
def isLowUnit (unit : Nat) : Bool := 0xDC00 ≤ unit && unit < 0xE000

/-- The character of a single unit. One half of a pair becomes the replacement character. -/
def singleUnit (unit : Nat) : Char :=
  if isHighUnit unit || isLowUnit unit then Char.ofNat 0xFFFD else Char.ofNat unit

/-- The text that units write. Numbers that are no units stand for their characters. -/
def joinUnits : List Nat → List Char
  | [] => []
  | [unit] => [singleUnit unit]
  | high :: low :: rest =>
    if isHighUnit high && isLowUnit low then
      Char.ofNat (0x10000 + (high - 0xD800) * 0x400 + (low - 0xDC00)) :: joinUnits rest
    else singleUnit high :: joinUnits (low :: rest)

end JsonModel
