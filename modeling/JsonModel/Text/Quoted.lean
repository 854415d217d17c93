-- Quoted text: a quote, a backslash and the control characters are escaped, every
-- other character stands for itself.

namespace JsonModel.Quoted

/-- How one character is written inside the quotes. -/
def encodeChar (c : Char) : List Char :=
  if c = '"' then ['\\', '"']
  else if c = '\\' then ['\\', '\\']
  else if c.toNat = 8 then ['\\', 'b']
  else if c.toNat = 9 then ['\\', 't']
  else if c.toNat = 10 then ['\\', 'n']
  else if c.toNat = 12 then ['\\', 'f']
  else if c.toNat = 13 then ['\\', 'r']
  else if c.toNat < 32 then
    ['\\', 'u', '0', '0', Nat.digitChar (c.toNat / 16), Nat.digitChar (c.toNat % 16)]
  else [c]

/-- A text in quotes. -/
def encode (s : String) : List Char :=
  '"' :: s.toList.flatMap encodeChar ++ ['"']

end JsonModel.Quoted
