-- The text that bytes hold. Any bytes hold one: a byte that starts no character is
-- read as the replacement character.

namespace JsonModel.Utf8

/-- What stands for a byte that starts no character. -/
def replacement : Char := Char.ofNat 0xFFFD

/-- The characters from a place on. -/
def charactersFrom (bytes : ByteArray) (place : Nat) : List Char :=
  if place < bytes.size then
    match bytes.utf8DecodeChar? place with
    | some c => c :: charactersFrom bytes (place + c.utf8Size)
    | none => replacement :: charactersFrom bytes (place + 1)
  else []
termination_by bytes.size - place
decreasing_by
  · have := c.utf8Size_pos
    omega
  · omega

/-- The text of some bytes. -/
def decode (bytes : ByteArray) : String := String.ofList (charactersFrom bytes 0)

end JsonModel.Utf8
