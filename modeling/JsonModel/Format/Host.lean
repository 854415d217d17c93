-- Hosts of links: domains, with the characters that other scripts bring into them,
-- addresses of both versions, and the free hosts of schemes that have no rules for
-- them. Hosts without other scripts are told exactly. What other scripts may bring is
-- told by a few ranges in place of the tables of Unicode, and so only nearly: joiners
-- are not held to their context nor labels to one direction, places that have no
-- character yet pass, and of the characters that stand for others only the capitals,
-- the wide forms and the full stops are known. So some domains are taken that have to
-- be refused.
import JsonModel.Format.Address
import JsonModel.Text.LetterCase

namespace JsonModel.Host

/-! ## Characters -/

/-- A character that no host has. -/
def isForbidden (c : Char) : Bool :=
  [0, 9, 10, 13, 32].contains c.toNat || "#/:<>?@[\\]^|".toList.contains c

/-- A character that no domain has. -/
def isForbiddenInDomain (c : Char) : Bool :=
  isForbidden c || c.toNat ≤ 0x1F || c == '%' || c.toNat == 0x7F

/-- The characters above the basic ones that are left out of a domain. -/
def leftOutRanges : List (Nat × Nat) := [
  (0xAD, 0xAD), (0x34F, 0x34F), (0x180B, 0x180D), (0x180F, 0x180F), (0x200B, 0x200B),
  (0x2060, 0x2060), (0x2064, 0x2064), (0xFE00, 0xFE0F), (0xFEFF, 0xFEFF), (0xE0100, 0xE01EF)]

/-- The characters above the basic ones that no domain has: controls, blanks, directions, places
for private use and places without a character. -/
def refusedRanges : List (Nat × Nat) := [
  (0x80, 0xA0), (0x600, 0x605), (0x61C, 0x61C), (0x6DD, 0x6DD), (0x70F, 0x70F), (0x1680, 0x1680),
  (0x180E, 0x180E), (0x2000, 0x200A), (0x200E, 0x200F), (0x2028, 0x202F), (0x205F, 0x205F),
  (0x2061, 0x2063), (0x2065, 0x206F), (0x3000, 0x3000), (0xE000, 0xF8FF), (0xFDD0, 0xFDEF),
  (0xFFF0, 0xFFFF), (0x1FFFE, 0x1FFFF), (0x2FFFE, 0x2FFFF), (0x3FFFE, 0xE00FF),
  (0xE01F0, 0x10FFFF)]

/-- The marks that stand on the character before them. -/
def markRanges : List (Nat × Nat) := [
  (0x300, 0x36F), (0x483, 0x489), (0x591, 0x5BD), (0x1AB0, 0x1ACE), (0x1DC0, 0x1DFF),
  (0x20D0, 0x20F0), (0xFE20, 0xFE2F)]

/-- A character as a domain has it: in lower case, though Cherokee keeps its capitals, wide forms as
the basic ones, every full stop as a point, and nothing for what is left out. -/
def mapped (c : Char) : List Char :=
  let n := c.toNat
  if n < 0x80 then [c.toLower]
  else if inRanges n leftOutRanges then []
  else if n = 0x3002 ∨ n = 0xFF0E ∨ n = 0xFF61 then ['.']
  else if 0xFF01 ≤ n ∧ n ≤ 0xFF5E then [(Char.ofNat (n - 0xFEE0)).toLower]
  else if 0x13A0 ≤ n ∧ n ≤ 0x13F5 then [c]
  else lowerCase c

/-! ## Labels of other scripts -/

/-- The bias that a delta leads to, after it is made small by at most `fuel` divisions. -/
def shrinkDelta : Nat → Nat → Nat → Nat
  | 0, delta, k => k + 36 * delta / (delta + 38)
  | fuel + 1, delta, k =>
    if 455 < delta then shrinkDelta fuel (delta / 35) (k + 36) else k + 36 * delta / (delta + 38)

/-- The next bias of the number system in which such labels are written. -/
def adaptBias (delta points : Nat) (first : Bool) : Nat :=
  let delta := if first then delta / 700 else delta / 2
  shrinkDelta (delta + delta / points).log2 (delta + delta / points) 0

/-- A whole number of that system: its weight and the next digit's place are given. -/
def readDelta : List Char → Nat → Nat → Nat → Nat → Option (Nat × List Char)
  | [], _, _, _, _ => none
  | c :: cs, bias, k, weight, sum => do
    let digit ←
      if isBasicLetter c then some (c.toLower.toNat - 'a'.toNat)
      else if isDecimalDigit c then some (c.toNat - '0'.toNat + 26)
      else none
    let sum := sum + digit * weight
    let threshold := if k ≤ bias then 1 else if bias + 26 ≤ k then 26 else k - bias
    if digit < threshold then some (sum, cs)
    else readDelta cs bias (k + 36) (weight * (36 - threshold)) sum

/-- The characters of a label, given those that are known and the digits that place the others. The
fuel bounds how many others there are. -/
def insertPoints : Nat → List Char → Nat → Nat → Nat → List Nat → Option (List Nat)
  | 0, _, _, _, _, _ => none
  | _ + 1, [], _, _, _, points => some points
  | fuel + 1, cs, n, i, bias, points => do
    let (delta, rest) ← readDelta cs bias 36 1 0
    let count := points.length + 1
    let bias := adaptBias delta count (i == 0)
    let n := n + (i + delta) / count
    let place := (i + delta) % count
    insertPoints fuel rest n (place + 1) bias (points.take place ++ n :: points.drop place)

/-- The characters that the digits of a label stand for, as numbers. -/
def decodeLabel (cs : List Char) : Option (List Nat) :=
  match (splitAt '-' cs).reverse with
  | [] => none
  | digits :: basic =>
    let known := joinWith ['-'] basic.reverse
    insertPoints (digits.length + 1) digits 0x80 0 72 (known.map Char.toNat)

/-! ## Domains -/

/-- A character above the basic ones that a domain has as it is, as far as the ranges tell. -/
def isScriptCharacter (n : Nat) : Bool :=
  0x80 ≤ n && n < 0x110000 && !(0xD800 ≤ n && n < 0xE000) && !inRanges n refusedRanges
    && mapped (Char.ofNat n) == [Char.ofNat n]

/-- Characters that may make a label of another script: each by itself is one that a domain has, and
the first is no mark. What neighbours ask of each other is not looked at. -/
def isScriptLabel (points : List Nat) : Bool :=
  points.all (fun n => n < 0x80 || isScriptCharacter n)
    && !((points.head?.map fun n => inRanges n markRanges).getD true)

/-- A label of a domain. A label that starts with the mark of other scripts has to stand for some
characters, be they basic ones alone. -/
def isLabel (cs : List Char) : Bool :=
  match cs with
  | 'x' :: 'n' :: '-' :: '-' :: rest =>
    match decodeLabel rest with
    | some points => isScriptLabel points
    | none => false
  | cs => cs.all (fun c => c.toNat < 0x80) || isScriptLabel (cs.map Char.toNat)

/-- The characters of a host, each sign of percent with two hexadecimal digits being one byte. -/
def percentDecode : List Char → List UInt8
  | [] => []
  | '%' :: a :: b :: rest =>
    if isHexDigit a && isHexDigit b then UInt8.ofNat (digitsValue 16 [a, b]) :: percentDecode rest
    else '%'.toUInt8 :: percentDecode (a :: b :: rest)
  | c :: rest => (String.ofList [c]).toUTF8.toList ++ percentDecode rest

/-! ## Numbers as hosts -/

/-- The number that a part of an address writes: hexadecimal, octal or decimal. -/
def addressNumber? (cs : List Char) : Option Nat :=
  let digits (base : Nat) (ds : List Char) : Option Nat :=
    if ds.all (isDigitOf base) then some (digitsValue base ds) else none
  match cs with
  | [] => none
  | '0' :: 'x' :: ds => digits 16 ds
  | '0' :: 'X' :: ds => digits 16 ds
  | '0' :: d :: ds => digits 8 (d :: ds)
  | ds => digits 10 ds

/-- The parts of a domain without an empty one at the end. -/
def domainParts (cs : List Char) : List (List Char) :=
  match (splitAt '.' cs).reverse with
  | [] :: part :: parts => (part :: parts).reverse
  | parts => parts.reverse

/-- The last part of a domain is a number, so the whole has to be an address. -/
def endsInNumber (cs : List Char) : Bool :=
  match (domainParts cs).getLast? with
  | some last => (!last.isEmpty && last.all isDecimalDigit) || (addressNumber? last).isSome
  | none => false

/-- Up to four numbers that write an address: all but the last are below 256, and the last fills the
places that are left. -/
def isNumericAddress (cs : List Char) : Bool :=
  let parts := domainParts cs
  match parts.mapM addressNumber? with
  | some numbers =>
    numbers.length ≤ 4 && numbers.dropLast.all (· < 256)
      && (numbers.getLast?.map fun last => decide (last < Nat.pow 256 (5 - numbers.length))).getD false
  | none => false

/-! ## Hosts -/

/-- A domain, or an address written as one. A domain of other scripts is told as nearly as the ranges
above tell its characters. -/
def isDomain (cs : List Char) : Bool :=
  match String.fromUTF8? ⟨(percentDecode cs).toArray⟩ with
  | none => false
  | some text =>
    let domain := text.toList.flatMap mapped
    !domain.isEmpty
      && !domain.any isForbiddenInDomain
      && (splitAt '.' domain).all isLabel
      && (!endsInNumber domain || isNumericAddress domain)

/-- A host. Only some schemes have domains; others take any text without forbidden characters. -/
def isHost (domains : Bool) (cs : List Char) : Bool :=
  match cs with
  | '[' :: rest => rest.getLast? == some ']' && isIpv6 rest.dropLast
  | cs => if domains then isDomain cs else !cs.any isForbidden

end JsonModel.Host
