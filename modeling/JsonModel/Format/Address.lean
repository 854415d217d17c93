-- Internet addresses and address ranges as texts.
import JsonModel.Number.Literal
import JsonModel.Text.Split

namespace JsonModel

/-! ## Version 4 -/

/-- A number up to a limit in plain decimal digits. -/
def isPlainUpTo (limit : Nat) (cs : List Char) : Bool :=
  isPlainDecimal cs && digitsValue 10 cs ≤ limit

/-- Four numbers up to 255 with points between them. -/
def isIpv4 (cs : List Char) : Bool :=
  let parts := splitAt '.' cs
  parts.length == 4 && parts.all (isPlainUpTo 255)

/-- An address of version 4 and the length of its prefix. -/
def isCidrv4 (cs : List Char) : Bool :=
  match splitAt '/' cs with
  | [address, bits] => isIpv4 address && isPlainUpTo 32 bits
  | _ => false

/-! ## Version 6 -/

/-- The rest of an address of version 6, given how many of its eight groups are read and whether
two colons stood between them. The last two groups may be written as an address of version 4. The
fuel bounds the groups. -/
def isIpv6From : Nat → Nat → Bool → List Char → Bool
  | 0, _, _, _ => false
  | _ + 1, groups, shortened, [] => shortened || groups == 8
  | fuel + 1, groups, shortened, c :: cs =>
    if groups == 8 then false
    else if c = ':' then !shortened && isIpv6From fuel (groups + 1) true cs
    else
      let group := ((c :: cs).take 4).takeWhile isHexDigit
      !group.isEmpty &&
        match (c :: cs).drop group.length with
        | [] => isIpv6From fuel (groups + 1) shortened []
        | ':' :: rest => !rest.isEmpty && isIpv6From fuel (groups + 1) shortened rest
        | '.' :: _ => groups ≤ 6 && isIpv4 (c :: cs) && (shortened || groups == 6)
        | _ => false

/-- An address of version 6: eight groups of up to four hexadecimal digits with colons between them,
where two colons stand once for groups left out. -/
def isIpv6 (cs : List Char) : Bool :=
  match cs with
  | ':' :: ':' :: rest => isIpv6From (cs.length + 1) 1 true rest
  | ':' :: _ => false
  | _ => isIpv6From (cs.length + 1) 0 false cs

/-- The length of a prefix of version 6: a text that is the text of the number it writes, which is
not below zero and not above 128. -/
def isPrefixLength (cs : List Char) : Bool :=
  let text := String.ofList cs
  let n := Number.ofText text
  text != "" && n.text == text && !(n.lt .zero) && !((Number.ofNat 128).lt n)

/-- An address of version 6 and the length of its prefix. -/
def isCidrv6 (cs : List Char) : Bool :=
  match splitAt '/' cs with
  | [address, bits] => isPrefixLength bits && isIpv6 address
  | _ => false

end JsonModel
