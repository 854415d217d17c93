-- Numbers as decimals. Reading takes the number nearest a decimal; writing takes
-- the shortest decimal that reads back, and of two such the nearer one.
import JsonModel.Number.Basic

namespace JsonModel

/-- The value `digits * 10 ^ exponent`. -/
structure Decimal where
  digits : Nat
  exponent : Int
deriving DecidableEq

namespace Number

/-! ## Reading -/

/-- The number nearest a decimal. The two tests in front only keep the powers small: what they
cut off is far above the largest and far below the smallest number. -/
def ofDecimal (negative : Bool) (d : Decimal) : Number :=
  if d.digits = 0 then ofUnits negative 0
  else if 400 < d.exponent then .infinite negative
  else if d.exponent < -(400 + d.digits.log2 : Nat) then ofUnits negative 0
  else
    ofFraction negative (d.digits * Nat.pow 10 d.exponent.toNat * unitsPerOne)
      (Nat.pow 10 (-d.exponent).toNat)

end Number

/-! ## The shortest decimal -/

namespace Magnitude

/-- Where the first digit of a size that is not zero stands: the size is less than ten to this
power, and not less than ten to the power before. -/
def leadingPlace (size : Magnitude) : Int :=
  (Nat.toDigits 10 (size.units * Nat.pow 10 400 / unitsPerOne)).length - 400

/-- The two neighbours of a size among the multiples of `10 ^ place`, the nearer one first. -/
def neighbours (size : Magnitude) (place : Int) : List Decimal :=
  let num := size.units * Nat.pow 10 (-place).toNat
  let den := unitsPerOne * Nat.pow 10 place.toNat
  let below : Decimal := ⟨num / den, place⟩
  let above : Decimal := ⟨num / den + 1, place⟩
  if 2 * (num % den) ≤ den then [below, above] else [above, below]

/-- A decimal reads back to this size. -/
def ReadsBack (size : Magnitude) (d : Decimal) : Prop :=
  Number.ofDecimal false d = .finite false size

instance (size : Magnitude) (d : Decimal) : Decidable (size.ReadsBack d) :=
  inferInstanceAs (Decidable (_ = _))

/-- All digits of a size: the unit is 5¹⁰⁷⁴ times 10⁻¹⁰⁷⁴. -/
def exact (size : Magnitude) : Decimal := ⟨size.units * Nat.pow 5 1074, -1074⟩

/-- The decimal with the fewest digits that reads back, of two such the nearer one. Seventeen
digits are always enough. -/
def shortest (size : Magnitude) : Decimal :=
  let first := size.leadingPlace
  let hit := (List.range 17).findSome? fun k =>
    (size.neighbours (first - (k + 1 : Nat))).find? fun d => decide (size.ReadsBack d)
  hit.getD size.exact

end Magnitude

/-- A decimal without the zeros at the end of its digits; at most `fuel` of them are dropped. -/
def Decimal.trim : Nat → Decimal → Decimal
  | 0, d => d
  | fuel + 1, d =>
    if d.digits ≠ 0 ∧ d.digits % 10 = 0 then trim fuel ⟨d.digits / 10, d.exponent + 1⟩ else d

/-! ## The text -/

/-- How the digits of a number are laid out. -/
structure NumberLayout where
  /-- The point stands among the digits, or up to this many zeros follow it before the digits. -/
  zerosAfterPoint : Nat
  /-- A number with more places before the point than this is written with an exponent. -/
  placesBeforePoint : Nat
  /-- What stands before an exponent that is not negative. -/
  plus : List Char
  infinity : List Char
  nan : List Char

/-- Numbers are written with up to 21 places before the point and up to five zeros after it, and
otherwise with one digit before the point and an exponent with its sign. -/
def numberLayout : NumberLayout where
  zerosAfterPoint := 5
  placesBeforePoint := 21
  plus := ['+']
  infinity := "Infinity".toList
  nan := "NaN".toList

namespace NumberLayout

/-- The exponent of a number whose first digit counts ten to that power. -/
def exponent (layout : NumberLayout) (e : Int) : List Char :=
  'e' :: (if e < 0 then ['-'] else layout.plus) ++ Nat.toDigits 10 e.natAbs

/-- The text of a decimal that is not zero. -/
def decimal (layout : NumberLayout) (d : Decimal) : List Char :=
  let ds := Nat.toDigits 10 d.digits
  let places := d.exponent + ds.length
  if 0 < places ∧ places ≤ layout.placesBeforePoint then
    if 0 ≤ d.exponent then ds ++ List.replicate d.exponent.toNat '0'
    else ds.take places.toNat ++ '.' :: ds.drop places.toNat
  else if places ≤ 0 ∧ -places ≤ layout.zerosAfterPoint then
    '0' :: '.' :: List.replicate (-places).toNat '0' ++ ds
  else match ds with
    | [] => []
    | [d] => d :: layout.exponent (places - 1)
    | d :: rest => d :: '.' :: rest ++ layout.exponent (places - 1)

/-- The text of a size without sign. -/
def size (layout : NumberLayout) (m : Magnitude) : List Char :=
  if m.units = 0 then ['0']
  else layout.decimal (m.shortest.trim m.shortest.digits.log2)

/-- The text of a number. The sign of zero is not written. -/
def number (layout : NumberLayout) : Number → List Char
  | .finite negative m =>
    if negative ∧ m.units ≠ 0 then '-' :: layout.size m else layout.size m
  | .infinite negative => if negative then '-' :: layout.infinity else layout.infinity
  | .nan => layout.nan

end NumberLayout

/-- The text of a number. -/
def Number.text (n : Number) : String := String.ofList (numberLayout.number n)

end JsonModel
