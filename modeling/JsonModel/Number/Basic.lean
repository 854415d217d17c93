-- The numbers of JSON documents. A number is a binary64 value: the smallest
-- positive one is 2⁻¹⁰⁷⁴, and every finite one is a whole count of it with a
-- sign. So order, equality and divisibility are questions about whole numbers,
-- and no step rounds where the rule does not say so. Powers of whole numbers are
-- written `Nat.pow`: what `^` stands for depends on the libraries that are at hand.

namespace JsonModel

/-- How many units make one: the unit is 2⁻¹⁰⁷⁴. -/
def unitsPerOne : Nat := Nat.pow 2 1074

/-- The first count of units that is too large for a finite number. -/
def unitLimit : Nat := Nat.pow 2 2098

/-- The distance between neighbouring numbers at a count of units: 53 binary digits are kept. -/
def spacing (units : Nat) : Nat := Nat.pow 2 (units.log2 - 52)

/-- A count of units that a number can have. -/
def Representable (units : Nat) : Prop := units < unitLimit ∧ spacing units ∣ units

instance (units : Nat) : Decidable (Representable units) :=
  inferInstanceAs (Decidable (_ ∧ _))

/-- The size of a finite number, in units. -/
structure Magnitude where
  units : Nat
  representable : Representable units
deriving DecidableEq

/-- A binary64 value. Zero has two signs, and NaN stands for all its encodings. -/
inductive Number
  | finite (negative : Bool) (size : Magnitude)
  | infinite (negative : Bool)
  | nan
deriving DecidableEq

namespace Number

/-! ## Making numbers -/

/-- A sign and a count of units: a count that no finite number has is infinite. -/
def ofUnits (negative : Bool) (units : Nat) : Number :=
  if h : Representable units then .finite negative ⟨units, h⟩ else .infinite negative

/-- The whole number nearest a quotient. A tie goes to the even neighbour. -/
def nearestEven (num den : Nat) : Nat :=
  let below := num / den
  let twice := 2 * (num % den)
  if twice < den then below
  else if den < twice then below + 1
  else if below % 2 = 0 then below else below + 1

/-- The count of units nearest a quotient among those with 53 binary digits. -/
def nearestUnits (num den : Nat) : Nat :=
  let step := spacing (num / den)
  nearestEven num (den * step) * step

/-- The number nearest `num / den` units; from the limit on it is infinite. -/
def ofFraction (negative : Bool) (num den : Nat) : Number :=
  ofUnits negative (nearestUnits num den)

/-- Positive zero. -/
def zero : Number := ofUnits false 0

/-- Negative zero. -/
def negativeZero : Number := ofUnits true 0

/-- The number nearest a whole number. -/
def ofNat (n : Nat) : Number := ofFraction false (n * unitsPerOne) 1

/-- The number of the other sign. -/
def neg : Number → Number
  | .finite negative size => .finite (!negative) size
  | .infinite negative => .infinite (!negative)
  | .nan => .nan

/-- The number without its sign. -/
def abs : Number → Number
  | .finite _ size => .finite false size
  | .infinite _ => .infinite false
  | .nan => .nan

/-! ## Comparing numbers -/

/-- The number as a count of units with a sign. Infinity stands at the limit, NaN nowhere. -/
def position : Number → Option Int
  | .finite negative size => some (if negative then -(size.units : Int) else size.units)
  | .infinite negative => some (if negative then -(unitLimit : Int) else unitLimit)
  | .nan => none

/-- A number is at most another. -/
def le (a b : Number) : Bool :=
  match a.position, b.position with
  | some x, some y => decide (x ≤ y)
  | _, _ => false

/-- A number is less than another. -/
def lt (a b : Number) : Bool :=
  match a.position, b.position with
  | some x, some y => decide (x < y)
  | _, _ => false

/-- Two numbers are the same value. -/
def same (a b : Number) : Bool :=
  match a.position, b.position with
  | some x, some y => decide (x = y)
  | _, _ => false

/-! ## Whole numbers -/

/-- Neither infinite nor NaN. -/
def isFinite : Number → Bool
  | .finite .. => true
  | _ => false

/-- A finite number without a fractional part. -/
def isWhole : Number → Bool
  | .finite _ size => size.units % unitsPerOne == 0
  | _ => false

/-- The whole number that a number is, if it is one. -/
def toInt? : Number → Option Int
  | .finite negative size =>
    if size.units % unitsPerOne = 0 then
      let n : Int := (size.units / unitsPerOne : Nat)
      some (if negative then -n else n)
    else none
  | _ => none

/-- The position in a list that a number names: a whole number that is not negative. -/
def toIndex? (n : Number) : Option Nat := n.toInt?.bind Int.toNat?

/-- The greatest whole number below which every whole number is a number of its own. -/
def maxSafe : Number := ofNat (Nat.pow 2 53 - 1)

/-- The least whole number above which every whole number is a number of its own. -/
def minSafe : Number := maxSafe.neg

/-! ## Multiples -/

/-- The quotient of two finite numbers, rounded to the nearest number, as a size without sign.
The divisor is not zero. -/
def quotient (a b : Magnitude) : Number := ofFraction false (a.units * unitsPerOne) b.units

/-- A size is a whole number, up to the rounding of a quotient: its distance to the nearest whole
number is less than 2⁻⁵⁰ of the size, or of one where the size is less. -/
def nearlyWhole (size : Magnitude) : Bool :=
  let above := size.units % unitsPerOne
  let distance := min above (unitsPerOne - above)
  distance == 0 || decide (distance * Nat.pow 2 50 < max size.units unitsPerOne)

/-- A finite number is a multiple of a step. Nothing is a multiple of zero, and every finite number
is one of infinity, the quotient being zero. -/
def isMultipleOf : Number → Number → Bool
  | .finite _ a, .finite _ b =>
    if b.units = 0 then false
    else match quotient a b with
      | .finite _ q => nearlyWhole q
      | _ => false
  | .finite .., .infinite _ => true
  | _, _ => false

end Number
end JsonModel
