/-!
# Binary floating-point numbers of 64 bits

A number is its IEEE 754 word. Without its sign bit the word is a natural number, its *magnitude*,
and magnitudes are ordered like the values they stand for; so comparison needs no arithmetic on
reals, and exact values are natural numbers of *units*, a unit being the least positive number,
2 ^ (-1074).
-/

namespace TokenRules

/-- A binary64 number, given by its word. -/
structure Binary64 where
  bits : UInt64
  deriving DecidableEq, Inhabited

namespace Binary64

/-- The least magnitude of a normal number: the lowest bit of the exponent field. -/
def implicitBit : Nat := 1 <<< 52

/-- The sign bit of a word. -/
def signBit : Nat := 1 <<< 63

/-- The word of positive infinity. -/
def infiniteMagnitude : Nat := 2047 * implicitBit

/-- The number with a magnitude and a sign. -/
def ofMagnitude (negative : Bool) (magnitude : Nat) : Binary64 :=
  ⟨UInt64.ofNat (if negative then signBit + magnitude else magnitude)⟩

def zero : Binary64 := ⟨0⟩

def infinity (negative : Bool) : Binary64 := ofMagnitude negative infiniteMagnitude

def nan : Binary64 := ⟨0x7FF8000000000000⟩

/-- The word without its sign bit. -/
def magnitude (x : Binary64) : Nat := x.bits.toNat % signBit

def isNegative (x : Binary64) : Bool := decide (signBit ≤ x.bits.toNat)

def isNaN (x : Binary64) : Bool := decide (infiniteMagnitude < x.magnitude)

def isInfinite (x : Binary64) : Bool := x.magnitude == infiniteMagnitude

/-- Place of a number that is no NaN in the order of numbers; both zeros are at place 0. -/
def place (x : Binary64) : Int :=
  if x.isNegative then -(x.magnitude : Int) else x.magnitude

/-- IEEE 754 order: a NaN is not below anything. -/
def below (x y : Binary64) : Bool := !x.isNaN && !y.isNaN && decide (x.place < y.place)

/-- IEEE 754 equality: the zeros are equal and a NaN is not equal to itself. -/
def agrees (x y : Binary64) : Bool := !x.isNaN && !y.isNaN && x.place == y.place

/-- Equality with all NaNs taken for one number. -/
def agreesOrNaN (x y : Binary64) : Bool := (x.isNaN && y.isNaN) || x.agrees y

/-- The exact value of a magnitude in units. The formula goes on evenly past the largest finite
magnitude, where it gives the value that the next number would have. -/
def units (magnitude : Nat) : Nat :=
  let exponent := magnitude / implicitBit
  let fraction := magnitude % implicitBit
  if exponent = 0 then fraction else (implicitBit + fraction) <<< (exponent - 1)

/-- A quotient rounded to the nearest integer, a tie to the even one. -/
def roundDiv (num den : Nat) : Nat :=
  let quotient := num / den
  let remainder := num % den
  if den < 2 * remainder ∨ (2 * remainder = den ∧ quotient % 2 = 1) then quotient + 1
  else quotient

/-- The magnitude nearest to `num / den`, a tie to the even one; infinite past the largest. The
rounded significand is added to the exponent field, so a carry out of it raises the exponent. -/
def nearest (num den : Nat) : Nat :=
  let scaled := num <<< 1074
  let exponent := Nat.log2 (scaled / den) - 52
  min infiniteMagnitude (exponent * implicitBit + roundDiv scaled (den <<< exponent))

/-- The number nearest to an integer. -/
def ofInt (n : Int) : Binary64 := ofMagnitude (n < 0) (nearest n.natAbs 1)

end Binary64

end TokenRules
