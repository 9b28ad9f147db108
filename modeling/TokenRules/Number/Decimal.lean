import TokenRules.Number.Binary64

/-!
# Decimal fractions and binary numbers

`Decimal.magnitude` reads a decimal as the nearest binary64 magnitude. `Decimal.shortest` goes
back: of the decimals that read as a given magnitude it takes one with the fewest digits, and of
those the nearest. All arithmetic is exact.
-/

namespace TokenRules

/-- The number `digits * 10 ^ exponent`. -/
structure Decimal where
  digits : Nat
  exponent : Int
  deriving DecidableEq

/-- Which of two decimals at the same distance is taken. -/
inductive Tie
  /-- The one whose last digit is even. -/
  | even
  /-- The greater one. -/
  | up
  deriving DecidableEq

namespace Decimal

/-- The decimal digits of a number, most significant first. -/
def digitChars (n : Nat) : List Char := Nat.toDigits 10 n

/-- The number of digits in front of the decimal point, negative when zeros follow it. -/
def point (d : Decimal) : Int := (digitChars d.digits).length + d.exponent

/-- The nearest binary64 magnitude. Decimals far outside the range are settled by their size. -/
def magnitude (d : Decimal) : Nat :=
  if d.digits = 0 ∨ d.point < -330 then 0
  else if 310 < d.point then Binary64.infiniteMagnitude
  else Binary64.nearest (d.digits * Nat.pow 10 d.exponent.toNat) (Nat.pow 10 (-d.exponent).toNat)

/-- The same number without trailing zeros among its digits. -/
def trim (d : Decimal) : Decimal :=
  let zeros := ((digitChars d.digits).reverse.takeWhile (· == '0')).length
  ⟨d.digits / Nat.pow 10 zeros, d.exponent + zeros⟩

/-- The interval of reals that round to a magnitude, in half units, with the doubled value itself.
The ends belong to it when the magnitude is even. -/
structure Neighbourhood where
  low : Nat
  value : Nat
  high : Nat
  closed : Bool

def neighbourhood (magnitude : Nat) : Neighbourhood where
  low := Binary64.units (magnitude - 1) + Binary64.units magnitude
  value := 2 * Binary64.units magnitude
  high := Binary64.units magnitude + Binary64.units (magnitude + 1)
  closed := magnitude % 2 == 0

/-- Half units in one. -/
def halfUnits : Nat := 1 <<< 1075

/-- The number of digits of a neighbourhood's value in front of the decimal point. -/
def Neighbourhood.point (n : Neighbourhood) : Int :=
  (digitChars (n.value * Nat.pow 10 400 / halfUnits)).length - 400

/-- The multiple of `10 ^ exponent` that is nearest to the value among those in the interval, if
there is one. Only the two neighbours of the value can be. -/
def Neighbourhood.onGrid? (n : Neighbourhood) (tie : Tie) (exponent : Int) : Option Decimal :=
  let scale := Nat.pow 10 (-exponent).toNat
  let step := halfUnits * Nat.pow 10 exponent.toNat
  let value := n.value * scale
  let inside (digits : Nat) : Bool :=
    if n.closed then decide (n.low * scale ≤ digits * step ∧ digits * step ≤ n.high * scale)
    else decide (n.low * scale < digits * step ∧ digits * step < n.high * scale)
  let lower := value / step
  let above := 2 * (value % step)
  let upward := step < above || (above == step && (tie == .up || lower % 2 == 1))
  match inside lower, inside (lower + 1) with
  | true, true => some ⟨if upward then lower + 1 else lower, exponent⟩
  | true, false => some ⟨lower, exponent⟩
  | false, true => some ⟨lower + 1, exponent⟩
  | false, false => none

/-- A decimal with the fewest digits that reads as the magnitude, and the nearest of those.
Seventeen digits are always enough. -/
def shortest (tie : Tie) (magnitude : Nat) : Decimal :=
  let n := neighbourhood magnitude
  let found := (List.range 17).findSome? fun k => n.onGrid? tie (n.point - (k + 1 : Nat))
  (found.getD ⟨0, 0⟩).trim

end Decimal

end TokenRules
