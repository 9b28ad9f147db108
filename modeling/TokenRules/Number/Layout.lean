import TokenRules.Number.Decimal

/-!
# Written numbers

A `Layout` holds the decisions that are left once the digits of a number are known. Three layouts
are in use: `Layout.plain` for arguments and costs, `Layout.marked` for values quoted in messages
about a document's structure, and `Layout.scientific` for numbers of a YAML node.
-/

namespace TokenRules

/-- How a number is laid out around its digits. -/
structure Layout where
  tie : Tie
  /-- The positions of the decimal point for which no exponent is written; `none` for all. -/
  positional : Option (Int × Int)
  /-- Whether a whole number ends in `.0`. -/
  marksWhole : Bool
  infinity : String
  nan : String

namespace Layout

def plain : Layout := ⟨.up, none, false, "inf", "NaN"⟩

def marked : Layout := ⟨.up, none, true, "inf", "NaN"⟩

def scientific : Layout := ⟨.even, some (-4, 16), true, ".inf", ".nan"⟩

def zeros (n : Int) : List Char := List.replicate n.toNat '0'

/-- Digits with the decimal point after the first `point` of them. -/
def positionalText (layout : Layout) (digits : List Char) (point : Int) : List Char :=
  if point ≤ 0 then '0' :: '.' :: zeros (-point) ++ digits
  else if digits.length ≤ point then
    digits ++ zeros (point - digits.length) ++ (if layout.marksWhole then ['.', '0'] else [])
  else digits.take point.toNat ++ '.' :: digits.drop point.toNat

/-- One digit, the others after the decimal point, and the exponent of ten. -/
def exponentText (digits : List Char) (point : Int) : List Char :=
  let exponent := point - 1
  digits.take 1 ++ (if digits.length ≤ 1 then [] else '.' :: digits.drop 1) ++
    'e' :: (if exponent < 0 then ['-'] else []) ++ Decimal.digitChars exponent.natAbs

/-- The text of a finite magnitude. -/
def magnitudeText (layout : Layout) (magnitude : Nat) : List Char :=
  if magnitude = 0 then if layout.marksWhole then ['0', '.', '0'] else ['0']
  else
    let decimal := Decimal.shortest layout.tie magnitude
    let digits := Decimal.digitChars decimal.digits
    match layout.positional with
    | none => layout.positionalText digits decimal.point
    | some (least, most) =>
      if least ≤ decimal.point ∧ decimal.point ≤ most then
        layout.positionalText digits decimal.point
      else exponentText digits decimal.point

/-- The text of a number. -/
def text (layout : Layout) (x : Binary64) : String :=
  if x.isNaN then layout.nan
  else (if x.isNegative then "-" else "") ++
    if x.isInfinite then layout.infinity else String.ofList (layout.magnitudeText x.magnitude)

end Layout

end TokenRules
