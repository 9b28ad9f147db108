import TokenRules.Yaml.Value

/-!
# The values of scalars

A plain scalar is a null, a boolean, an integer or a float if it is written like one, and a text
otherwise. Decimal numbers have no superfluous leading zero, and a float has to be finite unless it
is an infinity by name. A number between 64 and 128 bits is an integer that cannot be held.
-/

namespace TokenRules.Yaml

/-- A word after `lead`, if it starts with that. -/
def dropLead? (lead text : List Char) : Option (List Char) :=
  if lead.isPrefixOf text then some (text.drop lead.length) else none

/-- The value of a digit, decimal or a letter of either case. -/
def digitValue (c : Char) : Nat :=
  if c.isDigit then c.toNat - 48
  else if 'a' ≤ c ∧ c ≤ 'z' then c.toNat - 87
  else if 'A' ≤ c ∧ c ≤ 'Z' then c.toNat - 55
  else 36

/-- The number written in digits of a base, of which there is at least one. -/
def readDigits? (base : Nat) (text : List Char) : Option Nat :=
  if text.isEmpty || text.any (base ≤ digitValue ·) then none
  else some (text.foldl (fun n c => base * n + digitValue c) 0)

/-- Whether a text has a sign in front. -/
def hasSign (text : List Char) : Bool := text.head? == some '+' || text.head? == some '-'

/-- A text without a plus sign in front. -/
def dropPlus (text : List Char) : List Char := (dropLead? ['+'] text).getD text

/-- Digits with a zero in front that is not needed, with a sign or not. -/
def hasExtraZero (text : List Char) : Bool :=
  let digits := if hasSign text then text.drop 1 else text
  digits.length > 1 && digits.head? == some '0' && digits.all Char.isDigit

/-- The prefixes of integers that are not decimal. -/
def radixLeads : List (List Char × Nat) := [(['0', 'x'], 16), (['0', 'o'], 8), (['0', 'b'], 2)]

/-- An integer of a base other than ten, without its sign. -/
def readRadix? (text : List Char) : Option Nat :=
  radixLeads.findSome? fun (lead, base) => (dropLead? lead text).bind (readDigits? base)

/-- The integer that a scalar is written like, of any size. -/
def readInteger? (text : List Char) : Option Int :=
  match dropLead? ['-'] text with
  | some text =>
    match readRadix? text with
    | some n => some (-(n : Int))
    | none => if hasExtraZero text then none else (readDigits? 10 text).map fun n => -(n : Int)
  | none =>
    match readRadix? (dropPlus text) with
    | some n => some n
    | none => if hasExtraZero text then none else (readDigits? 10 (dropPlus text)).map Int.ofNat

/-- Whether 128 bits hold an integer, with a sign or without. -/
def fits128 (n : Int) : Bool :=
  match n with
  | .ofNat n => decide (n < 1 <<< 128)
  | .negSucc n => decide (n < 1 <<< 127)

/-- A decimal fraction without a sign. -/
def readDecimal? (text : List Char) : Option Decimal :=
  let whole := text.takeWhile Char.isDigit
  let rest := text.dropWhile Char.isDigit
  let (fraction, rest) := match rest with
    | '.' :: rest => (rest.takeWhile Char.isDigit, rest.dropWhile Char.isDigit)
    | rest => ([], rest)
  let digits := whole ++ fraction
  let exponent? : Option Int := match rest with
    | [] => some 0
    | e :: rest =>
      if e = 'e' ∨ e = 'E' then
        match rest with
        | '-' :: rest => (readDigits? 10 rest).map fun n => -(n : Int)
        | rest => (readDigits? 10 (dropPlus rest)).map Int.ofNat
      else none
  match readDigits? 10 digits, exponent? with
  | some n, some exponent => some ⟨n, exponent - fraction.length⟩
  | _, _ => none

def infinityNames : List String := [".inf", ".Inf", ".INF"]

def nanNames : List String := [".nan", ".NaN", ".NAN"]

/-- The float that a scalar is written like. -/
def readFloat? (text : List Char) : Option Binary64 :=
  let positive := dropPlus text
  if text.head? == some '+' && hasSign positive then none
  else if infinityNames.contains (String.ofList positive) then some (.infinity false)
  else if (dropLead? ['-'] text).any fun t => infinityNames.contains (String.ofList t) then
    some (.infinity true)
  else if nanNames.contains (String.ofList text) then some .nan
  else
    let negative := positive.head? == some '-'
    match readDecimal? (if negative then positive.drop 1 else positive) with
    | none => none
    | some decimal =>
      if decimal.magnitude < Binary64.infiniteMagnitude then
        some (.ofMagnitude negative decimal.magnitude)
      else none

def isNullName (text : String) : Bool := ["null", "Null", "NULL", "~"].contains text

def readBool? (text : String) : Option Bool :=
  if ["true", "True", "TRUE"].contains text then some true
  else if ["false", "False", "FALSE"].contains text then some false
  else none

/-- An integer as a value, or failure if it cannot be held. -/
def ofInteger? (n : Int) : Option Value := (Integer.ofInt? n).map .int

/-- The value of a plain scalar. It fails for an integer that cannot be held. -/
def resolvePlain (text : String) : Option Value :=
  let chars := text.toList
  if text = "" ∨ isNullName text then some .null
  else
    match readBool? text with
    | some b => some (.bool b)
    | none =>
      match (readInteger? chars).filter fits128 with
      | some n => ofInteger? n
      | none =>
        match if hasExtraZero chars then none else readFloat? chars with
        | some x => some (.float x)
        | none => some (.text text)

/-- Tags that force the kind of a scalar. -/
def forced? (tag text : String) : Option (Option Value) :=
  let chars := text.toList
  if tag = "tag:yaml.org,2002:bool" then some ((readBool? text).map .bool)
  else if tag = "tag:yaml.org,2002:int" then
    some (((readInteger? chars).filter fits128).bind ofInteger?)
  else if tag = "tag:yaml.org,2002:float" then some ((readFloat? chars).map .float)
  else if tag = "tag:yaml.org,2002:null" then some (if isNullName text then some .null else none)
  else none

/-- The value of a scalar with a tag that is not one of its own, or with none: a forcing tag says
what it has to be, any other tag makes it a text. It fails if the scalar does not fit. -/
def resolveScalar (tag : Option String) (text : String) (plain : Bool) : Option Value :=
  match tag with
  | some tag => (forced? tag text).getD (some (.text text))
  | none => if plain then resolvePlain text else some (.text text)

end TokenRules.Yaml
