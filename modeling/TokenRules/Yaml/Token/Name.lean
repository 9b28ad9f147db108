import TokenRules.Yaml.Token
import TokenRules.Yaml.Token.Scalar

/-!
# Reading directives, anchors and tags

A reader fails with `none`.
-/

namespace TokenRules.Yaml

/-- A number of at most nine digits. -/
def readVersionNumber (c : Cursor) : Option (Nat × Cursor) :=
  let (digits, c) := c.takeWhile Char.isDigit
  if digits.isEmpty || 9 < digits.length then none
  else (String.ofList digits).toNat?.map (·, c)

/-- The handle of a tag: a mark, and possibly a name and a second mark. In a directive a name needs
the second mark. -/
def readTagHandle (inDirective : Bool) (c : Cursor) : Option (List Char × Cursor) :=
  if c.peek? != some '!' then none
  else
    let (name, c) := (c.advance 1).takeWhile isNameChar
    if c.peek? == some '!' then some ('!' :: name ++ ['!'], c.advance 1)
    else if inDirective && !name.isEmpty then none
    else some ('!' :: name, c)

/-- The length of a UTF-8 sequence by its first octet. -/
def sequenceLength? (octet : Nat) : Option Nat :=
  if octet < 0x80 then some 1
  else if 0xC0 ≤ octet ∧ octet < 0xE0 then some 2
  else if 0xE0 ≤ octet ∧ octet < 0xF0 then some 3
  else if 0xF0 ≤ octet ∧ octet < 0xF8 then some 4
  else none

/-- An octet written as a percent sign and two hexadecimal digits. -/
def readOctet? : List Char → Option Nat
  | '%' :: high :: low :: _ => do return 16 * (← hexDigit? high) + (← hexDigit? low)
  | _ => none

/-- The character written as escaped octets, and their number. -/
def readEscapedChar? (text : List Char) : Option (Char × Nat) := do
  let first ← readOctet? text
  let length ← sequenceLength? first
  let octets ← (List.range length).mapM fun i => readOctet? (text.drop (3 * i))
  let s ← String.fromUTF8? (octets.map UInt8.ofNat).toByteArray
  match s.toList with
  | [c] => some (c, length)
  | _ => none

/-- The characters of a tag; in a verbatim tag and in a directive some more are allowed. -/
def isTagChar (verbatim : Bool) (c : Char) : Bool :=
  isNameChar c || ";/?:@&=+$.%!~*'()".toList.contains c || (verbatim && ",[]".toList.contains c)

/-- Read the characters of a tag, escapes decoded. -/
def readTagText (verbatim : Bool) : Nat → Cursor → List Char → Option (List Char × Cursor)
  | 0, c, text => some (text, c)
  | fuel + 1, c, text =>
    match c.peek? with
    | none => some (text, c)
    | some x =>
      if x = '%' then
        match readEscapedChar? c.rest with
        | none => none
        | some (y, octets) => readTagText verbatim fuel (c.advance (3 * octets)) (text ++ [y])
      else if isTagChar verbatim x then readTagText verbatim fuel (c.advance 1) (text ++ [x])
      else some (text, c)

/-- The rest of a tag of which `start` is read already; it must not be empty as a whole. -/
def readTagRest (verbatim : Bool) (start : List Char) (c : Cursor) : Option (List Char × Cursor) :=
  match readTagText verbatim (c.rest.length + 1) c start with
  | some ([], _) => none
  | read => read

/-- Read a directive, which starts with a percent sign. -/
def readDirective (c : Cursor) : Option (Token × Cursor) := do
  let (name, c) := (c.advance 1).takeWhile isNameChar
  if name.isEmpty || !endsWord c.peek? then none
  let c := c.skipWhile isSpace
  let (token, c) ← (
    if name = "YAML".toList then do
      let (major, c) ← readVersionNumber c
      if c.peek? != some '.' then none
      let (minor, c) ← readVersionNumber (c.advance 1)
      return (Token.version major minor, c)
    else if name = "TAG".toList then do
      let (handle, c) ← readTagHandle true c
      if !c.peek?.any isSpace then none
      let (lead, c) ← readTagRest true [] (c.skipWhile isSpace)
      if !endsWord c.peek? then none
      return (Token.tagDirective (String.ofList handle) (String.ofList lead), c)
    else none)
  return (token, ← c.skipLineEnd?)

/-- Read the name of an anchor or an alias, after its indicator. -/
def readAnchorName (c : Cursor) : Option (String × Cursor) :=
  let (name, c) := (c.advance 1).takeWhile isNameChar
  if name.isEmpty then none
  else if endsWord c.peek? || c.peek?.any ("?:,]\x7d%@\x60".toList.contains ·) then
    some (String.ofList name, c)
  else none

/-- Read a tag. A lone mark is a tag of its own, with no handle. -/
def readTag (inFlow : Bool) (c : Cursor) : Option (Token × Cursor) := do
  let (handle, suffix, c) ← (
    if c.peekAt? 1 = some '<' then do
      let (suffix, c) ← readTagRest true [] (c.advance 2)
      if c.peek? != some '>' then none
      return ([], suffix, c.advance 1)
    else do
      let (handle, c) ← readTagHandle false c
      if 1 < handle.length && handle.getLast? == some '!' then
        let (suffix, c) ← readTagRest false [] c
        return (handle, suffix, c)
      else
        let (suffix, c) ← readTagText false (c.rest.length + 1) c (handle.drop 1)
        return if suffix.isEmpty then ([], ['!'], c) else (['!'], suffix, c))
  if endsWord c.peek? || (inFlow && c.peek? == some ',') then
    return (.tag (String.ofList handle) (String.ofList suffix), c)
  else none

end TokenRules.Yaml
