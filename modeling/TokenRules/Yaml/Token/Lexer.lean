import TokenRules.Yaml.Token.Name

/-!
# From text to tokens

Two things make the tokens of a text more than its words. A change of indentation opens and closes
blocks. And only a colon tells that the node before it was a key, so a node that may be a key is
held back, and a key token is put in front of it once the colon is read. Such a node has to be on
one line and shorter than 1024 characters.

`Token.ofText` gives the tokens up to the end of the stream or up to where the text is no longer
well formed; in that case the end of the stream is missing.
-/

namespace TokenRules.Yaml

/-- A place where a key may have begun. -/
structure KeyPlace where
  /-- Whether nothing else than a key can stand there. -/
  required : Bool
  /-- The number of the token that the key would begin with. -/
  number : Nat
  index : Nat
  line : Nat
  column : Nat

/-- A text in the middle of being cut into tokens. -/
structure Lexer where
  cursor : Cursor
  /-- Tokens that are read but not yet handed out. -/
  held : List Token
  /-- Number of tokens handed out. -/
  given : Nat
  /-- Columns of the open blocks, innermost first. -/
  indents : List Nat
  /-- Where a key may have begun in the collection at hand, and in those around it. -/
  keys : Option KeyPlace × List (Option KeyPlace)
  /-- Whether a key may begin here. -/
  keyAllowed : Bool

namespace Lexer

def ofText (text : List Char) : Lexer := ⟨.ofText text, [], 0, [], (none, []), true⟩

/-- Column of the innermost block, one left of the text if there is none. -/
def indent (l : Lexer) : Int := (l.indents.head?.map Int.ofNat).getD (-1)

/-- Whether the position is inside brackets or braces. -/
def inFlow (l : Lexer) : Bool := !l.keys.2.isEmpty

def hold (l : Lexer) (token : Token) : Lexer := { l with held := l.held ++ [token] }

/-- Put a token in front of the one with a number. -/
def holdBefore (l : Lexer) (number : Nat) (token : Token) : Lexer :=
  { l with held := l.held.insertIdx (number - l.given) token }

/-- Move to a position and allow a key there or not. -/
def moveTo (l : Lexer) (cursor : Cursor) (keyAllowed : Bool) : Lexer :=
  { l with cursor, keyAllowed }

/-- Whether a key can no longer have begun at a place. -/
def isStale (l : Lexer) (place : KeyPlace) : Bool :=
  place.line < l.cursor.line || place.index + 1024 < l.cursor.index

/-- Give up a place if it is stale. -/
def refresh (l : Lexer) : Option KeyPlace → Option (Option KeyPlace)
  | none => some none
  | some place =>
    if !l.isStale place then some (some place)
    else if place.required then none
    else some none

/-- Give up the places that are stale. -/
def dropStaleKeys (l : Lexer) : Option Lexer := do
  return { l with keys := (← l.refresh l.keys.1, ← l.keys.2.mapM l.refresh) }

/-- Give up the place in the collection at hand. -/
def dropKey (l : Lexer) : Option Lexer :=
  if l.keys.1.any (·.required) then none else some { l with keys := (none, l.keys.2) }

/-- Note that a key may begin here, if one is allowed. -/
def saveKey (l : Lexer) : Option Lexer :=
  if l.keyAllowed then do
    let l ← l.dropKey
    let place := {
      required := !l.inFlow && l.indent == l.cursor.column
      number := l.given + l.held.length
      index := l.cursor.index
      line := l.cursor.line
      column := l.cursor.column }
    return { l with keys := (some place, l.keys.2) }
  else some l

/-- Open a block at a column if it is right of the innermost block. The opening token goes in front
of the one with the number given. -/
def openBlock (l : Lexer) (column number : Nat) (token : Token) : Lexer :=
  if !l.inFlow && decide (l.indent < column) then
    { l.holdBefore number token with indents := column :: l.indents }
  else l

/-- Close the blocks that are right of a column. -/
def closeBlocks (l : Lexer) (column : Int) : Lexer :=
  if l.inFlow then l
  else
    let closed := l.indents.takeWhile (column < Int.ofNat ·)
    { l with
      held := l.held ++ closed.map fun _ => .blockEnd
      indents := l.indents.drop closed.length }

/-- Move over blanks, comments and line breaks. A line break outside of brackets allows a key. -/
def skipToToken : Nat → Lexer → Lexer
  | 0, l => l
  | fuel + 1, l =>
    let c := l.cursor
    let c := if c.index == 0 && c.peek? == some '\ufeff' then c.advance 1 else c
    let c := c.skipWhile fun x => x == ' ' || (x == '\t' && (l.inFlow || !l.keyAllowed))
    let c := c.skipComment
    if c.peek?.any isBreak then
      skipToToken fuel (l.moveTo c.skipBreak (!l.inFlow || l.keyAllowed))
    else { l with cursor := c }

/-- The end of the stream is the end of a line and closes everything. -/
def readStreamEnd (l : Lexer) : Option Lexer := do
  let l ← (l.closeBlocks (-1)).dropKey
  let c := l.cursor
  let c := if c.column = 0 then c else { c with line := c.line + 1, column := 0 }
  return (l.moveTo c false).hold .streamEnd

def readDirectiveToken (l : Lexer) : Option Lexer := do
  let l ← (l.closeBlocks (-1)).dropKey
  let (token, c) ← readDirective l.cursor
  return (l.moveTo c false).hold token

def readDocumentMark (l : Lexer) (token : Token) : Option Lexer := do
  let l ← (l.closeBlocks (-1)).dropKey
  return (l.moveTo (l.cursor.advance 3) false).hold token

def readFlowStart (l : Lexer) (token : Token) : Option Lexer := do
  let l ← l.saveKey
  return ({ l with keys := (none, l.keys.1 :: l.keys.2) }.moveTo (l.cursor.advance 1) true).hold
    token

def readFlowEnd (l : Lexer) (token : Token) : Option Lexer := do
  let l ← l.dropKey
  let keys := match l.keys.2 with
    | [] => l.keys
    | key :: keys => (key, keys)
  return ({ l with keys }.moveTo (l.cursor.advance 1) false).hold token

def readFlowEntry (l : Lexer) : Option Lexer := do
  let l ← l.dropKey
  return (l.moveTo (l.cursor.advance 1) true).hold .flowEntry

/-- Open a block here for an indicator; one is only allowed where a key is. -/
def openBlockHere (l : Lexer) (token : Token) : Option Lexer :=
  if l.inFlow then some l
  else if l.keyAllowed then
    some (l.openBlock l.cursor.column (l.given + l.held.length) token)
  else none

def readBlockEntry (l : Lexer) : Option Lexer := do
  let l ← (← l.openBlockHere .blockSequenceStart).dropKey
  return (l.moveTo (l.cursor.advance 1) true).hold .blockEntry

def readKey (l : Lexer) : Option Lexer := do
  let l ← (← l.openBlockHere .blockMappingStart).dropKey
  return (l.moveTo (l.cursor.advance 1) (!l.inFlow)).hold .key

/-- A colon turns what may have been a key into one. -/
def readValue (l : Lexer) : Option Lexer :=
  match l.keys.1 with
  | some place =>
    let l := (l.holdBefore place.number .key).openBlock place.column place.number
      .blockMappingStart
    some (({ l with keys := (none, l.keys.2) }.moveTo (l.cursor.advance 1) false).hold .value)
  | none => do
    let l ← l.openBlockHere .blockMappingStart
    return (l.moveTo (l.cursor.advance 1) (!l.inFlow)).hold .value

def readName (l : Lexer) (token : String → Token) : Option Lexer := do
  let l ← l.saveKey
  let (name, c) ← readAnchorName l.cursor
  return (l.moveTo c false).hold (token name)

def readTagToken (l : Lexer) : Option Lexer := do
  let l ← l.saveKey
  let (token, c) ← readTag l.inFlow l.cursor
  return (l.moveTo c false).hold token

def readBlockScalar (l : Lexer) (literal : Bool) : Option Lexer := do
  let l ← l.dropKey
  let (text, c) ← readBlock literal l.indent l.cursor
  return (l.moveTo c true).hold (.scalar text false)

def readQuotedScalar (l : Lexer) (double : Bool) : Option Lexer := do
  let l ← l.saveKey
  let (text, c) ← readQuoted double l.cursor
  return (l.moveTo c false).hold (.scalar text false)

def readPlainScalar (l : Lexer) : Option Lexer := do
  let l ← l.saveKey
  let (text, lines, c) ← readPlain l.inFlow (l.indent + 1) l.cursor
  return (l.moveTo c lines).hold (.scalar text true)

/-- Characters that begin a plain scalar only before some others, if at all. -/
def isIndicator (c : Char) : Bool :=
  isSpace c || "-?:,[]\x7b\x7d#&*!|>'\"%@\x60".toList.contains c

/-- Read the token that begins with the character `x` at the position of the lexer. -/
def readTokenAt (l : Lexer) (x : Char) : Option Lexer :=
  let c := l.cursor
  let last := endsWord (c.peekAt? 1)
  if c.column = 0 ∧ x = '%' then l.readDirectiveToken
  else if c.atMark '-' then l.readDocumentMark .documentStart
  else if c.atMark '.' then l.readDocumentMark .documentEnd
  else if x = '[' then l.readFlowStart .flowSequenceStart
  else if x = '\x7b' then l.readFlowStart .flowMappingStart
  else if x = ']' then l.readFlowEnd .flowSequenceEnd
  else if x = '\x7d' then l.readFlowEnd .flowMappingEnd
  else if x = ',' then l.readFlowEntry
  else if x = '-' ∧ last then l.readBlockEntry
  else if x = '?' ∧ (l.inFlow ∨ last) then l.readKey
  else if x = ':' ∧ (l.inFlow ∨ last) then l.readValue
  else if x = '*' then l.readName .alias
  else if x = '&' then l.readName .anchor
  else if x = '!' then l.readTagToken
  else if x = '|' ∧ !l.inFlow then l.readBlockScalar true
  else if x = '>' ∧ !l.inFlow then l.readBlockScalar false
  else if x = '\'' then l.readQuotedScalar false
  else if x = '"' then l.readQuotedScalar true
  else if !isIndicator x ∨ (x = '-' ∧ !(c.peekAt? 1).any isSpace) ∨
      (!l.inFlow ∧ (x = '?' ∨ x = ':') ∧ !last) then
    l.readPlainScalar
  else none

/-- Read one more token, and what its indentation opens or closes. -/
def readToken (l : Lexer) : Option Lexer := do
  let l := skipToToken (l.cursor.rest.length + 1) l
  let l ← l.dropStaleKeys
  match l.cursor.peek? with
  | none => l.readStreamEnd
  | some x => (l.closeBlocks l.cursor.column).readTokenAt x

/-- Whether a key may have begun at the first token held. -/
def firstMayBeKey (l : Lexer) : Bool :=
  l.keys.1.any (·.number == l.given) || l.keys.2.any (·.any (·.number == l.given))

/-- Hand out tokens, reading further while none is held or a key may have begun at the first. -/
def tokens : Nat → Lexer → List Token
  | 0, _ => []
  | fuel + 1, l =>
    match l.held with
    | [] =>
      match l.readToken with
      | none => []
      | some l => tokens fuel l
    | token :: held =>
      match l.dropStaleKeys with
      | none => []
      | some l =>
        if l.firstMayBeKey then
          match l.readToken with
          | none => []
          | some l => tokens fuel l
        else if token = .streamEnd then [token]
        else token :: tokens fuel { l with held, given := l.given + 1 }

end Lexer

/-- The tokens of a text. A round reads or hands out a token; no character brings more than a key,
the start and the end of a block and a token of its own, which bounds the number of rounds. -/
def Token.ofText (text : String) : List Token :=
  let text := text.toList
  if text.all isAllowed then (Lexer.ofText text).tokens (5 * text.length + 10) else []

end TokenRules.Yaml
