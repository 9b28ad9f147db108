import TokenRules.Yaml.Token.Lexer

/-!
# From tokens to events

Events say which nodes a stream holds and how they nest; tags are written out in full and nodes
that are left out are empty scalars. `Event.ofTokens` follows the grammar one event at a time, with
a stack of what is still to come. The list of events ends with the end of the stream, or earlier
where the grammar is violated or the tokens end.
-/

namespace TokenRules.Yaml

/-- What may stand in front of a node. -/
structure Properties where
  anchor : Option String
  tag : Option String

def Properties.none : Properties := ⟨Option.none, Option.none⟩

inductive Event
  | documentStart
  | documentEnd
  | streamEnd
  | alias (name : String)
  | scalar (properties : Properties) (text : String) (plain : Bool)
  | sequenceStart (properties : Properties)
  | sequenceEnd
  | mappingStart (properties : Properties)
  | mappingEnd

/-- What the grammar expects next. -/
inductive Goal
  /-- A document, which may begin without a mark only if it is the first. -/
  | document (first : Bool)
  | documentContent
  | documentEnd
  | blockNode
  | blockSequenceFirst
  | blockSequenceItem
  | indentlessItem
  | blockMappingFirst
  | blockMappingKey
  | blockMappingValue
  | flowSequenceFirst
  | flowSequenceItem
  | flowPairKey
  | flowPairValue
  | flowPairEnd
  | flowMappingFirst
  | flowMappingKey
  | flowMappingValue
  | flowMappingNoValue
  | nothing

/-- The state of the grammar within a stream. -/
structure Grammar where
  goal : Goal
  /-- Goals to return to, innermost first. -/
  stack : List Goal
  tokens : List Token
  /-- Tag handles of the document and what they stand for. -/
  handles : List (String × String)

namespace Grammar

/-- The handles that every document has. -/
def standardHandles : List (String × String) := [("!", "!"), ("!!", "tag:yaml.org,2002:")]

def emptyScalar : Event := .scalar .none "" true

/-- Go on with a goal. -/
def go (g : Grammar) (goal : Goal) (tokens : List Token) : Grammar := { g with goal, tokens }

/-- Go on with a goal, to return to another afterwards. -/
def goThen (g : Grammar) (goal back : Goal) (tokens : List Token) : Grammar :=
  { g with goal, tokens, stack := back :: g.stack }

/-- Return to the last goal put off. -/
def back (g : Grammar) (tokens : List Token) : Grammar :=
  match g.stack with
  | [] => { g with goal := .nothing, tokens }
  | goal :: stack => { g with goal, stack, tokens }

/-- An anchor and a tag in either order, and the tokens after them. -/
def takeProperties : List Token → Option String × Option (String × String) × List Token
  | .anchor name :: .tag handle suffix :: rest => (some name, some (handle, suffix), rest)
  | .anchor name :: rest => (some name, none, rest)
  | .tag handle suffix :: .anchor name :: rest => (some name, some (handle, suffix), rest)
  | .tag handle suffix :: rest => (none, some (handle, suffix), rest)
  | rest => (none, none, rest)

/-- A tag in full; failure if its handle is not known. -/
def fullTag (g : Grammar) : Option (String × String) → Option (Option String)
  | none => some none
  | some (handle, suffix) =>
    if handle = "" then some (some suffix)
    else (g.handles.lookup handle).map fun lead => some (lead ++ suffix)

/-- A node: an alias, or properties and content. Block collections and sequences without
indentation are only possible where the arguments say so. -/
def node (g : Grammar) (inBlock indentless : Bool) : Option (Event × Grammar) :=
  match g.tokens with
  | .alias name :: rest => some (.alias name, g.back rest)
  | tokens =>
    let (anchor, tag, tokens) := takeProperties tokens
    match tokens, g.fullTag tag with
    | [], _ => none
    | _, none => none
    | token :: rest, some tag =>
      let properties : Properties := ⟨anchor, tag⟩
      match token with
      | .scalar text plain =>
        let tag := if tag = some "!" then none else tag
        some (.scalar ⟨anchor, tag⟩ text plain, g.back rest)
      | .flowSequenceStart => some (.sequenceStart properties, g.go .flowSequenceFirst rest)
      | .flowMappingStart => some (.mappingStart properties, g.go .flowMappingFirst rest)
      | _ =>
        if indentless ∧ token = .blockEntry then
          some (.sequenceStart properties, g.go .indentlessItem tokens)
        else if inBlock ∧ token = .blockSequenceStart then
          some (.sequenceStart properties, g.go .blockSequenceFirst rest)
        else if inBlock ∧ token = .blockMappingStart then
          some (.mappingStart properties, g.go .blockMappingFirst rest)
        else if anchor.isSome ∨ tag.isSome then
          some (.scalar properties "" true, g.back tokens)
        else none

/-- The directives in front of a document and the handles they declare. -/
def directives : List Token → Bool → List (String × String) →
    Option (List (String × String) × List Token)
  | .version major minor :: rest, seen, handles =>
    if seen ∨ major ≠ 1 ∨ (minor ≠ 1 ∧ minor ≠ 2) then none else directives rest true handles
  | .tagDirective handle lead :: rest, seen, handles =>
    if (handles.lookup handle).isSome then none
    else directives rest seen (handles ++ [(handle, lead)])
  | rest, _, handles => some (handles ++ standardHandles, rest)

/-- The start of a document or the end of the stream. -/
def document (g : Grammar) (first : Bool) : Option (Event × Grammar) :=
  let tokens := if first then g.tokens else g.tokens.dropWhile (· == .documentEnd)
  match tokens with
  | [] => none
  | .streamEnd :: _ => some (.streamEnd, { g with goal := .nothing, tokens := [] })
  | token :: _ =>
    let marked := match token with
      | .version .. | .tagDirective .. | .documentStart => true
      | _ => false
    if first && !marked then
      some (.documentStart,
        { g with handles := standardHandles }.goThen .blockNode .documentEnd tokens)
    else
      match directives tokens false [] with
      | some (handles, .documentStart :: rest) =>
        some (.documentStart, { g with handles }.goThen .documentContent .documentEnd rest)
      | _ => none

/-- A node, or an empty scalar if a token stands here that cannot begin one. The goal given is
gone on with afterwards. -/
def nodeOrEmpty (g : Grammar) (after : Goal) (ends : Token → Bool) (inBlock indentless : Bool)
    (tokens : List Token) : Option (Event × Grammar) :=
  match tokens with
  | [] => none
  | token :: _ =>
    if ends token then some (emptyScalar, g.go after tokens)
    else (g.goThen after after tokens).node inBlock indentless

/-- Tokens that may follow an item of a block collection. -/
def endsBlockItem (token : Token) : Bool := token == .blockEntry || token == .blockEnd

def endsIndentlessItem (token : Token) : Bool :=
  token == .blockEntry || token == .key || token == .value || token == .blockEnd

def endsBlockPart (token : Token) : Bool :=
  token == .key || token == .value || token == .blockEnd

def endsSequencePart (token : Token) : Bool := token == .flowEntry || token == .flowSequenceEnd

def endsMappingPart (token : Token) : Bool := token == .flowEntry || token == .flowMappingEnd

def isContentEnd : Token → Bool
  | .version .. | .tagDirective .. | .documentStart | .documentEnd | .streamEnd => true
  | _ => false

/-- An item of a sequence in brackets, with what separates it taken away. -/
def flowSequenceItem (g : Grammar) (tokens : List Token) : Option (Event × Grammar) :=
  match tokens with
  | [] => none
  | .flowSequenceEnd :: rest => some (.sequenceEnd, g.back rest)
  | .key :: rest => some (.mappingStart .none, g.go .flowPairKey rest)
  | _ => (g.goThen .flowSequenceItem .flowSequenceItem tokens).node false false

/-- A key of a mapping in braces, with what separates it taken away. -/
def flowMappingKey (g : Grammar) (tokens : List Token) : Option (Event × Grammar) :=
  match tokens with
  | [] => none
  | .flowMappingEnd :: rest => some (.mappingEnd, g.back rest)
  | .key :: rest =>
    g.nodeOrEmpty .flowMappingValue (fun token => token == .value || endsMappingPart token) false
      false rest
  | _ => (g.goThen .flowMappingNoValue .flowMappingNoValue tokens).node false false

/-- The next event and the state after it. -/
def step (g : Grammar) : Option (Event × Grammar) :=
  match g.goal, g.tokens with
  | .nothing, _ => none
  | .document first, _ => g.document first
  | _, [] => none
  | .documentContent, token :: _ =>
    if isContentEnd token then some (emptyScalar, g.back g.tokens) else g.node true false
  | .documentEnd, token :: rest =>
    some (.documentEnd,
      { g with handles := [] }.go (.document false)
        (if token = Token.documentEnd then rest else g.tokens))
  | .blockNode, _ => g.node true false
  | .blockSequenceFirst, token :: rest | .blockSequenceItem, token :: rest =>
    match token with
    | .blockEntry => g.nodeOrEmpty .blockSequenceItem endsBlockItem true false rest
    | .blockEnd => some (.sequenceEnd, g.back rest)
    | _ => none
  | .indentlessItem, token :: rest =>
    if token = .blockEntry then
      g.nodeOrEmpty .indentlessItem endsIndentlessItem true false rest
    else some (.sequenceEnd, g.back g.tokens)
  | .blockMappingFirst, token :: rest | .blockMappingKey, token :: rest =>
    match token with
    | .key => g.nodeOrEmpty .blockMappingValue endsBlockPart true true rest
    | .blockEnd => some (.mappingEnd, g.back rest)
    | _ => none
  | .blockMappingValue, token :: rest =>
    if token = .value then g.nodeOrEmpty .blockMappingKey endsBlockPart true true rest
    else some (emptyScalar, g.go .blockMappingKey g.tokens)
  | .flowSequenceFirst, _ => g.flowSequenceItem g.tokens
  | .flowSequenceItem, token :: rest =>
    match token with
    | .flowSequenceEnd => g.flowSequenceItem g.tokens
    | .flowEntry => g.flowSequenceItem rest
    | _ => none
  | .flowPairKey, token :: rest =>
    if token = .value ∨ endsSequencePart token then some (emptyScalar, g.go .flowPairValue rest)
    else (g.goThen .flowPairValue .flowPairValue g.tokens).node false false
  | .flowPairValue, token :: rest =>
    if token = .value then g.nodeOrEmpty .flowPairEnd endsSequencePart false false rest
    else some (emptyScalar, g.go .flowPairEnd g.tokens)
  | .flowPairEnd, _ => some (.mappingEnd, g.go .flowSequenceItem g.tokens)
  | .flowMappingFirst, _ => g.flowMappingKey g.tokens
  | .flowMappingKey, token :: rest =>
    match token with
    | .flowMappingEnd => g.flowMappingKey g.tokens
    | .flowEntry => g.flowMappingKey rest
    | _ => none
  | .flowMappingValue, token :: rest =>
    if token = .value then g.nodeOrEmpty .flowMappingKey endsMappingPart false false rest
    else some (emptyScalar, g.go .flowMappingKey g.tokens)
  | .flowMappingNoValue, _ => some (emptyScalar, g.go .flowMappingKey g.tokens)

/-- All events from here on. -/
def events : Nat → Grammar → List Event
  | 0, _ => []
  | fuel + 1, g =>
    match g.step with
    | none => []
    | some (event, g) => event :: events fuel g

end Grammar

/-- The events of a token sequence. A step takes a token, or begins or ends something for which a
token was taken or will be, which bounds the number of steps. -/
def Event.ofTokens (tokens : List Token) : List Event :=
  (Grammar.mk (.document true) [] tokens []).events (4 * tokens.length + 8)

end TokenRules.Yaml
