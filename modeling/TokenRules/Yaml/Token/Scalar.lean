import TokenRules.Yaml.Cursor

/-!
# Reading scalars

Plain and quoted scalars may run over several lines: a single line break between words is read as a
space, more of them as one break less. Block scalars keep their breaks or fold them, and say by a
mark what happens to the breaks at their end. A reader fails with `none`.
-/

namespace TokenRules.Yaml

/-- The blanks and line breaks between two words of a scalar. -/
structure Gap where
  blanks : List Char
  /-- Whether a line has ended in the gap. -/
  lines : Bool
  first : Option Char
  more : List Char

namespace Gap

def empty : Gap := ⟨[], false, none, []⟩

/-- A gap that begins with a line break that is not part of the text. -/
def continued : Gap := ⟨[], true, none, []⟩

/-- A blank counts only before the first line break. -/
def addBlank (gap : Gap) (c : Char) : Gap :=
  if gap.lines then gap else { gap with blanks := gap.blanks ++ [c] }

def addBreak (gap : Gap) (c : Char) : Gap :=
  if gap.lines then { gap with more := gap.more ++ [breakText c] }
  else ⟨[], true, some (breakText c), gap.more⟩

/-- What the gap contributes to the text. -/
def text (gap : Gap) : List Char :=
  if gap.lines then
    if gap.first == some '\n' then if gap.more.isEmpty then [' '] else gap.more
    else gap.first.toList ++ gap.more
  else gap.blanks

end Gap

/-- Move over a gap. No tab may stand left of `indent` on a line after the first. -/
def readGap (indent : Int) : Nat → Cursor → Gap → Option (Gap × Cursor)
  | 0, c, gap => some (gap, c)
  | fuel + 1, c, gap =>
    match c.peek? with
    | none => some (gap, c)
    | some x =>
      if isSpace x then
        if gap.lines ∧ (c.column : Int) < indent ∧ x = '\t' then none
        else readGap indent fuel (c.advance 1) (gap.addBlank x)
      else if isBreak x then readGap indent fuel c.skipBreak (gap.addBreak x)
      else some (gap, c)

/-- The characters up to the next gap or the end of a plain scalar. -/
def plainRun (inFlow : Bool) : List Char → Option (List Char)
  | [] => some []
  | c :: rest =>
    if endsWord (some c) then some []
    else if inFlow && c == ':' && rest.head?.any (",?[]\x7b\x7d".toList.contains ·) then none
    else if (c == ':' && endsWord rest.head?) || (inFlow && ",[]\x7b\x7d".toList.contains c) then
      some []
    else (plainRun inFlow rest).map (c :: ·)

/-- Words of a plain scalar with the gaps between them, up to a comment, a document mark, an
indicator or, in block context, a line that is indented less than `indent`. Also tells whether the
gap after the last word holds a line break. -/
def readPlainFrom (inFlow : Bool) (indent : Int) :
    Nat → Cursor → List Char → Gap → Option (List Char × Bool × Cursor)
  | 0, _, _, _ => none
  | fuel + 1, c, text, gap =>
    if c.atDocumentMark || c.peek? == some '#' then some (text, gap.lines, c)
    else
      match plainRun inFlow c.rest with
      | none => none
      | some [] => some (text, gap.lines, c)
      | some run =>
        let text := text ++ gap.text ++ run
        let c := c.advance run.length
        match readGap indent (c.rest.length + 1) c .empty with
        | none => none
        | some (gap, c') =>
          if c'.index = c.index then some (text, false, c)
          else if !inFlow && decide ((c'.column : Int) < indent) then some (text, gap.lines, c')
          else readPlainFrom inFlow indent fuel c' text gap

/-- Read a plain scalar. Each round reads at least one character, so the length of the text bounds
their number. -/
def readPlain (inFlow : Bool) (indent : Int) (c : Cursor) : Option (String × Bool × Cursor) :=
  (readPlainFrom inFlow indent (c.rest.length + 1) c [] .empty).map
    fun (text, lines, c) => (String.ofList text, lines, c)

/-- The value of a hexadecimal digit. -/
def hexDigit? (c : Char) : Option Nat :=
  if c.isDigit then some (c.toNat - 48)
  else if 'a' ≤ c ∧ c ≤ 'f' then some (c.toNat - 87)
  else if 'A' ≤ c ∧ c ≤ 'F' then some (c.toNat - 55)
  else none

/-- The character with a code point, if there is one. -/
def charOfCode? (code : Nat) : Option Char :=
  if code.isValidChar then some (Char.ofNat code) else none

/-- The character whose code point is written in `count` hexadecimal digits. -/
def readCode? (count : Nat) (text : List Char) : Option Char :=
  let digits := text.take count
  if digits.length = count then
    (digits.foldlM (fun code c => (hexDigit? c).map (16 * code + ·)) 0).bind charOfCode?
  else none

/-- The character that an escape stands for and the length of the escape, both without its
backslash. -/
def readEscape? (text : List Char) : Option (Char × Nat) :=
  match text with
  | '0' :: _ => some ('\x00', 1)
  | 'a' :: _ => some ('\x07', 1)
  | 'b' :: _ => some ('\x08', 1)
  | 't' :: _ => some ('\t', 1)
  | '\t' :: _ => some ('\t', 1)
  | 'n' :: _ => some ('\n', 1)
  | 'v' :: _ => some ('\x0b', 1)
  | 'f' :: _ => some ('\x0c', 1)
  | 'r' :: _ => some ('\r', 1)
  | 'e' :: _ => some ('\x1b', 1)
  | ' ' :: _ => some (' ', 1)
  | '"' :: _ => some ('"', 1)
  | '/' :: _ => some ('/', 1)
  | '\\' :: _ => some ('\\', 1)
  | 'N' :: _ => some ('\u0085', 1)
  | '_' :: _ => some ('\u00a0', 1)
  | 'L' :: _ => some ('\u2028', 1)
  | 'P' :: _ => some ('\u2029', 1)
  | 'x' :: rest => (readCode? 2 rest).map (·, 3)
  | 'u' :: rest => (readCode? 4 rest).map (·, 5)
  | 'U' :: rest => (readCode? 8 rest).map (·, 9)
  | _ => none

/-- The characters of a quoted scalar after its opening quote. Between words the scalar is in a
gap, in which a document mark must not follow. -/
def readQuotedFrom (double : Bool) :
    Nat → Cursor → List Char → Option Gap → Option (List Char × Cursor)
  | 0, _, _, _ => none
  | fuel + 1, c, text, gap? =>
    match c.peek? with
    | none => none
    | some x =>
      if isSpace x then
        readQuotedFrom double fuel (c.advance 1) text (some ((gap?.getD .empty).addBlank x))
      else if isBreak x then
        readQuotedFrom double fuel c.skipBreak text (some ((gap?.getD .empty).addBreak x))
      else if gap?.isSome && c.atDocumentMark then none
      else
        let text := text ++ (gap?.map Gap.text).getD []
        if double then
          if x = '"' then some (text, c.advance 1)
          else if x = '\\' then
            if (c.peekAt? 1).any isBreak then
              readQuotedFrom double fuel (c.advance 1).skipBreak text (some .continued)
            else
              match readEscape? (c.rest.drop 1) with
              | none => none
              | some (y, length) =>
                readQuotedFrom double fuel (c.advance (1 + length)) (text ++ [y]) none
          else readQuotedFrom double fuel (c.advance 1) (text ++ [x]) none
        else if x = '\'' then
          if c.peekAt? 1 = some '\'' then
            readQuotedFrom double fuel (c.advance 2) (text ++ ['\'']) none
          else some (text, c.advance 1)
        else readQuotedFrom double fuel (c.advance 1) (text ++ [x]) none

/-- Read a quoted scalar, which starts with its quote. -/
def readQuoted (double : Bool) (c : Cursor) : Option (String × Cursor) :=
  (readQuotedFrom double (c.rest.length + 1) (c.advance 1) [] none).map
    fun (text, c) => (String.ofList text, c)

/-- What happens to the line breaks at the end of a block scalar. -/
inductive Chomping
  | strip
  | clip
  | keep
  deriving DecidableEq

/-- A chomping mark, if there is one. -/
def readChomping? (c : Cursor) : Option (Chomping × Cursor) :=
  match c.peek? with
  | some '-' => some (.strip, c.advance 1)
  | some '+' => some (.keep, c.advance 1)
  | _ => none

/-- An indentation mark: `none` inside if there is none, and failure on a zero. -/
def readIndentation (c : Cursor) : Option (Option Nat × Cursor) :=
  match c.peek? with
  | some x =>
    if x = '0' then none
    else if x.isDigit then some (some (x.toNat - 48), c.advance 1)
    else some (none, c)
  | none => some (none, c)

/-- The marks after the indicator of a block scalar, in either order. -/
def readBlockHeader (c : Cursor) : Option (Chomping × Option Nat × Cursor) :=
  match readChomping? c with
  | some (chomping, c) => (readIndentation c).map fun (indent, c) => (chomping, indent, c)
  | none => do
    let (indent, c) ← readIndentation c
    match indent, readChomping? c with
    | some _, some (chomping, c) => return (chomping, indent, c)
    | _, _ => return (.clip, indent, c)

/-- Lines of nothing but blanks, up to the first with text at or left of the indentation. While
the indentation is not known, the deepest of those lines counts. -/
def readBlankLines (indent : Option Nat) :
    Nat → Cursor → Nat → List Char → Option (List Char × Nat × Cursor)
  | 0, _, _, _ => none
  | fuel + 1, c, deepest, breaks =>
    let width := (c.rest.takeWhile (· == ' ')).length
    let c := c.advance (match indent with
      | some indent => min width (indent - c.column)
      | none => width)
    let deepest := max deepest c.column
    match c.peek? with
    | none => some (breaks, deepest, c)
    | some x =>
      if x = '\t' ∧ indent.all (c.column < ·) then none
      else if isBreak x then
        readBlankLines indent fuel c.skipBreak deepest (breaks ++ [breakText x])
      else some (breaks, deepest, c)

/-- The lines of a block scalar at its indentation, with the breaks that end it: the one after the
last line and those of the blank lines after that. -/
def readBlockLines (literal : Bool) (indent : Nat) :
    Nat → Cursor → List Char → Option Char → List Char → Bool →
      Option (List Char × Option Char × List Char × Cursor)
  | 0, _, _, _, _, _ => none
  | fuel + 1, c, text, first, more, afterBlank =>
    match c.peek? with
    | none => some (text, first, more, c)
    | some x =>
      if c.column ≠ indent then some (text, first, more, c)
      else
        let folds := !literal && first == some '\n' && !afterBlank && !isSpace x
        let joint := if folds then if more.isEmpty then [' '] else [] else first.toList
        let (line, c) := c.takeWhile (!isBreak ·)
        let text := text ++ joint ++ more ++ line
        let first := c.peek?.map breakText
        let c := c.skipBreak
        match readBlankLines (some indent) (c.rest.length + 1) c 0 [] with
        | none => none
        | some (more, _, c) => readBlockLines literal indent fuel c text first more (isSpace x)

/-- Read a block scalar inside a block of indentation `parent`. -/
def readBlock (literal : Bool) (parent : Int) (c : Cursor) : Option (String × Cursor) := do
  let (chomping, given, c) ← readBlockHeader (c.advance 1)
  let c ← c.skipLineEnd?
  let indent? := given.map (· + parent.toNat)
  let (breaks, deepest, c) ← readBlankLines indent? (c.rest.length + 1) c 0 []
  let indent := indent?.getD (max deepest (max (parent + 1).toNat 1))
  let (text, first, more, c) ←
    readBlockLines literal indent (c.rest.length + 1) c [] none breaks false
  let text := if chomping = .strip then text else text ++ first.toList
  let text := if chomping = .keep then text ++ more else text
  return (String.ofList text, c)

end TokenRules.Yaml
