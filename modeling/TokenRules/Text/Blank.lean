/-!
# Blank characters and the words between them

`Text.words` cuts a text at its blanks; blanks at either end and runs of blanks leave no empty
word.
-/

namespace TokenRules.Text

/-- The characters with the Unicode property `White_Space`. -/
def isBlank (c : Char) : Bool :=
  let code := c.toNat
  (0x9 ≤ code && code ≤ 0xD) || code == 0x20 || code == 0x85 || code == 0xA0 || code == 0x1680 ||
    (0x2000 ≤ code && code ≤ 0x200A) || code == 0x2028 || code == 0x2029 || code == 0x202F ||
    code == 0x205F || code == 0x3000

/-- A word in front of others; an empty one is left out. -/
def prependWord (word : List Char) (words : List (List Char)) : List (List Char) :=
  if word.isEmpty then words else word :: words

/-- Takes one more character in front of a text that is already cut: the word that the text
starts with, possibly empty, and the words after it. -/
def cutStep (c : Char) (cut : List Char × List (List Char)) : List Char × List (List Char) :=
  if isBlank c then ([], prependWord cut.1 cut.2) else (c :: cut.1, cut.2)

/-- A text as the word it starts with and the words after it. -/
def cut (text : List Char) : List Char × List (List Char) := text.foldr cutStep ([], [])

/-- The maximal runs of characters that are not blank. -/
def wordsOf (text : List Char) : List (List Char) :=
  let (first, rest) := cut text
  prependWord first rest

/-- The words of a text, cut at blanks. -/
def words (s : String) : List String := (wordsOf s.toList).map String.ofList

/-- Whether a text has no character other than blanks. -/
def isBlankText (s : String) : Bool := s.toList.all isBlank

end TokenRules.Text
