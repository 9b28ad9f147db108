/-!
# Sets of words

A `WordSet` lists its words once each in ascending order, so sets with the same members are equal.
-/

namespace TokenRules

/-- Finite set of words. -/
structure WordSet where
  /-- The members in ascending order. -/
  words : List String
  ascending : words.Pairwise (· < ·)

namespace WordSet

/-- The set without members. -/
def empty : WordSet := ⟨[], .nil⟩

instance : EmptyCollection WordSet := ⟨empty⟩

instance : Inhabited WordSet := ⟨empty⟩

/-- Put a word at its place unless it is there. -/
def insertWord (word : String) : List String → List String
  | [] => [word]
  | head :: rest =>
    if word < head then word :: head :: rest
    else if head < word then head :: insertWord word rest
    else head :: rest

theorem mem_insertWord {word other : String} {words : List String} :
    other ∈ insertWord word words ↔ other = word ∨ other ∈ words := by
  induction words with
  | nil => simp [insertWord]
  | cons head rest ih =>
    unfold insertWord
    split
    · simp
    · split
      · simp only [List.mem_cons, ih]
        exact or_left_comm
      · rename_i h1 h2
        have heq : head = word := String.le_antisymm (String.not_lt.1 h1) (String.not_lt.1 h2)
        subst heq
        simp

theorem pairwise_insertWord {word : String} {words : List String} (h : words.Pairwise (· < ·)) :
    (insertWord word words).Pairwise (· < ·) := by
  induction words with
  | nil => simp [insertWord]
  | cons head rest ih =>
    obtain ⟨hhead, hrest⟩ := List.pairwise_cons.1 h
    unfold insertWord
    split
    · rename_i hlt
      refine List.pairwise_cons.2 ⟨fun b hb => ?_, h⟩
      rcases List.mem_cons.1 hb with rfl | hb
      · exact hlt
      · exact String.lt_trans hlt (hhead b hb)
    · split
      · rename_i hlt
        refine List.pairwise_cons.2 ⟨fun b hb => ?_, ih hrest⟩
        rcases mem_insertWord.1 hb with rfl | hb
        · exact hlt
        · exact hhead b hb
      · exact h

/-- The set with `word` added. -/
def insert (s : WordSet) (word : String) : WordSet :=
  ⟨insertWord word s.words, pairwise_insertWord s.ascending⟩

/-- The members of `s` and the words of a list. -/
def insertAll (s : WordSet) (words : List String) : WordSet := words.foldl insert s

/-- The set of the words of a list. -/
def ofList (words : List String) : WordSet := empty.insertAll words

/-- The words that are in one of two sets. -/
def union (s t : WordSet) : WordSet := s.insertAll t.words

instance : Membership String WordSet := ⟨fun s word => word ∈ s.words⟩

instance (word : String) (s : WordSet) : Decidable (word ∈ s) :=
  inferInstanceAs (Decidable (word ∈ s.words))

def contains (s : WordSet) (word : String) : Bool := decide (word ∈ s)

def isEmpty (s : WordSet) : Bool := s.words.isEmpty

end WordSet

end TokenRules
