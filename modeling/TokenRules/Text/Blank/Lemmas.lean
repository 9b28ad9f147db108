import TokenRules.Text.Blank

/-!
# Words at a blank

A text is cut at each of its blanks: it has the words in front of the blank and then those behind
it (`wordsOf_append_cons`). So blanks at either end belong to no word, and where two texts stand
with blanks between them, the words of the first are followed by those of the second
(`words_append`).
-/

namespace TokenRules.Text

theorem prependWord_append (word : List Char) (words others : List (List Char)) :
    prependWord word (words ++ others) = prependWord word words ++ others := by
  unfold prependWord
  split <;> rfl

theorem wordsOf_eq (text : List Char) : wordsOf text = prependWord (cut text).1 (cut text).2 := rfl

/-- What stands behind a blank does not reach the word that the text starts with. -/
theorem cut_append_cons {c : Char} (hc : isBlank c = true) (text rest : List Char) :
    cut (text ++ c :: rest) = ((cut text).1, (cut text).2 ++ wordsOf rest) := by
  induction text with
  | nil =>
    show cutStep c (cut rest) = _
    rw [cutStep, if_pos hc]
    rfl
  | cons d text ih =>
    show cutStep d (cut (text ++ c :: rest)) = _
    have hcut : cut (d :: text) = cutStep d (cut text) := rfl
    rw [ih, hcut, cutStep, cutStep]
    by_cases hd : isBlank d
    · rw [if_pos hd, if_pos hd, prependWord_append]
    · rw [if_neg hd, if_neg hd]

/-- **A text is cut at a blank.** -/
theorem wordsOf_append_cons {c : Char} (hc : isBlank c = true) (text rest : List Char) :
    wordsOf (text ++ c :: rest) = wordsOf text ++ wordsOf rest := by
  rw [wordsOf_eq, cut_append_cons hc, prependWord_append, ← wordsOf_eq]

theorem wordsOf_nil : wordsOf [] = [] := rfl

/-- Blanks belong to no word. -/
theorem wordsOf_blanks_append {blanks : List Char} (h : ∀ c ∈ blanks, isBlank c = true)
    (rest : List Char) : wordsOf (blanks ++ rest) = wordsOf rest := by
  induction blanks with
  | nil => rfl
  | cons c blanks ih =>
    obtain ⟨hc, hblanks⟩ := List.forall_mem_cons.1 h
    have hcut := wordsOf_append_cons hc [] (blanks ++ rest)
    rw [List.nil_append] at hcut
    rw [List.cons_append, hcut, wordsOf_nil, List.nil_append, ih hblanks]

theorem wordsOf_append_blanks {blanks : List Char} (h : ∀ c ∈ blanks, isBlank c = true)
    (text : List Char) : wordsOf (text ++ blanks) = wordsOf text := by
  cases blanks with
  | nil => rw [List.append_nil]
  | cons c blanks =>
    obtain ⟨hc, hblanks⟩ := List.forall_mem_cons.1 h
    have hrest := wordsOf_blanks_append hblanks []
    rw [List.append_nil] at hrest
    rw [wordsOf_append_cons hc, hrest, wordsOf_nil, List.append_nil]

theorem isBlankText_iff {s : String} :
    isBlankText s = true ↔ ∀ c ∈ s.toList, isBlank c = true := List.all_eq_true

variable {blanks : String} (h : isBlankText blanks = true)
include h

theorem words_blanks_append (t : String) : words (blanks ++ t) = words t := by
  rw [words, String.toList_append, wordsOf_blanks_append (isBlankText_iff.1 h), words]

theorem words_append_blanks (s : String) : words (s ++ blanks) = words s := by
  rw [words, String.toList_append, wordsOf_append_blanks (isBlankText_iff.1 h), words]

/-- **Two texts with blanks between them** have the words of the one and then those of the other. -/
theorem words_append (hne : blanks ≠ "") (s t : String) :
    words (s ++ blanks ++ t) = words s ++ words t := by
  have hlist : blanks.toList ≠ [] := fun hnil => hne (String.toList_eq_nil_iff.1 hnil)
  obtain ⟨c, rest, hcons⟩ := List.exists_cons_of_ne_nil hlist
  have hblank := isBlankText_iff.1 h
  rw [hcons] at hblank
  obtain ⟨hc, hrest⟩ := List.forall_mem_cons.1 hblank
  have hcut : wordsOf (s.toList ++ blanks.toList ++ t.toList) =
      wordsOf s.toList ++ wordsOf t.toList := by
    rw [hcons, List.append_assoc, List.cons_append, wordsOf_append_cons hc,
      wordsOf_blanks_append hrest]
  rw [words, String.toList_append, String.toList_append, hcut, List.map_append, words, words]

end TokenRules.Text
