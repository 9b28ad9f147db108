import TokenRules.NameMap.Lemmas
import TokenRules.WordLists
import TokenRules.WordSet.Lemmas

/-!
# Names and members of word lists

Word lists are told by their names and by the members of each list: lists that agree
in both are equal (`WordLists.ext_mem`).  Each operation is described by what it does
to these two.  In particular the union of two families of lists has the names and the
members of either side, so it is commutative, associative and idempotent, and the
empty family is neutral to it.
-/

namespace TokenRules.WordLists

variable {lists others : WordLists} {name other : String} {word : String}

/-- Families with the same names and the same members of each list are equal. -/
theorem ext_mem (hnames : ∀ name, lists.contains name = true ↔ others.contains name = true)
    (hmem : ∀ name word, word ∈ lists.lookup name ↔ word ∈ others.lookup name) :
    lists = others := by
  refine NameMap.ext_get? fun name => ?_
  have hname := hnames name
  have hwords := hmem name
  simp only [NameMap.contains, lookup] at hname hwords
  cases h : lists.get? name with
  | none =>
    cases h' : others.get? name with
    | none => rfl
    | some set => simp [h, h'] at hname
  | some set =>
    cases h' : others.get? name with
    | none => simp [h, h'] at hname
    | some set' =>
      simp only [h, h', Option.getD_some] at hwords
      rw [WordSet.ext_mem hwords]

@[simp] theorem contains_empty (name : String) : (∅ : WordLists).contains name = false := rfl

@[simp] theorem not_mem_lookup_empty (name word : String) :
    word ∉ lookup (∅ : WordLists) name := WordSet.not_mem_empty word

/-! ### Extension -/

theorem contains_extend {words : List String} :
    (lists.extend name words).contains other = true ↔
      other = name ∨ lists.contains other = true := by
  rw [NameMap.contains, extend, NameMap.get?_insert]
  by_cases h : other = name
  · simp [h]
  · simp [h, NameMap.contains]

theorem mem_lookup_extend {words : List String} :
    word ∈ (lists.extend name words).lookup other ↔
      word ∈ lists.lookup other ∨ (other = name ∧ word ∈ words) := by
  rw [lookup, extend, NameMap.get?_insert]
  by_cases h : other = name
  · subst h
    simp
  · simp [h, lookup]

/-- Add to several lists, one after the other. -/
def extendAll (lists : WordLists) (additions : List (String × List String)) : WordLists :=
  additions.foldl (fun lists addition => lists.extend addition.1 addition.2) lists

theorem contains_extendAll {additions : List (String × List String)} :
    (lists.extendAll additions).contains name = true ↔
      lists.contains name = true ∨ ∃ words, (name, words) ∈ additions := by
  rw [extendAll]
  induction additions generalizing lists with
  | nil => simp
  | cons addition rest ih =>
    obtain ⟨head, words⟩ := addition
    rw [List.foldl_cons, ih, contains_extend]
    simp only [List.mem_cons, Prod.mk.injEq]
    constructor
    · rintro ((rfl | h) | ⟨words, h⟩)
      · exact .inr ⟨words, .inl ⟨rfl, rfl⟩⟩
      · exact .inl h
      · exact .inr ⟨words, .inr h⟩
    · rintro (h | ⟨words, ⟨rfl, rfl⟩ | h⟩)
      · exact .inl (.inr h)
      · exact .inl (.inl rfl)
      · exact .inr ⟨words, h⟩

theorem mem_lookup_extendAll {additions : List (String × List String)} :
    word ∈ (lists.extendAll additions).lookup name ↔
      word ∈ lists.lookup name ∨ ∃ words, (name, words) ∈ additions ∧ word ∈ words := by
  rw [extendAll]
  induction additions generalizing lists with
  | nil => simp
  | cons addition rest ih =>
    obtain ⟨head, words⟩ := addition
    rw [List.foldl_cons, ih, mem_lookup_extend]
    simp only [List.mem_cons, Prod.mk.injEq]
    constructor
    · rintro ((h | ⟨rfl, h⟩) | ⟨words, hmem, h⟩)
      · exact .inl h
      · exact .inr ⟨words, .inl ⟨rfl, rfl⟩, h⟩
      · exact .inr ⟨words, .inr hmem, h⟩
    · rintro (h | ⟨words, ⟨rfl, rfl⟩ | hmem, h⟩)
      · exact .inl (.inl h)
      · exact .inl (.inr ⟨rfl, h⟩)
      · exact .inr ⟨words, hmem, h⟩

/-! ### Union -/

theorem merge_eq_extendAll (lists others : WordLists) :
    lists.merge others =
      lists.extendAll (others.entries.map fun entry => (entry.1, entry.2.words)) := by
  rw [merge, extendAll, List.foldl_map]

@[simp] theorem contains_merge :
    (lists.merge others).contains name = true ↔
      lists.contains name = true ∨ others.contains name = true := by
  rw [merge_eq_extendAll, contains_extendAll]
  refine or_congr_right ?_
  rw [NameMap.contains, Option.isSome_iff_exists]
  simp only [NameMap.get?_eq_some_iff, List.mem_map, Prod.mk.injEq]
  constructor
  · rintro ⟨words, ⟨name, set⟩, hmem, rfl, rfl⟩
    exact ⟨set, hmem⟩
  · rintro ⟨set, hmem⟩
    exact ⟨set.words, (name, set), hmem, rfl, rfl⟩

@[simp] theorem mem_lookup_merge :
    word ∈ (lists.merge others).lookup name ↔
      word ∈ lists.lookup name ∨ word ∈ others.lookup name := by
  rw [merge_eq_extendAll, mem_lookup_extendAll]
  refine or_congr_right ?_
  simp only [List.mem_map, Prod.mk.injEq]
  constructor
  · rintro ⟨words, ⟨⟨name, set⟩, hmem, rfl, rfl⟩, hword⟩
    rw [lookup, NameMap.get?_eq_some_iff.2 hmem]
    exact hword
  · intro hword
    rw [lookup] at hword
    cases h : others.get? name with
    | none =>
      rw [h] at hword
      exact absurd hword (WordSet.not_mem_empty word)
    | some set =>
      rw [h] at hword
      exact ⟨set.words, ⟨(name, set), NameMap.get?_eq_some_iff.1 h, rfl, rfl⟩, hword⟩

/-- The lists of several families, added to those of one. -/
def mergeAll (lists : WordLists) (families : List WordLists) : WordLists :=
  families.foldl merge lists

theorem contains_mergeAll {families : List WordLists} :
    (lists.mergeAll families).contains name = true ↔
      lists.contains name = true ∨ ∃ family ∈ families, family.contains name = true := by
  rw [mergeAll]
  induction families generalizing lists with
  | nil => simp
  | cons family rest ih =>
    simp only [List.foldl_cons, ih, contains_merge, List.mem_cons, exists_eq_or_imp, or_assoc]

theorem mem_lookup_mergeAll {families : List WordLists} :
    word ∈ (lists.mergeAll families).lookup name ↔
      word ∈ lists.lookup name ∨ ∃ family ∈ families, word ∈ family.lookup name := by
  rw [mergeAll]
  induction families generalizing lists with
  | nil => simp
  | cons family rest ih =>
    simp only [List.foldl_cons, ih, mem_lookup_merge, List.mem_cons, exists_eq_or_imp, or_assoc]

theorem merge_comm (lists others : WordLists) : lists.merge others = others.merge lists :=
  ext_mem (fun name => by rw [contains_merge, contains_merge, or_comm]) fun name word => by
    rw [mem_lookup_merge, mem_lookup_merge, or_comm]

theorem merge_assoc (lists others more : WordLists) :
    (lists.merge others).merge more = lists.merge (others.merge more) :=
  ext_mem (fun name => by simp only [contains_merge, or_assoc]) fun name word => by
    simp only [mem_lookup_merge, or_assoc]

theorem merge_self (lists : WordLists) : lists.merge lists = lists :=
  ext_mem (fun name => by rw [contains_merge, or_self]) fun name word => by
    rw [mem_lookup_merge, or_self]

theorem merge_empty (lists : WordLists) : lists.merge ∅ = lists :=
  ext_mem (fun name => by simp) fun name word => by simp

theorem empty_merge (lists : WordLists) : merge ∅ lists = lists := by
  rw [merge_comm, merge_empty]

end TokenRules.WordLists
