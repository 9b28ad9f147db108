import TokenRules.WordLists.Lemmas
import TokenRules.WordLists.Loading

/-!
# Lists from many documents

What a list document gives is a number of additions to named lists (`additions`): one
for each entry with a text or a sequence under a key that is a text.  The lists of
several documents have the names and the words of all additions
(`contains_ofDocuments`, `mem_lookup_ofDocuments`), and as nothing else is read from
the documents, those of an `Assembly`, where lists of some documents are united in
some order, are determined by which documents there are.  Main statement:
`ofDocuments_unites`.
-/

namespace TokenRules.WordLists

open Yaml (Value)

/-- The document is a mapping that has the value under a key which is the text `name`, tags of the
key aside. -/
def Assigns (document : Value) (name : String) (value : Value) : Prop :=
  ∃ entries key, document = .mapping entries ∧ (key, value) ∈ entries ∧ key.asText? = some name

/-! ### Additions of a document -/

/-- The addition that an entry stands for, if it stands for one. -/
def addition? (entry : Value × Value) : Option (String × List String) :=
  match entry.1.asText?, words? entry.2 with
  | some name, some words => some (name, words)
  | _, _ => none

/-- The additions that a document stands for. -/
def additions : Value → List (String × List String)
  | .mapping entries => entries.filterMap addition?
  | _ => []

theorem addEntry_eq (lists : WordLists) (entry : Value × Value) :
    lists.addEntry entry = match addition? entry with
      | some addition => lists.extend addition.1 addition.2
      | none => lists := by
  rw [addEntry, addition?]
  cases entry.1.asText? <;> cases words? entry.2 <;> rfl

theorem foldl_addEntry (lists : WordLists) (entries : List (Value × Value)) :
    entries.foldl addEntry lists = lists.extendAll (entries.filterMap addition?) := by
  induction entries generalizing lists with
  | nil => rfl
  | cons entry rest ih =>
    rw [List.foldl_cons, ih, addEntry_eq]
    cases h : addition? entry with
    | none => rw [List.filterMap_cons_none h]
    | some addition =>
      rw [List.filterMap_cons_some h]
      rfl

theorem addDocument_eq (lists : WordLists) (document : Value) :
    lists.addDocument document = lists.extendAll (additions document) := by
  cases document with
  | mapping entries => exact foldl_addEntry lists entries
  | null | bool | int | float | text | sequence | tagged => rfl

theorem ofDocuments_eq (documents : List Value) :
    ofDocuments documents = extendAll ∅ (documents.flatMap additions) := by
  rw [ofDocuments, extendAll, List.foldl_flatMap, funext fun lists => funext (addDocument_eq lists)]
  rfl

theorem addition?_eq_some_iff {entry : Value × Value} {name : String} {words : List String} :
    addition? entry = some (name, words) ↔
      entry.1.asText? = some name ∧ words? entry.2 = some words := by
  rw [addition?]
  cases entry.1.asText? <;> cases words? entry.2 <;> simp

theorem mem_additions_iff {document : Value} {name : String} {words : List String} :
    (name, words) ∈ additions document ↔
      ∃ value, Assigns document name value ∧ words? value = some words := by
  constructor
  · intro h
    cases document with
    | mapping entries =>
      obtain ⟨entry, hmem, hentry⟩ := List.mem_filterMap.1 h
      obtain ⟨hkey, hwords⟩ := addition?_eq_some_iff.1 hentry
      exact ⟨entry.2, ⟨entries, entry.1, rfl, hmem, hkey⟩, hwords⟩
    | null | bool | int | float | text | sequence | tagged => cases h
  · rintro ⟨value, ⟨entries, key, rfl, hmem, hkey⟩, hwords⟩
    exact List.mem_filterMap.2 ⟨(key, value), hmem, addition?_eq_some_iff.2 ⟨hkey, hwords⟩⟩

/-! ### Lists of several documents -/

section Documents

variable {documents others : List Value} {name word : String}

theorem contains_ofDocuments :
    (ofDocuments documents).contains name = true ↔ ∃ document ∈ documents,
      (∃ word, Assigns document name (.text word)) ∨
        ∃ items, Assigns document name (.sequence items) := by
  simp only [ofDocuments_eq, contains_extendAll, contains_empty, Bool.false_eq_true, false_or,
    List.mem_flatMap, mem_additions_iff]
  constructor
  · rintro ⟨words, document, hmem, value, hvalue, hwords⟩
    refine ⟨document, hmem, ?_⟩
    cases value with
    | text word => exact .inl ⟨word, hvalue⟩
    | sequence items => exact .inr ⟨items, hvalue⟩
    | null | bool | int | float | mapping | tagged => cases hwords
  · rintro ⟨document, hmem, ⟨word, hvalue⟩ | ⟨items, hvalue⟩⟩
    · exact ⟨_, document, hmem, _, hvalue, rfl⟩
    · exact ⟨_, document, hmem, _, hvalue, rfl⟩

theorem word?_eq_some_iff {value : Value} : word? value = some word ↔ value = .text word := by
  cases value <;> simp [word?]

theorem mem_lookup_ofDocuments :
    word ∈ (ofDocuments documents).lookup name ↔ ∃ document ∈ documents,
      Assigns document name (.text word) ∨
        ∃ items, Assigns document name (.sequence items) ∧ .text word ∈ items := by
  simp only [ofDocuments_eq, mem_lookup_extendAll, not_mem_lookup_empty, false_or,
    List.mem_flatMap, mem_additions_iff]
  constructor
  · rintro ⟨words, ⟨document, hmem, value, hvalue, hwords⟩, hword⟩
    refine ⟨document, hmem, ?_⟩
    cases value with
    | text only =>
      cases hwords
      exact .inl (List.mem_singleton.1 hword ▸ hvalue)
    | sequence items =>
      cases hwords
      obtain ⟨item, hitem, heq⟩ := List.mem_filterMap.1 hword
      exact .inr ⟨items, hvalue, word?_eq_some_iff.1 heq ▸ hitem⟩
    | null | bool | int | float | mapping | tagged => cases hwords
  · rintro ⟨document, hmem, hvalue | ⟨items, hvalue, hitem⟩⟩
    · exact ⟨_, ⟨document, hmem, _, hvalue, rfl⟩, List.mem_singleton_self word⟩
    · exact ⟨_, ⟨document, hmem, _, hvalue, rfl⟩,
        List.mem_filterMap.2 ⟨_, hitem, word?_eq_some_iff.2 rfl⟩⟩

/-- Only which documents there are counts, not their order or how often each comes. -/
theorem ofDocuments_congr (h : ∀ document, document ∈ documents ↔ document ∈ others) :
    ofDocuments documents = ofDocuments others :=
  ext_mem (fun name => by simp only [contains_ofDocuments, h]) fun name word => by
    simp only [mem_lookup_ofDocuments, h]

theorem merge_ofDocuments (documents others : List Value) :
    (ofDocuments documents).merge (ofDocuments others) = ofDocuments (documents ++ others) := by
  refine ext_mem (fun name => ?_) fun name word => ?_
  · simp only [contains_merge, contains_ofDocuments, List.mem_append, or_and_right, exists_or]
  · simp only [mem_lookup_merge, mem_lookup_ofDocuments, List.mem_append, or_and_right, exists_or]

end Documents

/-! ### Assemblies -/

/-- A way to put lists together: some documents are read in one go, or the lists of two parts are
united. -/
inductive Assembly
  | read (documents : List Value)
  | unite (first second : Assembly)

namespace Assembly

/-- All documents of the parts. -/
def sources : Assembly → List Value
  | .read documents => documents
  | .unite first second => first.sources ++ second.sources

def lists : Assembly → WordLists
  | .read documents => ofDocuments documents
  | .unite first second => first.lists.merge second.lists

theorem lists_eq (assembly : Assembly) : assembly.lists = ofDocuments assembly.sources := by
  induction assembly with
  | read documents => rfl
  | unite first second ihfirst ihsecond =>
    rw [lists, ihfirst, ihsecond, merge_ofDocuments]
    rfl

end Assembly

/-- **Lists are united, whatever the order, grouping or repetition of their sources.**  There is a
list for every name under which a mapping among the documents has a text or a sequence, and its
words are the texts there, those in sequences included; nothing else in the documents plays a part.
Lists assembled from the same documents are the same, in whatever order and however often these
come and whatever parts are united first; and union is commutative, associative and idempotent,
with the empty family neutral to it. -/
theorem ofDocuments_unites :
    (∀ documents name,
      ((ofDocuments documents).contains name = true ↔ ∃ document ∈ documents,
        (∃ word, Assigns document name (.text word)) ∨
          ∃ items, Assigns document name (.sequence items)) ∧
      ∀ word, word ∈ (ofDocuments documents).lookup name ↔ ∃ document ∈ documents,
        Assigns document name (.text word) ∨
          ∃ items, Assigns document name (.sequence items) ∧ .text word ∈ items) ∧
    (∀ first second : Assembly,
      (∀ document, document ∈ first.sources ↔ document ∈ second.sources) →
        first.lists = second.lists) ∧
    (∀ lists others : WordLists, lists.merge others = others.merge lists) ∧
    (∀ lists others more : WordLists,
      (lists.merge others).merge more = lists.merge (others.merge more)) ∧
    (∀ lists : WordLists, lists.merge lists = lists) ∧
    ∀ lists : WordLists, lists.merge ∅ = lists ∧ merge ∅ lists = lists := by
  refine ⟨fun documents name => ⟨contains_ofDocuments, fun word => mem_lookup_ofDocuments⟩,
    fun first second h => ?_, merge_comm, merge_assoc, merge_self,
    fun lists => ⟨merge_empty lists, empty_merge lists⟩⟩
  rw [first.lists_eq, second.lists_eq, ofDocuments_congr h]

/-- Two documents, of which the second is read again: a flag among words, a tagged word and a word
under no name give nothing. -/
theorem lists_of_two_documents :
    let first : Value := .mapping [(.text "A", .sequence [.text "x", .bool true]),
      (.text "B", .tagged "t" (.text "y"))]
    let second : Value := .mapping [(.null, .text "w"), (.tagged "t" (.text "A"), .text "z")]
    let once : Assembly := .read [first, second]
    let again : Assembly := .unite (.read [second]) (.unite (.read [first]) (.read [second]))
    (∀ document, document ∈ again.sources ↔ document ∈ once.sources) ∧
      again.lists = once.lists ∧ (once.lists.lookup "A").words = ["x", "z"] ∧
      once.lists.contains "B" = false := by
  intro first second once again
  have hsources : ∀ document, document ∈ again.sources ↔ document ∈ once.sources := by
    intro document
    simp only [again, once, Assembly.sources, List.mem_append, List.mem_cons, List.not_mem_nil,
      or_false]
    exact ⟨fun h => h.elim .inr id, .inr⟩
  exact ⟨hsources, ofDocuments_unites.2.1 again once hsources, by decide +kernel,
    by decide +kernel⟩

end TokenRules.WordLists
