import TokenRules.Proofs.Insertions
import TokenRules.Text.Blank.Lemmas

/-!
# Sentences put together

Rules that look at nothing but the current token: their conditions call `in_list` only, with
arguments of the right kinds, and their actions only insert (`Rule.LooksAtToken`).  In two contexts
with the same lists and the same token such a call has one answer, so what the rules insert at a
position is told by the token there (`letters`), and the insertions in a sentence are those for its
tokens, each at its place (`insertions_eq`).  A sentence put together from two has the tokens of
the one and then those of the other, `Text.words_append`.  Main statement: `run_append`.
-/

namespace TokenRules

/-! ### Calls that look at the token -/

/-- The call is one of `in_list`, and what it is given is of the kinds that are read. -/
structure Call.TestsMembership (call : Call) (registry : Registry) : Prop where
  predicate : registry.predicate? call.function = some Builtin.inList
  list : ∀ value, call.args.get? "list" = some value → ∃ name, value = .text name
  words : ∀ value, call.args.get? "words" = some value → ∃ words : List String,
    value = .list (words.map .text)

/-- The rule tests the current token for membership in lists, in any combination, and inserts. -/
structure Rule.LooksAtToken (rule : Rule) (registry : Registry) : Prop where
  tests : ∀ literal ∈ rule.condition.atoms, literal.call.TestsMembership registry
  actions : ∀ call ∈ rule.actions, call.Inserts registry

theorem Arguments.exists_text?_eq_ok {args : Arguments} {name : String}
    (h : ∀ value, args.get? name = some value → ∃ text, value = .text text) :
    ∃ text, args.text? name = .ok text := by
  cases hvalue : args.get? name with
  | none => exact ⟨none, text?_eq_none hvalue⟩
  | some value =>
    obtain ⟨text, rfl⟩ := h value hvalue
    exact ⟨some text, by rw [text?, hvalue]; rfl⟩

theorem Arguments.exists_texts?_eq_ok {args : Arguments} {name : String}
    (h : ∀ value, args.get? name = some value → ∃ texts : List String,
      value = .list (texts.map .text)) :
    ∃ texts, args.texts? name = .ok texts := by
  cases hvalue : args.get? name with
  | none => exact ⟨none, texts?_eq_none hvalue⟩
  | some value =>
    obtain ⟨texts, rfl⟩ := h value hvalue
    have htexts : (Argument.list (texts.map .text)).asTexts? = some texts :=
      mapM_asText?_map_text texts
    refine ⟨some texts, ?_⟩
    rw [texts?, hvalue]
    simp only [htexts]

/-- The contexts have the same lists, and their tokens have one normal form. -/
structure Context.SameToken (c d : Context) : Prop where
  lists : c.lists = d.lists
  token : c.view.normalized? = d.view.normalized?

namespace Call.TestsMembership

variable {call : Call} {registry : Registry} (h : call.TestsMembership registry)
include h

/-- The test never fails, and its answer is told by the lists and the token. -/
theorem exists_answer : ∃ holds : View → Bool,
    (∀ context, registry.answer context call = .ok (holds context.view)) ∧
    ∀ c d : Context, c.SameToken d → holds c.view = holds d.view := by
  obtain ⟨list, hlist⟩ := Arguments.exists_text?_eq_ok h.list
  obtain ⟨words, hwords⟩ := Arguments.exists_texts?_eq_ok h.words
  refine ⟨fun view => (list.filter (· != "")).elim (view.isOneOf (words.getD [])) view.isListed,
    fun context => ?_, fun c d hsame => ?_⟩
  · rw [Registry.answer_of_predicate? h.predicate, Builtin.meaning_inList hlist hwords]
    cases list.filter (· != "") <;> rfl
  · have hlists : c.view.lists = d.view.lists := hsame.lists
    cases list.filter (· != "") with
    | some name =>
      show c.view.isListed name = d.view.isListed name
      rw [View.isListed, View.isListed, hlists, hsame.token]
    | none =>
      show c.view.isOneOf _ = d.view.isOneOf _
      rw [View.isOneOf, View.isOneOf, hsame.token]

theorem exists_answer_eq_ok (context : Context) : ∃ b, registry.answer context call = .ok b := by
  obtain ⟨holds, hanswer, -⟩ := h.exists_answer
  exact ⟨_, hanswer context⟩

theorem answer_congr {c d : Context} (hsame : c.SameToken d) :
    registry.answer c call = registry.answer d call := by
  obtain ⟨holds, hanswer, hcongr⟩ := h.exists_answer
  rw [hanswer, hanswer, hcongr c d hsame]

end Call.TestsMembership

namespace Rule.LooksAtToken

variable {rule : Rule} {registry : Registry} (h : rule.LooksAtToken registry)
include h

theorem inserts : rule.Inserts registry where
  answered literal hmem context := (h.tests literal hmem).exists_answer_eq_ok context
  blind literal hmem _ := (h.tests literal hmem).answer_congr ⟨rfl, rfl⟩
  actions := h.actions

theorem holds_congr {c d : Context} (hsame : c.SameToken d) :
    rule.holds registry c = rule.holds registry d := by
  rw [holds, holds, Formula.map_congr fun literal hmem => ?_]
  have hanswer := (h.tests literal hmem).answer_congr hsame
  rw [Registry.truth, Registry.truth, Registry.affirms, Registry.affirms, hanswer]

end Rule.LooksAtToken

/-! ### Letters after a token -/

/-- The insertions of some letters at one position. -/
def Edit.ofLetters (position : Nat) (letters : List String) : List Edit :=
  letters.map (⟨position, ·⟩)

/-- The same insertion some positions further on. -/
def Edit.shift (edit : Edit) (count : Nat) : Edit := { edit with position := count + edit.position }

namespace Engine

variable (engine : Engine)

/-- The letters that the rules put after a token, which is looked at by itself. -/
def letters (token : String) : List String :=
  (engine.rules.rules.filter (·.holds engine.registry (engine.context [token] 0))).flatMap
    fun rule => rule.actions.map Call.letter

theorem sameToken_context {tokens others : List String} {index place : Nat}
    (h : tokens[index]? = others[place]?) :
    (engine.context tokens index).SameToken (engine.context others place) :=
  ⟨rfl, congrArg (Option.map engine.analyzer.normalize) h⟩

variable {engine} (h : ∀ rule ∈ engine.rules.rules, rule.LooksAtToken engine.registry)
  {tokens : List String}
include h

/-- What is inserted at a position is told by the token there. -/
theorem insertionsOf_eq_ofLetters {index : Nat} {token : String}
    (htoken : tokens[index]? = some token) :
    insertionsOf engine.rules.rules engine.registry (engine.context tokens index) =
      Edit.ofLetters index (engine.letters token) := by
  have hsame : (engine.context tokens index).SameToken (engine.context [token] 0) :=
    engine.sameToken_context htoken
  have hholds : ∀ rule ∈ engine.rules.rules,
      rule.holds engine.registry (engine.context tokens index) =
        rule.holds engine.registry (engine.context [token] 0) := fun rule hmem =>
    (h rule hmem).holds_congr hsame
  rw [insertionsOf, List.filter_congr hholds, Edit.ofLetters, letters, List.map_flatMap]
  refine List.flatMap_congr fun rule _ => ?_
  rw [List.map_map]
  rfl

/-- **The insertions in a sentence** are those for its tokens, each at its place. -/
theorem insertions_eq (tokens : List String) :
    engine.insertions tokens =
      tokens.zipIdx.flatMap fun token => Edit.ofLetters token.2 (engine.letters token.1) := by
  have hrange : List.range tokens.length = tokens.zipIdx.map Prod.snd := by
    rw [List.zipIdx_map_snd, List.range_eq_range']
  rw [insertions, hrange, List.flatMap_map]
  refine List.flatMap_congr fun token hmem => ?_
  exact insertionsOf_eq_ofLetters h (List.mem_zipIdx_iff_getElem?.1 hmem)

/-- The insertions in a sentence of two parts. -/
theorem insertions_append (tokens others : List String) :
    engine.insertions (tokens ++ others) =
      engine.insertions tokens ++ (engine.insertions others).map (·.shift tokens.length) := by
  have hshift : ∀ token : String × Nat,
      Edit.ofLetters (tokens.length + token.2) (engine.letters token.1) =
        (Edit.ofLetters token.2 (engine.letters token.1)).map (·.shift tokens.length) := by
    intro token
    rw [Edit.ofLetters, Edit.ofLetters, List.map_map]
    rfl
  have hplaces : others.zipIdx tokens.length =
      others.zipIdx.map fun token => (token.1, tokens.length + token.2) := List.zipIdx_eq_map_add
  rw [insertions_eq h, insertions_eq h, insertions_eq h, List.zipIdx_append, List.flatMap_append,
    Nat.zero_add, hplaces, List.flatMap_map, List.map_flatMap]
  exact congrArg _ (List.flatMap_congr fun token _ => hshift token)

omit h in
theorem run_congr {s t : String} (hwords : Text.words s = Text.words t) :
    engine.run s = engine.run t := by
  rw [run, run, hwords]

/-- **Running is a homomorphism for sentences put together**, where the rules look at nothing but
the token.  A text of two sentences with blanks between them has the edits of the first and those
of the second, which are moved by the number of tokens of the first; so the edits of any sentence
are those for its tokens, each at its place, and neither blanks at the ends nor the number of blanks
between tokens matter. -/
theorem run_append :
    (∀ s blanks t, Text.isBlankText blanks = true → blanks ≠ "" →
      ∃ edits others, (engine.run s).result = .ok edits ∧ (engine.run t).result = .ok others ∧
        (engine.run (s ++ blanks ++ t)).result =
          .ok (edits ++ others.map (·.shift (Text.words s).length))) ∧
    (∀ sentence, (engine.run sentence).result =
      .ok ((Text.words sentence).zipIdx.flatMap fun token =>
        Edit.ofLetters token.2 (engine.letters token.1))) ∧
    ∀ s blanks others t, Text.isBlankText blanks = true → Text.isBlankText others = true →
      engine.run (blanks ++ s) = engine.run s ∧ engine.run (s ++ blanks) = engine.run s ∧
      (blanks ≠ "" → others ≠ "" →
        engine.run (s ++ blanks ++ t) = engine.run (s ++ others ++ t)) := by
  have hinserts : ∀ rule ∈ engine.rules.rules, rule.Inserts engine.registry := fun rule hmem =>
    (h rule hmem).inserts
  refine ⟨fun s blanks t hblank hne => ?_, fun sentence => ?_,
    fun s blanks others t hblank hothers => ⟨?_, ?_, fun hne hne' => ?_⟩⟩
  · refine ⟨_, _, run_of_inserts hinserts s, run_of_inserts hinserts t, ?_⟩
    rw [run_of_inserts hinserts, Text.words_append hblank hne, insertions_append h]
  · rw [run_of_inserts hinserts, insertions_eq h]
  · exact run_congr (Text.words_blanks_append hblank s)
  · exact run_congr (Text.words_append_blanks hblank s)
  · refine run_congr ?_
    rw [Text.words_append hblank hne, Text.words_append hothers hne']

omit h in
/-- A letter after one word of a list and another letter after all words but this one, in a text of
two sentences. -/
theorem run_two_sentences :
    let insert (letter : String) : Call :=
      ⟨"add_after", (∅ : Arguments).insert "letter" (.text letter)⟩
    let first : Rule := ⟨"first", "", Condition.inList "L", [insert "h"]⟩
    let other : Rule := ⟨"other", "", .not (.any [Condition.inWords ["a", "b"]]), [insert "y"]⟩
    let lists : WordLists := (∅ : WordLists).extend "L" ["a", "c"]
    let engine : Engine :=
      ⟨⟨[first, other], ∅, by decide⟩, Builtin.registry, lists, Analyzer.none⟩
    (∀ rule ∈ engine.rules.rules, rule.LooksAtToken engine.registry) ∧
      (engine.run "a b").result = .ok [⟨0, "h"⟩] ∧
      (engine.run " c a").result = .ok [⟨0, "h"⟩, ⟨0, "y"⟩, ⟨1, "h"⟩] ∧
      (engine.run "a b\t c a").result = .ok [⟨0, "h"⟩, ⟨2, "h"⟩, ⟨2, "y"⟩, ⟨3, "h"⟩] := by
  intro insert first other lists engine
  have hlist : ∀ literal ∈ first.condition.atoms,
      literal.call.TestsMembership engine.registry := by
    intro literal hmem
    obtain rfl := List.mem_singleton.1 hmem
    exact ⟨Builtin.predicate?_in_list, by simp, by simp⟩
  have hwords : ∀ literal ∈ other.condition.atoms,
      literal.call.TestsMembership engine.registry := by
    intro literal hmem
    obtain rfl := List.mem_singleton.1 hmem
    refine ⟨Builtin.predicate?_in_list, by simp, ?_⟩
    intro value hvalue
    simp at hvalue
    exact ⟨["a", "b"], hvalue.symm⟩
  have hinsert : ∀ letter, (insert letter).Inserts engine.registry := fun letter =>
    ⟨Builtin.action?_add_after, letter, by simp [insert]⟩
  have hrules : ∀ rule ∈ engine.rules.rules, rule.LooksAtToken engine.registry := by
    intro rule hrule
    rcases List.mem_pair.1 hrule with rfl | rfl
    · exact ⟨hlist, List.forall_mem_singleton.2 (hinsert "h")⟩
    · exact ⟨hwords, List.forall_mem_singleton.2 (hinsert "y")⟩
  obtain ⟨happend, hedits, -⟩ := run_append hrules
  have hfirst : (engine.run "a b").result = .ok [⟨0, "h"⟩] := by
    rw [hedits]
    decide +kernel
  have hsecond : (engine.run " c a").result = .ok [⟨0, "h"⟩, ⟨0, "y"⟩, ⟨1, "h"⟩] := by
    rw [hedits]
    decide +kernel
  obtain ⟨edits, others, hs, ht, htext⟩ := happend "a b" "\t" " c a" (by decide) (by decide)
  cases hfirst.symm.trans hs
  cases hsecond.symm.trans ht
  exact ⟨hrules, hfirst, hsecond, htext⟩

end Engine

end TokenRules
