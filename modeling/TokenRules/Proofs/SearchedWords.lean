import TokenRules.Proofs.Demand
import TokenRules.Proofs.Membership

/-!
# The words that a membership test searches

What `in_list` means without a context that keeps anything: which arguments it refuses
(`Arguments.Mistyped`) and, of the others, which words they search (`Arguments.Searched`).
Arguments are read before the token is looked at, so neither a name nor a missing token hides a
wrong one.  The test itself looks words up in sets that a context may keep from earlier tests.  Main
statement: it agrees with its meaning in every context, `run_inList_iff_searched`.
-/

namespace TokenRules

variable {β : Type}

/-! ### Arguments of a kind -/

namespace Argument

/-- A list of texts. -/
def texts (words : List String) : Argument := .list (words.map .text)

theorem asText?_eq_some_iff {value : Argument} {text : String} :
    value.asText? = some text ↔ value = .text text := by
  cases value <;> simp [asText?]

theorem mapM_asText?_eq_some_iff {items : List Argument} {words : List String} :
    items.mapM asText? = some words ↔ items = words.map .text := by
  constructor
  · intro h
    induction items generalizing words with
    | nil => simpa using h.symm
    | cons item rest ih =>
      obtain ⟨text, htext, others, hothers, rfl⟩ :
          ∃ text, item.asText? = some text ∧
            ∃ others, rest.mapM asText? = some others ∧ text :: others = words := by
        simpa [List.mapM_cons, Option.bind_eq_some_iff] using h
      rw [asText?_eq_some_iff.1 htext, ih hothers, List.map_cons]
  · rintro rfl
    exact Arguments.mapM_asText?_map_text words

theorem asTexts?_eq_some_iff {value : Argument} {words : List String} :
    value.asTexts? = some words ↔ value = .texts words := by
  cases value with
  | list items =>
    rw [texts, list.injEq]
    exact mapM_asText?_eq_some_iff
  | _ => simp [asTexts?, asList?, texts]

end Argument

namespace Arguments

variable {args : Arguments} {name : String}

/-- An argument is given, but it is none of the kind that `form` makes. -/
def Mistyped (args : Arguments) (name : String) (form : β → Argument) : Prop :=
  ∃ value, args.get? name = some value ∧ ∀ b, value ≠ form b

/-- The argument called `name` as `read` reads it, if it is given; `e` if it cannot be read. -/
def read? (args : Arguments) (name : String) (read : Argument → Option β) (e : ArgumentError) :
    Except ArgumentError (Option β) :=
  match args.get? name with
  | none => .ok none
  | some value =>
    match read value with
    | some b => .ok (some b)
    | none => .error e

section Read

variable {read : Argument → Option β} {form : β → Argument} {e : ArgumentError}
  (hread : ∀ {value b}, read value = some b ↔ value = form b)
include hread

theorem read?_of_mistyped (h : args.Mistyped name form) : args.read? name read e = .error e := by
  obtain ⟨value, hvalue, hform⟩ := h
  have hnone : read value = none := Option.eq_none_iff_forall_ne_some.2 fun b hb =>
    hform b (hread.1 hb)
  rw [read?, hvalue]
  simp only [hnone]

/-- An argument of the right kind is read, and so is one that is not given. -/
theorem exists_read?_of_not_mistyped (h : ¬ args.Mistyped name form) :
    ∃ given, args.read? name read e = .ok given ∧
      ∀ b, given = some b ↔ args.get? name = some (form b) := by
  rw [read?]
  cases hvalue : args.get? name with
  | none => exact ⟨none, rfl, by simp⟩
  | some value =>
    cases hb : read value with
    | none => exact absurd ⟨value, hvalue, fun b heq => by simp [hread.2 heq] at hb⟩ h
    | some b =>
      refine ⟨some b, by simp only [hb], fun other => ?_⟩
      rw [Option.some_inj (b := form other), ← hread, hb]

end Read

theorem text?_eq_read? (args : Arguments) (name : String) :
    args.text? name = args.read? name Argument.asText? (.notText name) := by
  rw [text?, read?]
  cases args.get? name with
  | none => rfl
  | some value =>
    dsimp only
    cases value.asText? <;> rfl

theorem texts?_eq_read? (args : Arguments) (name : String) :
    args.texts? name = args.read? name Argument.asTexts? (.notTexts name) := by
  rw [texts?, read?]
  cases args.get? name with
  | none => rfl
  | some value =>
    dsimp only
    cases value.asTexts? <;> rfl

/-! ### Words searched -/

/-- The arguments search a word: it is in the list that `list` names or, if `list` names none, among
`words`.  A name that no list has searches nothing. -/
inductive Searched (args : Arguments) (lists : WordLists) (word : String) : Prop
  | listed {name : String} {set : WordSet} (hlist : args.get? "list" = some (.text name))
      (hname : name ≠ "") (hset : lists.get? name = some set) (hmem : word ∈ set)
  | inline {words : List String} (hlist : ∀ name, args.get? "list" = some (.text name) → name = "")
      (hwords : args.get? "words" = some (.texts words)) (hmem : word ∈ words)

variable {lists : WordLists} {word : String}

theorem searched_iff_of_name (hlist : args.get? "list" = some (.text name)) (hname : name ≠ "") :
    args.Searched lists word ↔ word ∈ lists.lookup name := by
  constructor
  · rintro (⟨hother, -, hset, hmem⟩ | ⟨hnone, -, -⟩)
    · rw [hlist, Option.some_inj, Argument.text.injEq] at hother
      rwa [WordLists.lookup, hother, hset]
    · exact absurd (hnone name hlist) hname
  · intro hmem
    cases hset : lists.get? name with
    | none =>
      rw [WordLists.lookup, hset] at hmem
      exact absurd hmem (WordSet.not_mem_empty word)
    | some set =>
      rw [WordLists.lookup, hset] at hmem
      exact .listed hlist hname hset hmem

theorem searched_iff_of_no_name (hlist : ∀ name, args.get? "list" = some (.text name) → name = "") :
    args.Searched lists word ↔
      ∃ words, args.get? "words" = some (.texts words) ∧ word ∈ words := by
  constructor
  · rintro (⟨hname, hne, -, -⟩ | ⟨-, hwords, hmem⟩)
    · exact absurd (hlist _ hname) hne
    · exact ⟨_, hwords, hmem⟩
  · rintro ⟨words, hwords, hmem⟩
    exact .inline hlist hwords hmem

end Arguments

/-! ### The membership test -/

namespace Builtin

variable {args : Arguments}

theorem meaning_inList_of_list_mistyped (h : args.Mistyped "list" .text) (sight : Sight) :
    ((inList args).meaning sight).1 = .error (.notText "list") := by
  rw [inList, Arguments.text?_eq_read?, Arguments.read?_of_mistyped Argument.asText?_eq_some_iff h]
  rfl

theorem meaning_inList_of_words_mistyped (hlist : ¬ args.Mistyped "list" .text)
    (h : args.Mistyped "words" .texts) (sight : Sight) :
    ((inList args).meaning sight).1 = .error (.notTexts "words") := by
  obtain ⟨list, htext, -⟩ := Arguments.exists_read?_of_not_mistyped
    (e := .notText "list") Argument.asText?_eq_some_iff hlist
  rw [inList, Arguments.text?_eq_read?, htext, Arguments.texts?_eq_read?,
    Arguments.read?_of_mistyped Argument.asTexts?_eq_some_iff h]
  rfl

/-- The test holds if the current token, in normal form, is searched. -/
theorem exists_meaning_inList (hlist : ¬ args.Mistyped "list" .text)
    (hwords : ¬ args.Mistyped "words" .texts) (sight : Sight) :
    ∃ holds, ((inList args).meaning sight).1 = .ok holds ∧
      (holds = true ↔ ∃ token, sight.view.token? = some token ∧
        args.Searched sight.lists (sight.view.normalize token)) := by
  obtain ⟨list, htext, hname⟩ := Arguments.exists_read?_of_not_mistyped
    (e := .notText "list") Argument.asText?_eq_some_iff hlist
  obtain ⟨words, htexts, hgiven⟩ := Arguments.exists_read?_of_not_mistyped
    (e := .notTexts "words") Argument.asTexts?_eq_some_iff hwords
  rw [← Arguments.text?_eq_read?] at htext
  rw [← Arguments.texts?_eq_read?] at htexts
  refine ⟨_, meaning_inList htext htexts sight, ?_⟩
  cases hfilter : list.filter (· != "") with
  | some name =>
    obtain ⟨hsome, hne⟩ := Option.filter_eq_some_iff.1 hfilter
    have hne : name ≠ "" := bne_iff_ne.1 hne
    rw [View.isListed_iff, and_iff_right hne]
    simp only [Arguments.searched_iff_of_name ((hname name).1 hsome) hne]
    rfl
  | none =>
    have hnone : ∀ name, args.get? "list" = some (.text name) → name = "" := fun name hget => by
      simpa using Option.filter_eq_none_iff.1 hfilter name ((hname name).2 hget)
    rw [View.isOneOf_iff]
    simp only [Arguments.searched_iff_of_no_name hnone, ← hgiven]
    cases words <;> simp

/-- Which answer the test gives. -/
theorem meaning_inList_iff (args : Arguments) (sight : Sight) :
    (((inList args).meaning sight).1 = .error (.notText "list") ↔ args.Mistyped "list" .text) ∧
    (((inList args).meaning sight).1 = .error (.notTexts "words") ↔
      ¬ args.Mistyped "list" .text ∧ args.Mistyped "words" .texts) ∧
    ∀ holds, ((inList args).meaning sight).1 = .ok holds ↔
      ¬ args.Mistyped "list" .text ∧ ¬ args.Mistyped "words" .texts ∧
        (holds = true ↔ ∃ token, sight.view.token? = some token ∧
          args.Searched sight.lists (sight.view.normalize token)) := by
  by_cases hlist : args.Mistyped "list" .text
  · rw [meaning_inList_of_list_mistyped hlist]
    simp [hlist]
  · by_cases hwords : args.Mistyped "words" .texts
    · rw [meaning_inList_of_words_mistyped hlist hwords]
      simp [hlist, hwords]
    · obtain ⟨holds, hmeaning, hholds⟩ := exists_meaning_inList hlist hwords sight
      rw [hmeaning, ← hholds]
      refine ⟨by simp [hlist], by simp [hwords], fun other => ?_⟩
      rw [and_iff_right hlist, and_iff_right hwords, Except.ok.injEq, eq_comm]
      exact Bool.eq_iff_iff

theorem asks_inList (args : Arguments) (sight : Sight) : (inList args).asks sight = false := by
  rw [inList]
  split
  · rfl
  · rfl
  · rw [Program.asks, Program.readings]
    split
    · rfl
    · split
      · rfl
      · split <;> rfl

end Builtin

namespace Context

/-- The context once the sets of some lists of words were asked for. -/
def inlineSetAll (context : Context) (earlier : List (List String)) : Context :=
  earlier.foldl (fun context words => (context.inlineSet words).2) context

theorem sight_inlineSetAll (context : Context) (earlier : List (List String)) :
    (context.inlineSetAll earlier).sight = context.sight := by
  induction earlier generalizing context with
  | nil => rfl
  | cons words rest ih => exact (ih _).trans (context.sight_inlineSet words)

/-- A context is told by its sight and by what it keeps. -/
theorem eq_of_sight {context other : Context} (hsight : context.sight = other.sight)
    (hmemo : context.memo = other.memo) :
    context = { other with inlineSets := context.inlineSets } := by
  cases context
  cases other
  obtain ⟨rfl, rfl, rfl, rfl, rfl, -⟩ := Sight.mk.inj hsight
  obtain rfl := hmemo
  rfl

end Context

/-- **A membership test agrees with its meaning in every context.**  An argument `list` that is no
text is refused, then an argument `words` that is no list of texts; otherwise the test holds if
there is a current token that, in normal form, is searched.  It is no different after other tests,
and it leaves everything but the kept sets as it was.

No argument is excused by another one, nor by a missing token. -/
theorem run_inList_iff_searched {ε : Type} (context : Context) (args : Arguments) :
    let test : Pass ε (Except ArgumentError Bool) := (Builtin.inList args).run
    ((test context).result = .ok (.error (.notText "list")) ↔ args.Mistyped "list" .text) ∧
    ((test context).result = .ok (.error (.notTexts "words")) ↔
      ¬ args.Mistyped "list" .text ∧ args.Mistyped "words" .texts) ∧
    (∀ holds, (test context).result = .ok (.ok holds) ↔
      ¬ args.Mistyped "list" .text ∧ ¬ args.Mistyped "words" .texts ∧
        (holds = true ↔ ∃ token, context.tokens[context.index]? = some token ∧
          args.Searched context.lists (context.analyzer.normalize token))) ∧
    (∀ earlier, (test (context.inlineSetAll earlier)).result = (test context).result) ∧
    (test context).context =
      { context with inlineSets := (test context).context.inlineSets } ∧
    (test context).events.filterMap Event.analysis? = [] := by
  intro test
  have heffect (c : Context) : (test c).effect = _ := (Builtin.inList args).effect_run c
  have hresult (c : Context) :
      (test c).result = .ok ((Builtin.inList args).meaning c.sight).1 :=
    congrArg Effect.result (heffect c)
  have hsight : (test context).context.sight = context.sight :=
    (congrArg Effect.sight (heffect context)).trans (Program.meaning_reads _ _)
  have hdemand : Demand _ context (test context).context (test context).events :=
    (Builtin.inList args).demand_run context
  rw [Builtin.asks_inList] at hdemand
  obtain ⟨hlist, hwords, hholds⟩ := Builtin.meaning_inList_iff args context.sight
  rw [hresult, Except.ok.injEq, Except.ok.injEq]
  refine ⟨hlist, hwords, fun holds => ?_, fun earlier => ?_,
    Context.eq_of_sight hsight hdemand.memo, hdemand.runs⟩
  · rw [Except.ok.injEq]
    exact hholds holds
  · rw [hresult, Context.sight_inlineSetAll]

end TokenRules
