import TokenRules.Number.Layout.Lemmas
import TokenRules.Proofs.FirstFault

/-!
# Lines of a shown node

The message about a node that is not legal shows the node, its texts and tags as they are and all
else in printable ASCII.  So the characters outside of printable ASCII are those of the texts and
tags, in the order written (`specials_render`), and the node is on one line if and only if each of
its texts and tags is.

The node is in a block of the rule that is refused, and its texts and tags are among those of the
block (`verbatim_subset_of_follow?`).  In front of it the message may show one of its keys again,
and the name of the rule.  Main statement: `shown_on_one_line_iff`.
-/

namespace TokenRules

open Text (specials OneLine)

/-! ### Values -/

namespace Yaml.Value

mutual

/-- The texts and tags in a value, keys included, in the order written. -/
def verbatim : Value → List String
  | .null | .bool _ | .int _ | .float _ => []
  | .text value => [value]
  | .sequence items => itemsVerbatim items
  | .mapping entries => entriesVerbatim entries
  | .tagged tag value => tag :: value.verbatim

def itemsVerbatim : List Value → List String
  | [] => []
  | item :: rest => item.verbatim ++ itemsVerbatim rest

def entriesVerbatim : List (Value × Value) → List String
  | [] => []
  | (key, value) :: rest => key.verbatim ++ value.verbatim ++ entriesVerbatim rest

end

theorem itemsVerbatim_eq (items : List Value) : itemsVerbatim items = items.flatMap verbatim := by
  induction items with
  | nil => rfl
  | cons item rest ih => rw [itemsVerbatim, ih, List.flatMap_cons]

theorem entriesVerbatim_eq (entries : List (Value × Value)) :
    entriesVerbatim entries =
      entries.flatMap fun entry => entry.1.verbatim ++ entry.2.verbatim := by
  induction entries with
  | nil => rfl
  | cons entry rest ih => rw [entriesVerbatim, ih, List.flatMap_cons]

mutual

/-- **A value is shown with the characters of its texts and tags**, in order, and otherwise in
printable ASCII. -/
theorem specials_render : ∀ value : Value,
    specials value.render = value.verbatim.flatMap specials
  | .null => rfl
  | .bool value => by cases value <;> rfl
  | .int value => by
    rw [render, Text.specials_int]
    rfl
  | .float value => by
    rw [render, Layout.specials_text rfl rfl]
    rfl
  | .text value => by rw [render, verbatim, List.flatMap_singleton]
  | .sequence items => by
    rw [render, verbatim, Text.specials_enclosed rfl rfl, Text.specials_intercalate rfl,
      specials_renderItems items]
  | .mapping entries => by
    rw [render, verbatim, Text.specials_enclosed rfl rfl, Text.specials_intercalate rfl,
      specials_renderEntries entries]
  | .tagged tag value => by
    rw [render, verbatim, Text.specials_append, Text.specials_enclosed rfl rfl,
      specials_render value, List.flatMap_cons]

theorem specials_renderItems : ∀ items : List Value,
    (renderItems items).flatMap specials = (itemsVerbatim items).flatMap specials
  | [] => rfl
  | item :: rest => by
    rw [renderItems, itemsVerbatim, List.flatMap_cons, List.flatMap_append, specials_render item,
      specials_renderItems rest]

theorem specials_renderEntries : ∀ entries : List (Value × Value),
    (renderEntries entries).flatMap specials = (entriesVerbatim entries).flatMap specials
  | [] => rfl
  | (key, value) :: rest => by
    have hcolon : specials ": " = [] := by decide
    rw [renderEntries, entriesVerbatim, List.flatMap_cons, List.flatMap_append,
      List.flatMap_append, Text.specials_append, Text.specials_append, hcolon, List.append_nil,
      specials_render key, specials_render value, specials_renderEntries rest]

end

theorem oneLine_render_iff (value : Value) :
    OneLine value.render ↔ ∀ text ∈ value.verbatim, OneLine text :=
  Text.oneLine_iff_of_specials_eq value.specials_render

/-! ### Parts of a value -/

theorem verbatim_untagged_subset : ∀ value : Value, value.untagged.verbatim ⊆ value.verbatim
  | .tagged _ value => fun _ h => List.mem_cons_of_mem _ (verbatim_untagged_subset value h)
  | .null | .bool _ | .int _ | .float _ | .text _ | .sequence _ | .mapping _ => fun _ h => h

variable {value : Value}

theorem mem_verbatim_of_asText? {name : String} (h : value.asText? = some name) :
    name ∈ value.verbatim := by
  refine verbatim_untagged_subset value ?_
  unfold asText? at h
  split at h
  · rename_i text hvalue
    cases h
    rw [hvalue, verbatim]
    exact List.mem_singleton_self _
  · cases h

theorem verbatim_subset_of_asSequence? {items : List Value} (h : value.asSequence? = some items)
    {item : Value} (hmem : item ∈ items) : item.verbatim ⊆ value.verbatim := by
  intro text htext
  refine verbatim_untagged_subset value ?_
  rw [Authoring.untagged_of_asSequence? h, verbatim, itemsVerbatim_eq]
  exact List.mem_flatMap.2 ⟨item, hmem, htext⟩

theorem verbatim_subset_of_asMapping? {entries : List (Value × Value)}
    (h : value.asMapping? = some entries) {entry : Value × Value} (hmem : entry ∈ entries) :
    entry.1.verbatim ++ entry.2.verbatim ⊆ value.verbatim := by
  intro text htext
  refine verbatim_untagged_subset value ?_
  rw [Authoring.untagged_of_asMapping? h, verbatim, entriesVerbatim_eq]
  exact List.mem_flatMap.2 ⟨entry, hmem, htext⟩

end Yaml.Value

namespace Authoring

open Yaml (Value)

/-! ### Nodes of a block -/

section Steps

variable {node part : Value}

theorem verbatim_subset_of_under? {keyword : Keyword} (h : under? keyword node = some part) :
    part.verbatim ⊆ node.verbatim := by
  obtain ⟨entries, hentries, hfound⟩ := Option.bind_eq_some_iff.1 h
  obtain ⟨entry, hentry, rfl⟩ := Option.map_eq_some_iff.1 hfound
  exact fun text htext => Value.verbatim_subset_of_asMapping? hentries
    (List.mem_of_find?_eq_some hentry) (List.mem_append_right _ htext)

theorem verbatim_subset_of_itemAt? {index : Nat} (h : itemAt? index node = some part) :
    part.verbatim ⊆ node.verbatim := by
  obtain ⟨items, hitems, hitem⟩ := Option.bind_eq_some_iff.1 h
  exact Value.verbatim_subset_of_asSequence? hitems (List.mem_of_getElem? hitem)

theorem verbatim_subset_of_into? {step : Step} (h : step.into? node = some part) :
    part.verbatim ⊆ node.verbatim := by
  cases step with
  | not => exact verbatim_subset_of_under? h
  | all index | any index =>
    obtain ⟨sequence, hsequence, hitem⟩ := Option.bind_eq_some_iff.1 h
    exact List.Subset.trans (verbatim_subset_of_itemAt? hitem) (verbatim_subset_of_under? hsequence)
  | item index => exact verbatim_subset_of_itemAt? h

/-- The texts and tags of a node are among those of the value that the steps to it start from. -/
theorem verbatim_subset_of_follow? {steps : List Step} (h : follow? steps node = some part) :
    part.verbatim ⊆ node.verbatim := by
  induction steps generalizing node with
  | nil =>
    obtain rfl : node = part := Option.some.inj h
    exact fun _ htext => htext
  | cons step steps ih =>
    rw [follow?_cons] at h
    obtain ⟨next, hnext, hpart⟩ := Option.bind_eq_some_iff.1 h
    exact List.Subset.trans (ih hpart) (verbatim_subset_of_into? hnext)

end Steps

/-! ### Reasons -/

/-- The text of a node that is shown with the reason why it has no shape. -/
def ShapeError.verbatim : ShapeError → List String
  | .unexpectedKey name => [name]
  | _ => []

theorem specials_keyword (keyword : Keyword) : specials keyword.name = [] := by
  cases keyword <;> rfl

theorem ShapeError.specials_message (reason : ShapeError) :
    specials reason.message = reason.verbatim.flatMap specials := by
  unfold message
  cases reason with
  | unexpectedKey name =>
    dsimp only
    rw [verbatim, Text.specials_enclosed (by decide) rfl, List.flatMap_singleton]
  | noKeyword =>
    dsimp only
    rw [Text.specials_append, Text.specials_intercalate rfl, List.flatMap_map,
      List.flatMap_eq_nil_iff.2 fun keyword _ => specials_keyword keyword]
    rfl
  | conflictingKeys | argsWithout | notSequence | notTexts =>
    simp only [Text.specials_append, specials_keyword]
    rfl
  | notMapping | keyNotText | functionNotText | argsNotMapping => rfl

/-- A key that is not expected is a key of the mapping. -/
theorem exists_key_of_findKeyword {entries : List (Value × Value)}
    {found : Option Keyword} {name : String}
    (h : Shape.findKeyword entries found = .error (.unexpectedKey name)) :
    ∃ entry ∈ entries, entry.1.asText? = some name := by
  induction entries generalizing found with
  | nil => cases found <;> cases h
  | cons entry rest ih =>
    obtain ⟨key, value⟩ := entry
    have hrest {found : Option Keyword}
        (h : Shape.findKeyword rest found = .error (.unexpectedKey name)) :
        ∃ entry ∈ (key, value) :: rest, entry.1.asText? = some name := by
      obtain ⟨entry, hmem, hname⟩ := ih h
      exact ⟨entry, List.mem_cons_of_mem _ hmem, hname⟩
    -- keywords and arguments are passed over; the last case is the key of the error itself
    unfold Shape.findKeyword at h
    split at h
    · cases h
    · split at h
      · exact hrest h
      · cases h
      · split at h
        · exact hrest h
        · cases h
          exact ⟨_, List.mem_cons_self, ‹_›⟩

namespace Shape

variable {keyword : Keyword} {value : Value} {name : String}

theorem findArgs_ne_unexpectedKey (entries : List (Value × Value)) :
    findArgs entries ≠ .error (.unexpectedKey name) := by
  unfold findArgs
  split <;> nofun

theorem itemsOf_ne_unexpectedKey : itemsOf keyword value ≠ .error (.unexpectedKey name) := by
  unfold itemsOf
  split <;> nofun

theorem textsOf_ne_unexpectedKey : textsOf keyword value ≠ .error (.unexpectedKey name) := by
  intro h
  unfold textsOf at h
  cases hitems : itemsOf keyword value with
  | error reason =>
    rw [hitems] at h
    cases h
    exact itemsOf_ne_unexpectedKey hitems
  | ok items =>
    rw [hitems] at h
    cases htexts : items.mapM Value.asText? <;> simp [htexts, bind, Except.bind] at h

/-- Behind the keys, nothing that can be wrong is a key. -/
theorem ofKeyword_ne_unexpectedKey (entries : List (Value × Value)) :
    ofKeyword entries value keyword ≠ .error (.unexpectedKey name) := by
  intro h
  cases keyword with
  | function =>
    rw [ofKeyword] at h
    split at h
    · cases h
    · exact findArgs_ne_unexpectedKey entries (map_eq_error_iff.1 h)
  | not => cases h
  | all | any => exact itemsOf_ne_unexpectedKey (map_eq_error_iff.1 h)
  | lists | words => exact textsOf_ne_unexpectedKey (map_eq_error_iff.1 h)

/-- A key that is not expected is told before anything else is looked at. -/
theorem exists_findKeyword_of_recognize {node : Value}
    (h : recognize node = .error (.reported (.unexpectedKey name))) :
    ∃ entries, node.asMapping? = some entries ∧
      findKeyword entries none = .error (.unexpectedKey name) := by
  unfold recognize at h
  split at h
  · cases h
  · rename_i entries hentries
    split at h
    · rename_i reason hfound
      cases h
      exact ⟨entries, hentries, hfound⟩
    · rename_i keyword _
      split at h
      · cases h
      · split at h
        · cases h
        · rename_i value _
          cases hshape : ofKeyword entries value keyword <;> rw [hshape] at h <;> cases h
          exact absurd hshape (ofKeyword_ne_unexpectedKey entries)

end Shape

theorem verbatim_subset_of_recognize {node : Value} {reason : ShapeError}
    (h : Shape.recognize node = .error (.reported reason)) : reason.verbatim ⊆ node.verbatim := by
  cases reason with
  | unexpectedKey name =>
    obtain ⟨entries, hentries, hfound⟩ := Shape.exists_findKeyword_of_recognize h
    obtain ⟨entry, hmem, hname⟩ := exists_key_of_findKeyword hfound
    exact List.cons_subset.2 ⟨Value.verbatim_subset_of_asMapping? hentries hmem
      (List.mem_append_left _ (Value.mem_verbatim_of_asText? hname)), List.nil_subset _⟩
  | _ => exact List.nil_subset _

/-! ### Messages -/

theorem specials_renderPath (block : Block) (steps : List Step) :
    specials (renderPath block steps) = [] := by
  have hstep (step : Step) : specials step.render = [] := by
    cases step with
    | not => rfl
    | all index | any index | item index =>
      rw [Step.render, Text.specials_enclosed (by decide) rfl, Text.specials_nat]
  rw [renderPath, Text.specials_append, Text.specials_join, List.flatMap_map,
    List.flatMap_eq_nil_iff.2 fun step _ => hstep step]
  cases block <;> rfl

section Message

variable {rule : String} {block : Block} {steps : List Step} {reason : ShapeError} {node : Value}

theorem specials_message :
    specials (CompileError.unsupportedNode rule block steps reason node).message =
      (rule :: (reason.verbatim ++ node.verbatim)).flatMap specials := by
  -- unfolded by hand, since Lean takes too long over the equations of `message`
  show specials ("unsupported condition node at " ++ renderPath block steps ++ " in rule '" ++
    rule ++ "': " ++ reason.message ++ ": " ++ node.render) = _
  have hat : specials "unsupported condition node at " = [] := by decide
  have hin : specials " in rule '" = [] := by decide
  have hwhy : specials "': " = [] := by decide
  have hshown : specials ": " = [] := by decide
  simp only [Text.specials_append, specials_renderPath, ShapeError.specials_message,
    Value.specials_render, hat, hin, hwhy, hshown, List.append_nil, List.nil_append,
    List.flatMap_cons, List.flatMap_append, List.append_assoc]

theorem oneLine_message_iff (h : Shape.recognize node = .error (.reported reason)) :
    OneLine (CompileError.unsupportedNode rule block steps reason node).message ↔
      OneLine rule ∧ OneLine node.render := by
  rw [Text.oneLine_iff_of_specials_eq specials_message, List.forall_mem_cons,
    List.forall_mem_append, Value.oneLine_render_iff]
  exact and_congr_right fun _ => and_iff_right_of_imp
    fun hnode text htext => hnode text (verbatim_subset_of_recognize h htext)

/-- The node of an error has no shape, and it is in a block of a rule that is compiled. -/
theorem exists_block_of_compile {costs : List (String × Binary64)} {sources : List RuleSource}
    (h : compile costs sources =
      .error (.reported (.unsupportedNode rule block steps reason node))) :
    Shape.recognize node = .error (.reported reason) ∧ ∃ spec value, .authored spec ∈ sources ∧
      spec.name = rule ∧ spec.given block = some value ∧ follow? steps value = some node := by
  cases failsWith_of_compile h with
  | @block source _ _ hfirst he =>
    obtain ⟨before, after, hsources, -⟩ := hfirst
    have hdraft := RuleSource.draft_eq_error_iff.2 he
    cases source with
    | built draft => cases hdraft
    | authored spec =>
      obtain ⟨_, ⟨place, visit⟩, _, hvisits, -, herror⟩ := RuleSpec.draft_eq_error_iff.1 hdraft
      have hvisit : (place, visit) ∈ spec.visits := by simp [hvisits]
      cases RuleSpec.blames_of_failureAt? herror with
      | invalidArguments _ _ error => cases error
      | unsupported hshape error =>
        cases error
        obtain ⟨value, hgiven, hfollow⟩ := RuleSpec.follow?_of_mem_visits hvisit
        exact ⟨hshape, spec, value, by simp [hsources], rfl, hgiven, hfollow⟩

end Message

/-- **A node is shown on one line if and only if each of its texts and tags is on one line.**  Of
the characters outside of printable ASCII, line breaks among them, it is shown with those of its
texts and tags, in the order written, and no others.

The message about a node that is not legal ends with the node, of which all texts and tags are in a
block of a rule that is compiled.  It is on one line if and only if the name of that rule is and the
node is. -/
theorem shown_on_one_line_iff (node : Value) :
    specials node.render = node.verbatim.flatMap specials ∧
    (OneLine node.render ↔ ∀ text ∈ node.verbatim, OneLine text) ∧
    ∀ costs sources rule block steps reason,
      compile costs sources =
        .error (.reported (.unsupportedNode rule block steps reason node)) →
      let message := (CompileError.unsupportedNode rule block steps reason node).message
      message = "unsupported condition node at " ++ renderPath block steps ++ " in rule '" ++
        rule ++ "': " ++ reason.message ++ ": " ++ node.render ∧
      (OneLine message ↔ OneLine rule ∧ OneLine node.render) ∧
      ∃ spec value, .authored spec ∈ sources ∧ spec.name = rule ∧ spec.given block = some value ∧
        node.verbatim ⊆ value.verbatim := by
  refine ⟨node.specials_render, node.oneLine_render_iff,
    fun costs sources rule block steps reason h => ?_⟩
  obtain ⟨hshape, spec, value, hspec, hname, hgiven, hfollow⟩ := exists_block_of_compile h
  exact ⟨rfl, oneLine_message_iff hshape, spec, value, hspec, hname, hgiven,
    verbatim_subset_of_follow? hfollow⟩

/-- The second condition of a rule is not legal and has a text outside of ASCII, under a tag; the
line break in the first condition does not come into the message. -/
theorem shown_beside_broken_text :
    let words : Value := .mapping [(.text "words", .sequence [.text "a\nb"])]
    let foo : Value := .mapping [(.text "foo", .tagged "t" (.text "\u00e9"))]
    let spec : RuleSpec := ⟨"r", "", some (.sequence [words, foo]), none, []⟩
    let e := CompileError.unsupportedNode "r" .conditions [.item 1] (.unexpectedKey "foo") foo
    compile [] [.authored spec] = .error (.reported e) ∧ OneLine e.message ∧
      specials foo.render = ['\u00e9'] ∧ ¬ OneLine words.render := by
  intro words foo spec e
  have hcompile : compile [] [.authored spec] = .error (.reported e) := by cbv
  obtain ⟨hspecials, hline, hmessage⟩ := shown_on_one_line_iff foo
  have hfoo : OneLine foo.render := hline.2 (by decide)
  refine ⟨hcompile, (hmessage _ _ _ _ _ _ hcompile).2.1.2 ⟨by decide, hfoo⟩,
    hspecials.trans (by decide), ?_⟩
  rw [(shown_on_one_line_iff words).2.1]
  decide

/-- A text of two lines, as a block scalar has it, is not shown on one line, nor is the message with
it; and a tag with an escaped line break is not. -/
theorem block_scalar_shown_on_its_lines :
    let node : Value := .mapping [(.text "foo", .text "a\nb\n")]
    let spec : RuleSpec := ⟨"r", "", some node, none, []⟩
    let e := CompileError.unsupportedNode "r" .conditions [] (.unexpectedKey "foo") node
    (Yaml.readOne "foo: |\n  a\n  b\n").toOption.map Value.render = some node.render ∧
    compile [] [.authored spec] = .error (.reported e) ∧
    node.render = "\x7bfoo: a\nb\n\x7d" ∧ ¬ OneLine node.render ∧ ¬ OneLine e.message ∧
    (Yaml.readOne "!a%0Ab x").toOption.map Value.render = some "!a\nb x" ∧
    ¬ OneLine (Value.tagged "a\nb" (.text "x")).render := by
  intro node spec e
  have hcompile : compile [] [.authored spec] = .error (.reported e) := by cbv
  exact ⟨by decide +kernel, hcompile, by decide, by decide, by decide, by decide +kernel,
    by decide⟩

end Authoring

end TokenRules
