import TokenRules.Proofs.FirstFault

/-!
# Outcomes of compilation

Compilation makes a rule set, reports an error or breaks down, and costs and sources alone
decide which (`compile_exact`).  It breaks down at the first source that is not legal, if
the first thing that is wrong there is a keyword under a tag (`RuleSource.BreaksDown`).
Blocks without tags on their keys have no such keyword, so of these everything that is
wrong is reported (`RuleSpec.not_breaksDown_of_plain`).
-/

namespace TokenRules.Authoring

open Yaml (Value)

/-! ### Rules without tags on their keys -/

/-- Keys without tags are without tags in every node that is visited. -/
theorem plainKeys_of_mem_visits {node : Value} (h : PlainKeys node) :
    ∀ visit ∈ visits node, PlainKeys visit.node := by
  induction node using Shape.node_induction with
  | step node ih =>
    intro visit hvisit
    rcases eq_or_exists_of_mem_visits hvisit with rfl | ⟨shape, hshape, hvisit⟩
    · exact h
    · obtain ⟨branch, hbranch, inner, hinner, rfl⟩ := exists_of_mem_branchVisits hvisit
      have hpart := Shape.mem_parts_of_mem_branches hbranch
      have hwritten := (Shape.recognize_eq_ok_iff_written h.entries).1 hshape
      exact ih shape hshape _ hpart (h.inside (hwritten.inside hpart)) inner hinner

theorem plainKeys_of_mem_blockVisits {block : Block} {value : Option Value} (h : PlainBlock value)
    {visit : Visit} (hvisit : visit ∈ blockVisits block value) : PlainKeys visit.node := by
  fun_cases blockVisits block value with
  | case1 | case2 | case3 | case4 => exact absurd hvisit List.not_mem_nil
  | case5 item items hblock =>
    rw [blockVisits, if_pos hblock] at hvisit
    obtain ⟨branch, hbranch, inner, hinner, rfl⟩ := exists_of_mem_branchVisits hvisit
    obtain ⟨place, hplace, rfl⟩ := List.mem_map.1 hbranch
    have hitem := h.items _ rfl _ (List.fst_mem_of_mem_zipIdx hplace)
    exact plainKeys_of_mem_visits hitem inner hinner
  | case6 item items hblock =>
    rw [blockVisits, if_neg hblock] at hvisit
    exact plainKeys_of_mem_visits (h.node _ rfl) visit hvisit
  | case7 node hnull hmapping hsequence hitems =>
    rw [blockVisits] at hvisit
    · exact plainKeys_of_mem_visits (h.node _ rfl) visit hvisit
    all_goals assumption

theorem RuleSpec.not_breaksDown_of_plain {spec : RuleSpec}
    (h : ∀ block, PlainBlock (spec.given block)) : ¬ spec.BreaksDown := by
  rintro ⟨before, ⟨block, visit⟩, after, hvisits, -, htagged⟩
  have hmem : (block, visit) ∈ spec.visits := by simp [hvisits]
  have hvisit := RuleSpec.mem_blockVisits_of_mem_visits hmem
  exact (plainKeys_of_mem_blockVisits (h block) hvisit).not_taggedKeyword htagged

/-! ### Sources -/

namespace RuleSource

/-- The source is an authored one at which the work breaks down. -/
inductive BreaksDown : RuleSource → Prop
  | authored {spec : RuleSpec} (h : spec.BreaksDown) : BreaksDown (.authored spec)

theorem faulty_crash_iff {source : RuleSource} : source.Faulty .crash ↔ source.BreaksDown := by
  rw [← draft_eq_error_iff]
  cases source with
  | built draft => exact ⟨nofun, nofun⟩
  | authored spec =>
    exact RuleSpec.draft_eq_crash_iff.trans ⟨.authored, fun ⟨h⟩ => h⟩

end RuleSource

section Compile

variable {costs : List (String × Binary64)} {sources : List RuleSource}

/-- **Compilation breaks down at the first source that is not legal**, or nowhere. -/
theorem compile_eq_crash_iff :
    compile costs sources = .error .crash ↔ (∀ pair ∈ costs, ¬ pair.2.Refused) ∧
      ∃ source, IsFirst (fun source => ¬ source.Legal) sources source ∧ source.BreaksDown := by
  have hlegal : (fun source : RuleSource => ¬ source.Legal) =
      fun source => ∃ e, source.Faulty e := by
    simp only [RuleSource.legal_iff, not_not]
  rw [compile_eq_error_iff, hlegal]
  constructor
  · intro h
    cases h with
    | block hcosts hfirst he => exact ⟨hcosts, _, hfirst, RuleSource.faulty_crash_iff.1 he⟩
  · rintro ⟨hcosts, source, hfirst, h⟩
    exact .block hcosts hfirst (RuleSource.faulty_crash_iff.2 h)

end Compile

/-- **Compilation is exact.**  It succeeds if and only if every cost is one, every block of the
authored sources has a meaning, and no two sources have the same name.  The rule set then has the
rules that its sources declare, in their order, each of which is found by the name of its source,
and no other name finds a rule.  Otherwise the first cost that is none is reported; if all are
costs, what is wrong with the first source that is not legal, its conditions before its
exceptions; and if all sources are legal, the first name that came before.

Nothing is reported if the first thing that is wrong with that source is a keyword under a tag: at
this, and at nothing else, the work breaks down.  It never does where no key in the authored blocks
has a tag or comes twice. -/
theorem compile_exact (costs : List (String × Binary64)) (sources : List RuleSource) :
    ((∃ set, compile costs sources = .ok set) ↔ (∀ pair ∈ costs, ¬ pair.2.Refused) ∧
      (∀ source ∈ sources, source.Legal) ∧ (sources.map RuleSource.name).Nodup) ∧
    (∀ set, compile costs sources = .ok set →
      List.Forall₂ RuleSource.Declares sources set.rules ∧
      (∀ source ∈ sources, ∃ rule, source.Declares rule ∧ set.get? source.name = some rule) ∧
      ∀ name, set.get? name = none ↔ ∀ source ∈ sources, source.name ≠ name) ∧
    (∀ failure, compile costs sources = .error failure ↔ FailsWith costs sources failure) ∧
    (compile costs sources = .error .crash ↔ (∀ pair ∈ costs, ¬ pair.2.Refused) ∧
      ∃ source, IsFirst (fun source => ¬ source.Legal) sources source ∧ source.BreaksDown) ∧
    ((∀ spec, .authored spec ∈ sources → ∀ block, PlainBlock (spec.given block)) →
      compile costs sources ≠ .error .crash) := by
  refine ⟨?_, fun set h => ?_, fun failure => compile_eq_error_iff, compile_eq_crash_iff, ?_⟩
  · rw [exists_eq_ok_iff, ← not_exists_failsWith_iff]
    simp only [compile_eq_error_iff]
  · have hdeclares := declares_of_compile h
    refine ⟨hdeclares, fun source hmem => ?_, fun name => ?_⟩
    · obtain ⟨rule, hrule, hsource⟩ := exists_mem_of_forall₂ hdeclares hmem
      exact ⟨rule, hsource, RuleSet.get?_eq_some_iff.2 ⟨hrule, hsource.name⟩⟩
    · have hnames := names_of_declares hdeclares
      rw [RuleSet.get?_eq_none_iff, ← List.forall_mem_map (f := Rule.name) (P := (· ≠ name))]
      rw [← List.forall_mem_map (f := RuleSource.name) (P := (· ≠ name)), hnames]
  · intro hplain h
    obtain ⟨-, source, ⟨before, after, rfl, -⟩, hbreaks⟩ := compile_eq_crash_iff.1 h
    cases hbreaks with
    | authored hspec => exact RuleSpec.not_breaksDown_of_plain (hplain _ (by simp)) hspec

/-- An authored rule with an exception and a built one that always fires.  Of all that is wrong with
a negative cost and rules that come twice, the cost is reported; and where they come twice before a
rule that has its keyword under a tag, the work breaks down before their names are compared. -/
theorem compile_authored_and_built :
    let conditions : Value := .mapping [(.text "words", .sequence [.text "a"])]
    let exceptions : Value := .mapping [(.text "lists", .sequence [.text "L"])]
    let sources : List RuleSource :=
      [.authored ⟨"mark", "", some conditions, some exceptions, []⟩,
        .built ⟨"always", "", none, none, []⟩]
    let marked : Rule := ⟨"mark", "", .all [.any [Condition.inWords ["a"]],
      .not (.any [Condition.inList "L"])], []⟩
    let always : Rule := ⟨"always", "", .all [], []⟩
    let minusOne : Binary64 := ⟨0xBFF0000000000000⟩
    let tagged : RuleSource :=
      .authored ⟨"r", "", some (.mapping [(.tagged "t" (.text "all"), .sequence [])]), none, []⟩
    compile [] sources = .ok ⟨[marked, always], ∅, by decide⟩ ∧
      RuleSet.get? ⟨[marked, always], ∅, by decide⟩ "other" = none ∧
      compile [("in_list", minusOne)] (sources ++ sources) =
        .error (.reported (.badCost ⟨"in_list", minusOne⟩)) ∧
      compile [] (sources ++ sources ++ [tagged]) = .error .crash := by
  intro conditions exceptions sources marked always minusOne tagged
  have hset : compile [] sources = .ok ⟨[marked, always], ∅, by decide⟩ := by cbv
  have hother : ∀ source ∈ sources, source.name ≠ "other" := by
    simp [sources, RuleSource.name]
  have hcost : IsFirst (fun pair : String × Binary64 => pair.2.Refused) [("in_list", minusOne)]
      ("in_list", minusOne) := isFirst_cons_iff.2 (.inl ⟨.inr (by decide), rfl⟩)
  have hbreaks : tagged.BreaksDown := .authored (RuleSpec.draft_eq_crash_iff.1 (by cbv))
  have hfirst : IsFirst (fun source => ¬ source.Legal) (sources ++ sources ++ [tagged]) tagged := by
    refine ⟨sources ++ sources, [], rfl, fun hlegal => ?_, fun source hmem => not_not_intro ?_⟩
    · exact RuleSource.legal_iff.1 hlegal ⟨_, RuleSource.faulty_crash_iff.2 hbreaks⟩
    · exact ((compile_exact [] sources).1.1 ⟨_, hset⟩).2.1 source (by simpa using hmem)
  exact ⟨hset, (((compile_exact [] sources).2.1 _ hset).2.2 "other").2 hother,
    ((compile_exact _ _).2.2.1 _).2 (.cost hcost),
    (compile_exact [] _).2.2.2.1.2 ⟨by simp, tagged, hfirst, hbreaks⟩⟩

/-- A rule whose condition has its keyword under a tag is neither compiled nor refused, though it is
compiled without the tag. -/
theorem compile_of_tagged_keyword :
    let source (key : Value) : RuleSource :=
      .authored ⟨"r", "", some (.mapping [(key, .text "f")]), none, []⟩
    let tagged := source (.tagged "t" (.text "function"))
    compile [] [tagged] = .error .crash ∧
      (¬ ∃ set, compile [] [tagged] = .ok set) ∧
      (¬ ∃ e, compile [] [tagged] = .error (.reported e)) ∧
      ∃ set, compile [] [source (.text "function")] = .ok set := by
  intro source tagged
  have hcrash : compile [] [tagged] = .error .crash := by cbv
  have hplain : ∃ set, compile [] [source (.text "function")] = .ok set := ⟨_, by cbv⟩
  refine ⟨hcrash, ?_, ?_, hplain⟩
  · rintro ⟨set, hset⟩
    cases hcrash.symm.trans hset
  · rintro ⟨e, he⟩
    cases hcrash.symm.trans he

end TokenRules.Authoring
