import Mathlib.Data.List.Forall2
import Mathlib.Data.List.Nodup
import TokenRules.Proofs.Expansion

/-!
# Sources of a rule set

Costs and sources of rules, authored or built, are compiled in three steps: the costs
are declared, the blocks of authored sources are turned into conditions, and the names
are compared.  Each step stops at the first thing that is wrong (`IsFirst`), and a step
is taken only if nothing was wrong before, so how the work fails is fixed by the costs
and sources alone (`FailsWith`, `compile_eq_error_iff`).  A rule set has one rule for
each source, the one that the source `Declares` (`declares_of_compile`).
-/

namespace TokenRules

/-! ### Costs -/

/-- The number is no cost: it is a NaN or negative. -/
def Binary64.Refused (number : Binary64) : Prop :=
  number.isNaN = true ∨ number.below .zero = true

theorem Cost.ofNumber?_eq_none_iff {number : Binary64} :
    Cost.ofNumber? number = none ↔ number.Refused := by
  have hzero : Binary64.zero.isNaN = false ∧ Binary64.zero.place = 0 := by decide
  have hnone : Cost.ofNumber? number = none ↔ ¬ (number.isNaN = false ∧ 0 ≤ number.place) := by
    simp [Cost.ofNumber?]
  rw [hnone, Binary64.Refused, Binary64.below, hzero.1, hzero.2]
  cases number.isNaN <;> simp

namespace CostTable

theorem declare_of_refused {costs : CostTable} {function : String} {number : Binary64}
    (h : number.Refused) : costs.declare function number = .error ⟨function, number⟩ := by
  rw [declare, Cost.ofNumber?_eq_none_iff.2 h]

theorem exists_declare_of_not_refused (costs : CostTable) (function : String) {number : Binary64}
    (h : ¬ number.Refused) : ∃ after, costs.declare function number = .ok after := by
  cases hcost : Cost.ofNumber? number with
  | none => exact absurd (Cost.ofNumber?_eq_none_iff.1 hcost) h
  | some cost => exact ⟨costs.insert function cost, by rw [declare, hcost]⟩

theorem foldlM_declare_eq_error_iff {costs : CostTable} {pairs : List (String × Binary64)}
    {e : CostError} :
    pairs.foldlM (fun costs pair => costs.declare pair.1 pair.2) costs = .error e ↔
      IsFirst (fun pair => pair.2.Refused) pairs (e.function, e.number) := by
  induction pairs generalizing costs with
  | nil => exact ⟨fun h => (nomatch h), fun h => absurd h not_isFirst_nil⟩
  | cons pair rest ih =>
    rw [List.foldlM_cons, isFirst_cons_iff]
    by_cases hpair : pair.2.Refused
    · rw [declare_of_refused hpair]
      constructor
      · intro h
        cases h
        exact .inl ⟨hpair, rfl⟩
      · rintro (⟨-, rfl⟩ | ⟨hnot, -⟩)
        · rfl
        · exact absurd hpair hnot
    · obtain ⟨after, hafter⟩ := costs.exists_declare_of_not_refused pair.1 hpair
      rw [hafter]
      exact ih.trans ⟨fun h => .inr ⟨hpair, h⟩, fun h => (h.resolve_left fun h => hpair h.1).2⟩

theorem ofPairs_eq_error_iff {pairs : List (String × Binary64)} {e : CostError} :
    ofPairs pairs = .error e ↔
      IsFirst (fun pair => pair.2.Refused) pairs (e.function, e.number) :=
  foldlM_declare_eq_error_iff

end CostTable

/-! ### Rules by name -/

namespace RuleSet

variable {set : RuleSet} {name : String}

/-- A rule is found by its name, since no other rule of the set has it. -/
theorem get?_eq_some_iff {rule : Rule} :
    set.get? name = some rule ↔ rule ∈ set.rules ∧ rule.name = name := by
  constructor
  · intro h
    exact ⟨List.mem_of_find?_eq_some h, by simpa using List.find?_some h⟩
  · rintro ⟨hmem, rfl⟩
    cases h : set.get? rule.name with
    | none =>
      have hnot := List.find?_eq_none.1 h rule hmem
      simp at hnot
    | some other =>
      have hname : other.name = rule.name := by simpa using List.find?_some h
      rw [List.inj_on_of_nodup_map set.distinct (List.mem_of_find?_eq_some h) hmem hname]

theorem get?_eq_none_iff : set.get? name = none ↔ ∀ rule ∈ set.rules, rule.name ≠ name := by
  simp [get?, List.find?_eq_none]

end RuleSet

/-! ### Names -/

namespace Authoring

open Yaml (Value)

/-- The first name that is repeated stands behind names that are distinct and new. -/
theorem firstRepeated_eq_some_iff {seen names : List String} {name : String} :
    firstRepeated seen names = some name ↔ ∃ before after, names = before ++ name :: after ∧
      before.Nodup ∧ (∀ earlier ∈ before, earlier ∉ seen) ∧ (name ∈ before ∨ name ∈ seen) := by
  induction names generalizing seen with
  | nil => simp [firstRepeated]
  | cons head rest ih =>
    rw [firstRepeated]
    split
    · rename_i hhead
      constructor
      · intro h
        cases h
        exact ⟨[], rest, rfl, .nil, fun _ h => absurd h List.not_mem_nil, .inr hhead⟩
      · rintro ⟨_ | ⟨first, before⟩, after, heq, -, hnew, -⟩
        · cases heq
          rfl
        · cases heq
          exact absurd hhead (hnew head List.mem_cons_self)
    · rename_i hhead
      rw [ih]
      constructor
      · rintro ⟨before, after, rfl, hnodup, hnew, hname⟩
        have hnot : head ∉ before := fun h => hnew head h List.mem_cons_self
        refine ⟨head :: before, after, rfl, List.nodup_cons.2 ⟨hnot, hnodup⟩, ?_, ?_⟩
        · exact List.forall_mem_cons.2 ⟨hhead, fun earlier h hseen =>
            hnew earlier h (List.mem_cons_of_mem _ hseen)⟩
        · rcases hname with hname | hname
          · exact .inl (List.mem_cons_of_mem _ hname)
          · rcases List.mem_cons.1 hname with rfl | hname
            · exact .inl List.mem_cons_self
            · exact .inr hname
      · rintro ⟨_ | ⟨first, before⟩, after, heq, hnodup, hnew, hname⟩
        · cases heq
          exact absurd (hname.resolve_left List.not_mem_nil) hhead
        · cases heq
          obtain ⟨hnot, hnodup⟩ := List.nodup_cons.1 hnodup
          obtain ⟨-, hnew⟩ := List.forall_mem_cons.1 hnew
          refine ⟨before, after, rfl, hnodup, fun earlier h hseen => ?_, ?_⟩
          · rcases List.mem_cons.1 hseen with rfl | hseen
            · exact hnot h
            · exact hnew earlier h hseen
          · rcases hname with hname | hname
            · rcases List.mem_cons.1 hname with rfl | hname
              · exact .inr List.mem_cons_self
              · exact .inl hname
            · exact .inr (List.mem_cons_of_mem _ hname)

/-! ### Sources -/

namespace RuleSource

def name : RuleSource → String
  | .authored spec => spec.name
  | .built draft => draft.name

def description : RuleSource → String
  | .authored spec => spec.description
  | .built draft => draft.description

def actions : RuleSource → List Call
  | .authored spec => spec.actions
  | .built draft => draft.actions

/-- The conditions and the exceptions of a source: as they were built, or what its blocks mean. -/
inductive Blocks : RuleSource → Option Condition → Option Condition → Prop
  | built (draft : RuleDraft) : Blocks (.built draft) draft.conditions draft.exceptions
  | authored {spec : RuleSpec} {conditions exceptions : Option Condition}
      (hconditions : normalizeBlock .conditions spec.conditions = .ok conditions)
      (hexceptions : normalizeBlock .exceptions spec.exceptions = .ok exceptions) :
      Blocks (.authored spec) conditions exceptions

/-- How the blocks of a source fail; its conditions come before its exceptions. -/
inductive Faulty : RuleSource → Failure CompileError → Prop
  | conditions {spec : RuleSpec} {e : NodeError}
      (h : normalizeBlock .conditions spec.conditions = .error e) :
      Faulty (.authored spec) (CompileError.ofNodeError spec.name .conditions e)
  | exceptions {spec : RuleSpec} {conditions : Option Condition} {e : NodeError}
      (hconditions : normalizeBlock .conditions spec.conditions = .ok conditions)
      (h : normalizeBlock .exceptions spec.exceptions = .error e) :
      Faulty (.authored spec) (CompileError.ofNodeError spec.name .exceptions e)

theorem draft_authored (spec : RuleSpec) :
    RuleSource.draft (.authored spec) =
      match normalizeBlock .conditions spec.conditions with
      | .error e => .error (CompileError.ofNodeError spec.name .conditions e)
      | .ok conditions =>
        match normalizeBlock .exceptions spec.exceptions with
        | .error e => .error (CompileError.ofNodeError spec.name .exceptions e)
        | .ok exceptions =>
          .ok ⟨spec.name, spec.description, conditions, exceptions, spec.actions⟩ := by
  rw [draft, RuleSpec.draft, RuleSpec.block, RuleSpec.block]
  cases normalizeBlock .conditions spec.conditions with
  | error e => rfl
  | ok conditions => cases normalizeBlock .exceptions spec.exceptions <;> rfl

theorem draft_eq_ok_iff {source : RuleSource} {draft : RuleDraft} :
    source.draft = .ok draft ↔ ∃ conditions exceptions, source.Blocks conditions exceptions ∧
      draft = ⟨source.name, source.description, conditions, exceptions, source.actions⟩ := by
  constructor
  · intro h
    cases source with
    | built built =>
      cases h
      exact ⟨_, _, .built draft, rfl⟩
    | authored spec =>
      obtain ⟨conditions, exceptions, hconditions, hexceptions, rfl⟩ := RuleSpec.exists_of_draft h
      exact ⟨conditions, exceptions, .authored hconditions hexceptions, rfl⟩
  · rintro ⟨conditions, exceptions, hblocks, rfl⟩
    cases hblocks with
    | built draft => rfl
    | authored hconditions hexceptions =>
      rw [draft_authored, hconditions, hexceptions]
      rfl

theorem draft_eq_error_iff {source : RuleSource} {failure : Failure CompileError} :
    source.draft = .error failure ↔ source.Faulty failure := by
  constructor
  · intro h
    cases source with
    | built draft => cases h
    | authored spec =>
      rw [draft_authored] at h
      split at h
      · cases h
        exact .conditions ‹_›
      · split at h
        · cases h
          exact .exceptions ‹_› ‹_›
        · cases h
  · intro h
    cases h with
    | conditions h => rw [draft_authored, h]
    | exceptions hconditions h => rw [draft_authored, hconditions, h]

/-- All blocks of the source, if it is an authored one, have a meaning. -/
def Legal (source : RuleSource) : Prop :=
  ∃ conditions exceptions, source.Blocks conditions exceptions

theorem legal_iff {source : RuleSource} : source.Legal ↔ ¬ ∃ e, source.Faulty e := by
  simp only [← draft_eq_error_iff]
  constructor
  · rintro ⟨conditions, exceptions, hblocks⟩ ⟨e, he⟩
    rw [draft_eq_ok_iff.2 ⟨conditions, exceptions, hblocks, rfl⟩] at he
    cases he
  · intro h
    cases hdraft : source.draft with
    | error e => exact absurd ⟨e, hdraft⟩ h
    | ok draft =>
      obtain ⟨conditions, exceptions, hblocks, -⟩ := draft_eq_ok_iff.1 hdraft
      exact ⟨conditions, exceptions, hblocks⟩

/-- How the conditions and the exceptions of a rule make one condition. -/
inductive Guarded : Option Condition → Option Condition → Condition → Prop
  | neither : Guarded none none (.all [])
  | conditions (condition : Condition) : Guarded (some condition) none condition
  | exceptions (exception : Condition) :
      Guarded none (some exception) (.all [.all [], .not exception])
  | both (condition exception : Condition) :
      Guarded (some condition) (some exception) (.all [condition, .not exception])

theorem guarded_condition (draft : RuleDraft) :
    Guarded draft.conditions draft.exceptions draft.condition := by
  obtain ⟨name, description, conditions, exceptions, actions⟩ := draft
  cases conditions with
  | none =>
    cases exceptions with
    | none => exact .neither
    | some exception => exact .exceptions exception
  | some condition =>
    cases exceptions with
    | none => exact .conditions condition
    | some exception => exact .both condition exception

/-- The rule is the one that the source declares. -/
structure Declares (source : RuleSource) (rule : Rule) : Prop where
  name : rule.name = source.name
  description : rule.description = source.description
  actions : rule.actions = source.actions
  condition : ∃ conditions exceptions, source.Blocks conditions exceptions ∧
    Guarded conditions exceptions rule.condition

theorem declares_of_draft {source : RuleSource} {draft : RuleDraft}
    (h : source.draft = .ok draft) : source.Declares draft.rule := by
  obtain ⟨conditions, exceptions, hblocks, rfl⟩ := draft_eq_ok_iff.1 h
  exact ⟨rfl, rfl, rfl, conditions, exceptions, hblocks,
    guarded_condition ⟨source.name, source.description, conditions, exceptions, source.actions⟩⟩

end RuleSource

/-! ### Compilation -/

section Compile

variable {costs : List (String × Binary64)} {sources : List RuleSource}

theorem exists_ofPairs_iff :
    (∃ table, CostTable.ofPairs costs = .ok table) ↔ ∀ pair ∈ costs, ¬ pair.2.Refused := by
  rw [exists_eq_ok_iff, ← not_exists_isFirst_iff, not_iff_not]
  constructor
  · rintro ⟨e, he⟩
    exact ⟨_, CostTable.ofPairs_eq_error_iff.1 he⟩
  · rintro ⟨⟨function, number⟩, h⟩
    exact ⟨⟨function, number⟩, CostTable.ofPairs_eq_error_iff.2 h⟩

theorem drafts_eq_error_iff {failure : Failure CompileError} :
    sources.mapM RuleSource.draft = .error failure ↔
      ∃ source, IsFirst (fun source => ∃ e, source.Faulty e) sources source ∧
        source.Faulty failure := by
  simp only [mapM_eq_error_iff_isFirst, RuleSource.draft_eq_error_iff]

theorem exists_drafts_iff :
    (∃ drafts, sources.mapM RuleSource.draft = .ok drafts) ↔ ∀ source ∈ sources, source.Legal := by
  simp only [RuleSource.legal_iff]
  rw [exists_eq_ok_iff, ← not_exists_isFirst_iff, not_iff_not]
  constructor
  · rintro ⟨e, he⟩
    obtain ⟨source, hfirst, -⟩ := drafts_eq_error_iff.1 he
    exact ⟨source, hfirst⟩
  · rintro ⟨source, before, after, heq, ⟨e, he⟩, hbefore⟩
    exact ⟨e, drafts_eq_error_iff.2 ⟨source, ⟨before, after, heq, ⟨e, he⟩, hbefore⟩, he⟩⟩

theorem declares_of_drafts {drafts : List RuleDraft}
    (h : sources.mapM RuleSource.draft = .ok drafts) :
    List.Forall₂ RuleSource.Declares sources (drafts.map RuleDraft.rule) :=
  List.forall₂_map_right_iff.2 <|
    (forall₂_of_mapM_eq_ok h).imp fun _ _ => RuleSource.declares_of_draft

theorem names_of_declares {rules : List Rule} (h : List.Forall₂ RuleSource.Declares sources rules) :
    rules.map (·.name) = sources.map RuleSource.name := by
  induction h with
  | nil => rfl
  | cons hdeclares _ ih => rw [List.map_cons, List.map_cons, hdeclares.name, ih]

/-- The first name that is repeated stands behind distinct names, and it is one of them. -/
def FirstRepeated (names : List String) (name : String) : Prop :=
  ∃ before after, names = before ++ name :: after ∧ before.Nodup ∧ name ∈ before

theorem firstRepeated_nil_eq_some_iff {names : List String} {name : String} :
    firstRepeated [] names = some name ↔ FirstRepeated names name := by
  simp [firstRepeated_eq_some_iff, FirstRepeated]

theorem firstRepeated_eq_none_iff {names : List String} :
    firstRepeated [] names = none ↔ names.Nodup := by
  refine ⟨fun h => (nodup_of_firstRepeated_eq_none h).1, fun h => ?_⟩
  cases hname : firstRepeated [] names with
  | none => rfl
  | some name =>
    obtain ⟨before, after, rfl, -, hmem⟩ := firstRepeated_nil_eq_some_iff.1 hname
    exact absurd hmem fun hmem => (List.nodup_append.1 h).2.2 name hmem name List.mem_cons_self rfl

/-- How costs and sources fail to make a rule set: the first cost that is none is reported, or else
the first source that is not legal fails, or else the first name that comes again is reported. -/
inductive FailsWith (costs : List (String × Binary64)) (sources : List RuleSource) :
    Failure CompileError → Prop
  | cost {function : String} {number : Binary64}
      (h : IsFirst (fun pair => pair.2.Refused) costs (function, number)) :
      FailsWith costs sources (.reported (.badCost ⟨function, number⟩))
  | block {source : RuleSource} {failure : Failure CompileError}
      (hcosts : ∀ pair ∈ costs, ¬ pair.2.Refused)
      (h : IsFirst (fun source => ∃ e, source.Faulty e) sources source)
      (he : source.Faulty failure) : FailsWith costs sources failure
  | name {name : String} (hcosts : ∀ pair ∈ costs, ¬ pair.2.Refused)
      (hsources : ∀ source ∈ sources, source.Legal)
      (h : FirstRepeated (sources.map RuleSource.name) name) :
      FailsWith costs sources (.reported (.duplicateRule name))

theorem failsWith_of_compile {failure : Failure CompileError}
    (h : compile costs sources = .error failure) : FailsWith costs sources failure := by
  unfold compile at h
  split at h
  · rename_i bad hcosts
    cases h
    exact .cost (CostTable.ofPairs_eq_error_iff.1 hcosts)
  · rename_i table hcosts
    have hgood := exists_ofPairs_iff.1 ⟨table, hcosts⟩
    split at h
    · rename_i fault hdrafts
      cases h
      obtain ⟨source, hfirst, he⟩ := drafts_eq_error_iff.1 hdrafts
      exact .block hgood hfirst he
    · rename_i drafts hdrafts
      dsimp only at h
      split at h
      · rename_i name hname
        cases h
        rw [names_of_declares (declares_of_drafts hdrafts), firstRepeated_nil_eq_some_iff] at hname
        exact .name hgood (exists_drafts_iff.1 ⟨drafts, hdrafts⟩) hname
      · cases h

theorem compile_of_failsWith {failure : Failure CompileError}
    (h : FailsWith costs sources failure) : compile costs sources = .error failure := by
  cases h with
  | @cost function number h =>
    have hbad : CostTable.ofPairs costs = .error ⟨function, number⟩ :=
      CostTable.ofPairs_eq_error_iff.2 h
    rw [compile, hbad]
  | block hgood h he =>
    obtain ⟨table, hcosts⟩ := exists_ofPairs_iff.2 hgood
    rw [compile, hcosts]
    simp only [drafts_eq_error_iff.2 ⟨_, h, he⟩]
  | name hgood hlegal h =>
    obtain ⟨table, hcosts⟩ := exists_ofPairs_iff.2 hgood
    obtain ⟨drafts, hdrafts⟩ := exists_drafts_iff.2 hlegal
    have hname := firstRepeated_nil_eq_some_iff.2 h
    rw [← names_of_declares (declares_of_drafts hdrafts)] at hname
    rw [compile, hcosts]
    simp only [hdrafts]
    split
    · rename_i other hother
      cases hname.symm.trans hother
      rfl
    · rename_i hnone
      cases hname.symm.trans hnone

/-- **What makes no rule set fails in one way**, which costs and sources determine. -/
theorem compile_eq_error_iff {failure : Failure CompileError} :
    compile costs sources = .error failure ↔ FailsWith costs sources failure :=
  ⟨failsWith_of_compile, compile_of_failsWith⟩

theorem not_exists_failsWith_iff :
    (¬ ∃ e, FailsWith costs sources e) ↔ (∀ pair ∈ costs, ¬ pair.2.Refused) ∧
      (∀ source ∈ sources, source.Legal) ∧ (sources.map RuleSource.name).Nodup := by
  constructor
  · intro h
    have hgood : ∀ pair ∈ costs, ¬ pair.2.Refused :=
      not_exists_isFirst_iff.1 fun ⟨pair, hpair⟩ => h ⟨_, .cost hpair⟩
    have hlegal : ∀ source ∈ sources, source.Legal := by
      simp only [RuleSource.legal_iff]
      rw [← not_exists_isFirst_iff]
      rintro ⟨source, hfirst⟩
      obtain ⟨e, he⟩ := hfirst.holds
      exact h ⟨e, .block hgood hfirst he⟩
    refine ⟨hgood, hlegal, firstRepeated_eq_none_iff.1 ?_⟩
    cases hname : firstRepeated [] (sources.map RuleSource.name) with
    | none => rfl
    | some name =>
      exact absurd ⟨_, .name hgood hlegal (firstRepeated_nil_eq_some_iff.1 hname)⟩ h
  · rintro ⟨hgood, hlegal, hnodup⟩ ⟨e, he⟩
    cases he with
    | cost h => exact not_exists_isFirst_iff.2 hgood ⟨_, h⟩
    | block _ h =>
      simp only [RuleSource.legal_iff] at hlegal
      exact not_exists_isFirst_iff.2 hlegal ⟨_, h⟩
    | name _ _ h =>
      have hname := firstRepeated_nil_eq_some_iff.2 h
      rw [firstRepeated_eq_none_iff.2 hnodup] at hname
      cases hname

theorem declares_of_compile {set : RuleSet} (h : compile costs sources = .ok set) :
    List.Forall₂ RuleSource.Declares sources set.rules := by
  unfold compile at h
  split at h
  · cases h
  · split at h
    · cases h
    · rename_i drafts hdrafts
      dsimp only at h
      split at h
      · cases h
      · cases h
        exact declares_of_drafts hdrafts

end Compile

end Authoring

end TokenRules
