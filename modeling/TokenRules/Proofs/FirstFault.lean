import TokenRules.Proofs.Paths
import TokenRules.Proofs.RoundTrip

/-!
# The first node that is not legal

The nodes of a block are visited from the outside in and in the order written (`visits`), each with
the steps that go to it.  What is wrong with a node is wrong with it alone (`faultOf?`): it has no
shape, or it is a call and its arguments cannot be decoded, or its keyword stands under a tag and
the work breaks down (`faultOf?_eq_crash_iff`).

Whether a node is turned into a condition depends on the nodes visited, and the error is that of the
first of them with which something is wrong (`failure?_normalize`).  The same holds of blocks and
of rules, of which the conditions are visited before the exceptions.  Main statement:
`draft_fails_at_first_fault`.
-/

namespace TokenRules.Authoring

open Yaml (Value)

/-! ### Visits -/

/-- A node that is visited, and the steps that go to it. -/
structure Visit where
  steps : List Step
  node : Value

/-- The same visit from one step further out. -/
def Visit.under (visit : Visit) (step : Step) : Visit := { visit with steps := step :: visit.steps }

/-- The nodes of an authored condition, itself first and then branch by branch. -/
def visits (node : Value) : List Visit :=
  ⟨[], node⟩ ::
    match h : Shape.recognize node with
    | .error _ => []
    | .ok shape =>
      shape.branches.attach.flatMap fun (branch : { branch // branch ∈ shape.branches }) =>
        have : sizeOf branch.1.2 < sizeOf node :=
          Shape.sizeOf_lt_of_recognize h (Shape.mem_parts_of_mem_branches branch.2)
        (visits branch.1.2).map (·.under branch.1.1)
termination_by sizeOf node

/-- The visits of some branches in order. -/
def branchVisits (branches : List (Step × Value)) : List Visit :=
  branches.flatMap fun branch => (visits branch.2).map (·.under branch.1)

/-- The visits of a node without the proofs that its branches are smaller. -/
theorem visits_eq (node : Value) :
    visits node = ⟨[], node⟩ ::
      match Shape.recognize node with
      | .error _ => []
      | .ok shape => branchVisits shape.branches := by
  rw [visits]
  congr 1
  split <;> rename_i hshape <;> simp only [hshape]
  rename_i shape
  conv_rhs => rw [branchVisits, ← List.attach_map_subtype_val shape.branches, List.flatMap_map]

/-- A visit of some branches is one of a branch, from one step further out. -/
theorem exists_of_mem_branchVisits {branches : List (Step × Value)} {visit : Visit}
    (h : visit ∈ branchVisits branches) :
    ∃ branch ∈ branches, ∃ inner ∈ visits branch.2, visit = inner.under branch.1 := by
  obtain ⟨branch, hbranch, hvisit⟩ := List.mem_flatMap.1 h
  obtain ⟨inner, hinner, rfl⟩ := List.mem_map.1 hvisit
  exact ⟨branch, hbranch, inner, hinner, rfl⟩

/-- A visit of a node is to the node itself, or it is one of the branches of its shape. -/
theorem eq_or_exists_of_mem_visits {node : Value} {visit : Visit} (h : visit ∈ visits node) :
    visit = ⟨[], node⟩ ∨
      ∃ shape, Shape.recognize node = .ok shape ∧ visit ∈ branchVisits shape.branches := by
  rw [visits_eq] at h
  refine (List.mem_cons.1 h).imp id fun hvisit => ?_
  cases hshape : Shape.recognize node with
  | error failure =>
    rw [hshape] at hvisit
    exact absurd hvisit List.not_mem_nil
  | ok shape =>
    rw [hshape] at hvisit
    exact ⟨shape, rfl, hvisit⟩

theorem follow?_of_mem_branchVisits {node : Value} {branches : List (Step × Value)}
    (hinto : ∀ branch ∈ branches, branch.1.into? node = some branch.2)
    (h : ∀ branch ∈ branches, ∀ visit ∈ visits branch.2,
      follow? visit.steps branch.2 = some visit.node)
    {visit : Visit} (hvisit : visit ∈ branchVisits branches) :
    follow? visit.steps node = some visit.node := by
  obtain ⟨branch, hbranch, inner, hinner, rfl⟩ := exists_of_mem_branchVisits hvisit
  rw [Visit.under, follow?_cons, hinto branch hbranch]
  exact h branch hbranch inner hinner

/-- **The steps of a visit go to its node.** -/
theorem follow?_of_mem_visits (node : Value) :
    ∀ visit ∈ visits node, follow? visit.steps node = some visit.node := by
  induction node using Shape.node_induction with
  | step node ih =>
    intro visit hvisit
    rcases eq_or_exists_of_mem_visits hvisit with rfl | ⟨shape, hshape, hvisit⟩
    · rfl
    · exact follow?_of_mem_branchVisits (fun branch => Shape.into?_of_mem_branches hshape)
        (fun branch hbranch => ih shape hshape _ (Shape.mem_parts_of_mem_branches hbranch)) hvisit

/-! ### Faults -/

/-- What is wrong with a shape alone, whatever is wrong with its branches. -/
def Shape.fault? : Shape → Option (Failure NodeFault)
  | .call _ (some args) =>
    match decodeArguments args with
    | .ok _ => none
    | .error reason => some (.reported (.invalidArguments reason))
  | _ => none

/-- What is wrong with a node alone. -/
def faultOf? (node : Value) : Option (Failure NodeFault) :=
  match Shape.recognize node with
  | .error failure => some (failure.map (.unsupported · node))
  | .ok shape => shape.fault?

/-- Nothing is wrong with the node alone: it has a shape, and its arguments can be decoded if it is
a call that has any. -/
def Faultless (node : Value) : Prop :=
  ∃ shape, Shape.recognize node = .ok shape ∧ ∀ function args,
    shape = .call function (some args) → ∃ arguments, decodeArguments args = .ok arguments

theorem faultOf?_eq_none_iff {node : Value} : faultOf? node = none ↔ Faultless node := by
  unfold faultOf? Faultless
  cases hshape : Shape.recognize node with
  | error reason => simp
  | ok shape =>
    cases shape with
    | call function args =>
      cases args with
      | none => simp [Shape.fault?]
      | some args => cases hargs : decodeArguments args <;> simp [Shape.fault?, hargs]
    | not | all | any | lists | words => simp [Shape.fault?]

/-- **The work breaks down at a node if its keyword stands under a tag, and at no other.** -/
theorem faultOf?_eq_crash_iff {node : Value} :
    faultOf? node = some .crash ↔ Shape.TaggedKeyword node := by
  rw [← Shape.recognize_eq_crash_iff, faultOf?]
  cases Shape.recognize node with
  | error failure => simp [Failure.map_eq_crash_iff]
  | ok shape =>
    have hshape : shape.fault? ≠ some .crash := by
      fun_cases Shape.fault? shape <;> nofun
    simp [hshape]

/-- The error of a node with which something is wrong. -/
def Visit.error? (visit : Visit) : Option NodeError :=
  (faultOf? visit.node).map (⟨visit.steps, ·⟩)

theorem Visit.error?_under (visit : Visit) (step : Step) :
    (visit.under step).error? = visit.error?.map (·.under step) := by
  rw [error?, error?, Option.map_map]
  rfl

theorem findSome?_under (step : Step) (found : List Visit) :
    (found.map (·.under step)).findSome? Visit.error? =
      (found.findSome? Visit.error?).map (·.under step) := by
  rw [List.findSome?_map, List.map_findSome?]
  exact congrArg (List.findSome? · found) (funext fun visit => visit.error?_under step)

/-! ### Errors of normalization -/

/-- The error, if there is one. -/
def failure? {ε α : Type} : Except ε α → Option ε
  | .ok _ => none
  | .error e => some e

theorem failure?_eq_some_iff {ε α : Type} {x : Except ε α} {e : ε} :
    failure? x = some e ↔ x = .error e := by
  cases x <;> simp [failure?]

theorem failure?_eq_none_iff {ε α : Type} {x : Except ε α} :
    failure? x = none ↔ ∃ a, x = .ok a := by
  cases x <;> simp [failure?]

theorem failure?_map {ε α β : Type} (f : α → β) (x : Except ε α) :
    failure? (x.map f) = failure? x := by
  cases x <;> rfl

theorem failure?_mapError {ε ε' α : Type} (f : ε → ε') (x : Except ε α) :
    failure? (x.mapError f) = (failure? x).map f := by
  cases x <;> rfl

/-- Items in turn: the error of the first part to fail. -/
theorem failure?_eachFrom {step : Nat → Step} {items : List Value}
    (h : ∀ item ∈ items, failure? (normalize item) = (visits item).findSome? Visit.error?)
    (index : Nat) :
    failure? (eachFrom step normalize index items) =
      (branchVisits ((items.zipIdx index).map fun item => (step item.2, item.1))).findSome?
        Visit.error? := by
  induction items generalizing index with
  | nil => rfl
  | cons item rest ih =>
    obtain ⟨hitem, hrest⟩ := List.forall_mem_cons.1 h
    rw [List.zipIdx_cons, List.map_cons, branchVisits, List.flatMap_cons, List.findSome?_append,
      findSome?_under, ← hitem, eachFrom]
    cases normalize item with
    | error e => rfl
    | ok condition => exact (failure?_map _ _).trans (ih hrest (index + 1))

theorem Shape.failure?_expand (shape : Shape)
    (h : ∀ part ∈ shape.parts,
      failure? (normalize part) = (visits part).findSome? Visit.error?) :
    failure? shape.expand =
      (shape.fault?.map (⟨[], ·⟩)).or ((branchVisits shape.branches).findSome? Visit.error?) := by
  cases shape with
  | call function args =>
    cases args with
    | none => rfl
    | some args =>
      rw [Shape.expand, failure?_map, failure?_mapError, Shape.fault?]
      cases decodeArguments args <;> rfl
  | not inner =>
    rw [Shape.expand, failure?_map, failure?_mapError, h inner List.mem_cons_self, branches,
      branchVisits, List.flatMap_singleton, findSome?_under]
    rfl
  | all nodes | any nodes => exact (failure?_map _ _).trans (failure?_eachFrom h 0)
  | lists names | words texts => rfl

/-- **A node fails at the first of its nodes with which something is wrong.** -/
theorem failure?_normalize (node : Value) :
    failure? (normalize node) = (visits node).findSome? Visit.error? := by
  induction node using Shape.node_induction with
  | step node ih =>
    rw [normalize_eq, visits_eq, List.findSome?_cons, Visit.error?, faultOf?]
    cases hshape : Shape.recognize node with
    | error reason => rfl
    | ok shape =>
      dsimp only
      rw [shape.failure?_expand (ih shape hshape)]
      cases shape.fault? <;> rfl

/-! ### Blocks and rules -/

/-- The nodes of a block: of its items in turn where a sequence means all of them. -/
def blockVisits (block : Block) : Option Value → List Visit
  | none => []
  | some .null => []
  | some (.mapping []) => []
  | some (.sequence []) => []
  | some (.sequence (item :: items)) =>
    if block = .conditions then
      branchVisits ((item :: items).zipIdx.map fun item => (.item item.2, item.1))
    else visits (.sequence (item :: items))
  | some node => visits node

theorem follow?_of_mem_blockVisits {block : Block} {value : Option Value} {visit : Visit}
    (h : visit ∈ blockVisits block value) :
    ∃ node, value = some node ∧ follow? visit.steps node = some visit.node := by
  fun_cases blockVisits block value with
  | case1 | case2 | case3 | case4 => exact absurd h List.not_mem_nil
  | case5 item items hblock =>
    rw [blockVisits, if_pos hblock] at h
    refine ⟨_, rfl, follow?_of_mem_branchVisits (fun branch hbranch => ?_)
      (fun branch _ => follow?_of_mem_visits branch.2) h⟩
    obtain ⟨item, hitem, rfl⟩ := List.mem_map.1 hbranch
    exact List.mem_zipIdx_iff_getElem?.1 hitem
  | case6 item items hblock =>
    rw [blockVisits, if_neg hblock] at h
    exact ⟨_, rfl, follow?_of_mem_visits _ visit h⟩
  | case7 node hnull hmapping hsequence hitems =>
    rw [blockVisits] at h
    · exact ⟨_, rfl, follow?_of_mem_visits _ visit h⟩
    all_goals assumption

theorem failure?_normalizeBlock (block : Block) (value : Option Value) :
    failure? (normalizeBlock block value) = (blockVisits block value).findSome? Visit.error? := by
  fun_cases normalizeBlock block value with
  | case1 | case2 | case3 | case4 => rfl
  | case5 item items hblock =>
    rw [blockVisits, if_pos hblock]
    exact (failure?_map _ _).trans (failure?_eachFrom (fun node _ => failure?_normalize node) 0)
  | case6 item items hblock =>
    rw [blockVisits, if_neg hblock]
    exact (failure?_map _ _).trans (failure?_normalize _)
  | case7 node hnull hmapping hsequence hitems =>
    rw [blockVisits]
    · exact (failure?_map _ _).trans (failure?_normalize _)
    all_goals assumption

/-- The nodes of a rule, of its conditions and then of its exceptions. -/
def RuleSpec.visits (spec : RuleSpec) : List (Block × Visit) :=
  [Block.conditions, .exceptions].flatMap fun block =>
    (blockVisits block (spec.given block)).map (block, ·)

/-- The failure of a rule with one of whose nodes something is wrong. -/
def RuleSpec.failureAt? (spec : RuleSpec) (visit : Block × Visit) : Option (Failure CompileError) :=
  visit.2.error?.map (CompileError.ofNodeError spec.name visit.1)

theorem RuleSpec.failure?_draft (spec : RuleSpec) :
    failure? spec.draft = spec.visits.findSome? spec.failureAt? := by
  have hblock (block : Block) :
      ((blockVisits block (spec.given block)).map (block, ·)).findSome? spec.failureAt? =
        (failure? (normalizeBlock block (spec.given block))).map
          (CompileError.ofNodeError spec.name block) := by
    rw [failure?_normalizeBlock, List.map_findSome?, List.findSome?_map]
    rfl
  have hdraft := RuleSource.draft_authored spec
  rw [RuleSource.draft] at hdraft
  rw [visits, List.flatMap_cons, List.findSome?_append, List.flatMap_singleton, hblock, hblock,
    hdraft]
  cases hconditions : normalizeBlock .conditions spec.conditions with
  | error e => simp [failure?, given, hconditions]
  | ok conditions =>
    cases hexceptions : normalizeBlock .exceptions spec.exceptions <;>
      simp [failure?, given, hconditions, hexceptions]

/-! ### What is reported -/

theorem Shape.exists_given_of_recognize {node args : Value} {function : String}
    (h : recognize node = .ok (.call function (some args))) : ∃ given, args = .mapping given := by
  obtain ⟨entries, keyword, value, -, -, -, hshape⟩ := recognize_eq_ok_iff.1 h
  cases keyword with
  | function =>
    obtain ⟨_, args', -, hargs, hsame⟩ := hshape
    cases hsame
    unfold findArgs at hargs
    split at hargs <;> cases hargs
    exact ⟨_, rfl⟩
  | not => cases hshape
  | all | any | lists | words =>
    obtain ⟨_, -, hsame⟩ := hshape
    cases hsame

/-- The error names the rule, the way to the node and what is wrong with the node: it has no shape
for the reason given, and then it is shown, or it is a call with arguments that are not decoded, and
then the way ends with them. -/
inductive Blames (rule : String) (block : Block) (steps : List Step) (node : Value)
    (e : CompileError) : Prop
  | unsupported {reason : ShapeError}
      (shapeless : Shape.recognize node = .error (.reported reason))
      (error : e = .unsupportedNode rule block steps reason node)
      (message : e.message = "unsupported condition node at " ++ renderPath block steps ++
        " in rule '" ++ rule ++ "': " ++ reason.message ++ ": " ++ node.render)
  | invalidArguments {function : String} {given : List (Value × Value)} {reason : Mismatch}
      (call : Shape.recognize node = .ok (.call function (some (.mapping given))))
      (undecoded : decodeArguments (.mapping given) = .error reason)
      (error : e = .invalidArguments rule block steps reason)
      (message : e.message = "invalid arguments at " ++ (renderPath block steps ++ ".args") ++
        " in rule '" ++ rule ++ "': " ++ reason.message)

namespace RuleSpec

variable {spec : RuleSpec} {block : Block} {visit : Visit} {e : CompileError}

/-- The failure at a node is what is wrong with the node, said of the rule and the block. -/
theorem failureAt?_eq_some_iff {failure : Failure CompileError} :
    spec.failureAt? (block, visit) = some failure ↔ ∃ fault, faultOf? visit.node = some fault ∧
      CompileError.ofNodeError spec.name block ⟨visit.steps, fault⟩ = failure := by
  rw [failureAt?, Visit.error?, Option.map_map, Option.map_eq_some_iff]
  rfl

theorem blames_of_failureAt? (h : spec.failureAt? (block, visit) = some (.reported e)) :
    Blames spec.name block visit.steps visit.node e := by
  obtain ⟨fault, hfault, herror⟩ := failureAt?_eq_some_iff.1 h
  unfold faultOf? at hfault
  cases hshape : Shape.recognize visit.node with
  | error failure =>
    rw [hshape] at hfault
    cases hfault
    cases failure with
    | reported reason =>
      cases herror
      exact .unsupported hshape rfl rfl
    | crash => cases herror
  | ok shape =>
    rw [hshape] at hfault
    cases shape with
    | call function args =>
      cases args with
      | none => cases hfault
      | some args =>
        obtain ⟨given, rfl⟩ := Shape.exists_given_of_recognize hshape
        cases hargs : decodeArguments (.mapping given) with
        | ok arguments => simp [Shape.fault?, hargs] at hfault
        | error reason =>
          obtain rfl : .reported (.invalidArguments reason) = fault := by
            simpa [Shape.fault?, hargs] using hfault
          cases herror
          exact .invalidArguments hshape hargs rfl (message_invalidArguments ..)
    | not | all | any | lists | words => cases hfault

theorem failureAt?_eq_crash_iff :
    spec.failureAt? (block, visit) = some .crash ↔ Shape.TaggedKeyword visit.node := by
  rw [failureAt?_eq_some_iff, ← faultOf?_eq_crash_iff]
  simp [CompileError.ofNodeError, Failure.map_eq_crash_iff]

theorem failureAt?_eq_none_iff {visit : Block × Visit} :
    spec.failureAt? visit = none ↔ Faultless visit.2.node := by
  rw [failureAt?, Option.map_eq_none_iff, Visit.error?, Option.map_eq_none_iff,
    faultOf?_eq_none_iff]

/-- A rule is turned into a draft if and only if nothing is wrong with any of its nodes. -/
theorem exists_draft_iff : (∃ draft, spec.draft = .ok draft) ↔
    ∀ visit ∈ spec.visits, Faultless visit.2.node := by
  rw [← failure?_eq_none_iff, failure?_draft, List.findSome?_eq_none_iff]
  exact forall₂_congr fun visit _ => failureAt?_eq_none_iff

/-- A rule fails as the first of its nodes with which something is wrong. -/
theorem draft_eq_error_iff {failure : Failure CompileError} :
    spec.draft = .error failure ↔
      ∃ before visit after, spec.visits = before ++ visit :: after ∧
        (∀ earlier ∈ before, Faultless earlier.2.node) ∧ spec.failureAt? visit = some failure := by
  rw [← failure?_eq_some_iff, failure?_draft, List.findSome?_eq_some_iff]
  simp only [failureAt?_eq_none_iff]
  exact exists₃_congr fun _ _ _ => and_congr_right fun _ => and_comm

/-- The first node of the rule with which something is wrong has its keyword under a tag. -/
def BreaksDown (spec : RuleSpec) : Prop :=
  ∃ before visit after, spec.visits = before ++ visit :: after ∧
    (∀ earlier ∈ before, Faultless earlier.2.node) ∧ Shape.TaggedKeyword visit.2.node

theorem draft_eq_crash_iff : spec.draft = .error .crash ↔ spec.BreaksDown := by
  rw [draft_eq_error_iff]
  exact exists₃_congr fun _ _ _ => and_congr_right fun _ => and_congr_right fun _ =>
    failureAt?_eq_crash_iff

theorem mem_blockVisits_of_mem_visits (h : (block, visit) ∈ spec.visits) :
    visit ∈ blockVisits block (spec.given block) := by
  obtain ⟨other, -, hother⟩ := List.mem_flatMap.1 h
  obtain ⟨found, hfound, hsame⟩ := List.mem_map.1 hother
  cases hsame
  exact hfound

/-- The steps of a visit go from a block of the rule to the node. -/
theorem follow?_of_mem_visits (h : (block, visit) ∈ spec.visits) :
    ∃ value, spec.given block = some value ∧ follow? visit.steps value = some visit.node :=
  follow?_of_mem_blockVisits (mem_blockVisits_of_mem_visits h)

/-- The exceptions are looked at only if the conditions have a meaning. -/
theorem exists_conditions_of_failureAt? (h : spec.draft = .error (.reported e))
    (he : spec.failureAt? (.exceptions, visit) = some (.reported e)) :
    ∃ found, normalizeBlock .conditions spec.conditions = .ok found := by
  cases hconditions : normalizeBlock .conditions spec.conditions with
  | ok found => exact ⟨found, rfl⟩
  | error fault =>
    -- then the error would name the conditions
    have herror := h.symm.trans (RuleSource.draft_eq_error_iff.2 (.conditions hconditions))
    obtain ⟨steps, fault⟩ := fault
    cases blames_of_failureAt? he with
    | unsupported _ error | invalidArguments _ _ error =>
      subst error
      rcases fault with ⟨_ | _⟩ | _ <;> cases herror

/-- **A rule that is not turned into a draft is refused for the first of its nodes with which
something is wrong, and the path in the error leads there.**  The path is read as the block and the
steps that it was made of; followed from what is given for the block, they go to the node; and
nothing is wrong with any node that is visited before, from the outside in and in the order
written.  There is no error if that node has its keyword under a tag: there the work breaks down. -/
theorem draft_fails_at_first_fault (spec : RuleSpec) :
    ((∃ draft, spec.draft = .ok draft) ↔ ∀ visit ∈ spec.visits, Faultless visit.2.node) ∧
    (∀ e, spec.draft = .error (.reported e) → ∃ block steps node before after,
      spec.visits = before ++ (block, ⟨steps, node⟩) :: after ∧
      (∀ earlier ∈ before, Faultless earlier.2.node) ∧
      Blames spec.name block steps node e ∧
      readPath? (renderPath block steps) = some (block, steps) ∧
      (∃ value, spec.given block = some value ∧ follow? steps value = some node) ∧
      (block = .exceptions →
        ∃ found, normalizeBlock .conditions spec.conditions = .ok found)) ∧
    (spec.draft = .error .crash ↔ spec.BreaksDown) := by
  refine ⟨exists_draft_iff, fun e h => ?_, draft_eq_crash_iff⟩
  obtain ⟨before, ⟨block, visit⟩, after, hvisits, hbefore, he⟩ := draft_eq_error_iff.1 h
  refine ⟨block, visit.steps, visit.node, before, after, hvisits, hbefore, blames_of_failureAt? he,
    readPath?_renderPath block visit.steps, follow?_of_mem_visits (by simp [hvisits]), ?_⟩
  rintro rfl
  exact exists_conditions_of_failureAt? h he

/-- A group under a negation in the second condition of a rule has a key that is none.  It is the
last node visited, the two before it in the group and beside it being legal, and the exceptions,
which are not legal either, are not looked at. -/
theorem draft_of_unexpected_key :
    let call : Value := .mapping [(.text "function", .text "f")]
    let words : Value := .mapping [(.text "words", .sequence [.text "x"])]
    let foo : Value := .mapping [(.text "foo", .text "bar")]
    let group : Value := .mapping [(.text "any", .sequence [words, foo])]
    let negated : Value := .mapping [(.text "not", group)]
    let spec : RuleSpec := ⟨"r", "", some (.sequence [call, negated]), some (.text "e"), []⟩
    let steps : List Step := [.item 1, .not, .any 1]
    ∃ e, spec.draft = .error (.reported e) ∧ Blames "r" .conditions steps foo e ∧
      renderPath .conditions steps = "conditions[1].not.any[1]" ∧
      readPath? "conditions[1].not.any[1]" = some (.conditions, steps) ∧
      follow? steps (.sequence [call, negated]) = some foo ∧
      e.message = "unsupported condition node at conditions[1].not.any[1] in rule 'r': " ++
        "unexpected key 'foo': \x7bfoo: bar\x7d" := by
  intro call words foo group negated spec steps
  have hcall : Authoring.visits call = [⟨[], call⟩] := by rw [visits_eq]; rfl
  have hwords : Authoring.visits words = [⟨[], words⟩] := by rw [visits_eq]; rfl
  have hfoo : Authoring.visits foo = [⟨[], foo⟩] := by rw [visits_eq]; rfl
  have hgroup : Authoring.visits group = [⟨[], group⟩, ⟨[.any 0], words⟩, ⟨[.any 1], foo⟩] := by
    rw [visits_eq]
    show _ :: branchVisits [(.any 0, words), (.any 1, foo)] = _
    simp [branchVisits, hwords, hfoo, Visit.under]
  have hnegated : Authoring.visits negated = ⟨[], negated⟩ ::
      [⟨[.not], group⟩, ⟨[.not, .any 0], words⟩, ⟨[.not, .any 1], foo⟩] := by
    rw [visits_eq]
    show _ :: branchVisits [(.not, group)] = _
    simp [branchVisits, hgroup, Visit.under]
  have hconditions : blockVisits .conditions spec.conditions = [⟨[.item 0], call⟩,
      ⟨[.item 1], negated⟩, ⟨[.item 1, .not], group⟩, ⟨[.item 1, .not, .any 0], words⟩,
      ⟨steps, foo⟩] := by
    show branchVisits [(.item 0, call), (.item 1, negated)] = _
    simp [branchVisits, hcall, hnegated, Visit.under, steps]
  have hdraft : spec.draft =
      .error (.reported (.unsupportedNode "r" .conditions steps (.unexpectedKey "foo") foo)) := by
    rw [← failure?_eq_some_iff, failure?_draft, RuleSpec.visits, List.flatMap_cons, given,
      hconditions]
    rfl
  obtain ⟨block, steps', node, before, after, -, -, hblames, hread, ⟨value, hgiven, hfollow⟩, -⟩ :=
    (draft_fails_at_first_fault spec).2.1 _ hdraft
  obtain ⟨rfl, rfl, rfl⟩ : block = .conditions ∧ steps' = steps ∧ node = foo := by
    cases hblames with
    | unsupported _ error => cases error; exact ⟨rfl, rfl, rfl⟩
    | invalidArguments _ _ error => cases error
  obtain rfl : value = .sequence [call, negated] := (Option.some.inj hgiven).symm
  have hpath : renderPath .conditions steps = "conditions[1].not.any[1]" := by decide
  exact ⟨_, hdraft, hblames, hpath, hpath ▸ hread, hfollow, by decide⟩

end RuleSpec

end TokenRules.Authoring
