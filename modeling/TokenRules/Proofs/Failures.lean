import TokenRules.Proofs.Keeping
import TokenRules.Proofs.Performing
import TokenRules.Proofs.Sequences

/-!
# Failures in a pass over rules

A pass over rules stops at the first condition or action that fails and leaves what was
done until then; nothing is taken back and nothing comes after.  All of this holds
whatever actions do to the context, so the actions are performed here by any passes, of
which `dispatch` is one choice.

Where a rule `FailsAt` is its condition or one of its actions, and a pass `StopsAt` a
rule and this place in it.  There is one such place if the pass fails, and it tells what
is left (`applyAllBy_eq_error_iff`).  If the pass does not fail it `Completes`: it is
the `course` of a pass that is told beforehand which rules fire, and the actions it has
called can be read off (`acts_course`).  Main statement: `apply_stops_or_completes`.
-/

namespace TokenRules

/-! ### Failing and completing -/

/-- What fails where a rule is applied: its condition, or the action at some place. -/
inductive Fault
  | condition
  | action (place : Nat)
  deriving DecidableEq

namespace Evaluator

variable (evaluator : Evaluator) (perform : Call → Pass EvalError Unit)

/-- A pass over rules of which it is known which ones fire: every condition is evaluated, and the
actions are performed of those rules and of no others. -/
def course (fires : Rule → Bool) (rules : List Rule) : Pass EvalError Unit :=
  rules.foldlM (fun _ rule => do
    let _ ← evaluator.evaluate rule.condition
    rule.respond perform (fires rule)) ()

/-- Where a rule fails and what it leaves.  If the condition fails it has only consulted the
context; if an action fails, the condition was true and the actions before were performed. -/
inductive FailsAt (rule : Rule) (start : Context) :
    Fault → EvalError → Context → List Event → Prop
  | condition {last : Context} {e : EvalError} {events : List Event}
      (hcondition : evaluator.evaluate rule.condition start = ⟨.error e, last, events⟩)
      (hconsulted : start.Consulted last) :
      FailsAt rule start .condition e last events
  | action {place : Nat} {call : Call} {tested ready last : Context} {e : EvalError}
      {noted before later : List Event}
      (hcondition : evaluator.evaluate rule.condition start = ⟨.ok true, tested, noted⟩)
      (hconsulted : start.Consulted tested) (hcall : rule.actions[place]? = some call)
      (hbefore : performAll perform (rule.actions.take place) tested = ⟨.ok (), ready, before⟩)
      (hfails : perform call ready = ⟨.error e, last, later⟩) :
      FailsAt rule start (.action place) e last (noted ++ (before ++ later))

/-- Where a pass over rules fails and what it leaves: the rules before the place, taken by
themselves, succeed, and the rule at the place fails on what they leave. -/
inductive StopsAt (rules : List Rule) (start : Context) :
    Nat → Fault → EvalError → Context → List Event → Prop
  | intro {place : Nat} {rule : Rule} {fired : List String} {middle last : Context} {fault : Fault}
      {e : EvalError} {before later : List Event} (hrule : rules[place]? = some rule)
      (hbefore : applyAllBy evaluator.evaluate perform (rules.take place) start =
        ⟨.ok fired, middle, before⟩)
      (hfails : FailsAt evaluator perform rule middle fault e last later) :
      StopsAt rules start place fault e last (before ++ later)

/-- What a pass over rules does that ends well: the rules of which the names are listed are those
whose conditions were true when it was their turn, and it is the same as if that had been known. -/
structure Completes (rules : List Rule) (start : Context) (fired : List String) (last : Context)
    (events : List Event) : Prop where
  names : fired = (rules.filter (·.name ∈ fired)).map (·.name)
  conditions : ∀ place rule, rules[place]? = some rule → ∃ names middle before,
    applyAllBy evaluator.evaluate perform (rules.take place) start = ⟨.ok names, middle, before⟩ ∧
    (evaluator.evaluate rule.condition middle).result = .ok (decide (rule.name ∈ fired))
  course : evaluator.course perform (·.name ∈ fired) rules start = ⟨.ok (), last, events⟩

variable {evaluator perform} {rule : Rule} {rules : List Rule} {start last : Context}
  {e : EvalError} {events : List Event}

/-! ### Where a pass stops -/

theorem applyNoting_eq_error_iff {fired : List String} :
    Rule.applyNoting evaluator.evaluate perform fired rule start = ⟨.error e, last, events⟩ ↔
      rule.applyBy evaluator.evaluate perform start = ⟨.error e, last, events⟩ := by
  refine ⟨fun h => ?_, Pass.bind_eq_of_error⟩
  rcases Pass.exists_of_bind_eq_error h with hrule | ⟨fires, middle, before, later, -, hpure, -⟩
  · exact hrule
  · cases hpure

theorem exists_of_applyNoting {fired names : List String}
    (h : Rule.applyNoting evaluator.evaluate perform fired rule start = ⟨.ok names, last, events⟩) :
    ∃ fires, rule.applyBy evaluator.evaluate perform start = ⟨.ok fires, last, events⟩ ∧
      names = if fires then fired ++ [rule.name] else fired := by
  obtain ⟨fires, middle, before, later, hrule, hpure, rfl⟩ := Pass.exists_of_bind_eq_ok h
  cases hpure
  exact ⟨fires, by rw [hrule, List.append_nil], rfl⟩

theorem FailsAt.applyBy_eq {fault : Fault}
    (h : evaluator.FailsAt perform rule start fault e last events) :
    rule.applyBy evaluator.evaluate perform start = ⟨.error e, last, events⟩ := by
  cases h with
  | condition hcondition => exact Pass.bind_eq_of_error hcondition
  | action hcondition _ hcall hbefore hfails =>
    have hactions := (Pass.Stops.intro hcall hbefore hfails).foldlM_eq
    exact Pass.bind_eq_of_ok hcondition (Pass.bind_eq_of_error hactions)

theorem exists_failsAt
    (h : rule.applyBy evaluator.evaluate perform start = ⟨.error e, last, events⟩) :
    ∃ fault, evaluator.FailsAt perform rule start fault e last events := by
  have hconsulted := evaluator.consulted_evaluate rule.condition start
  rcases Pass.exists_of_bind_eq_error h with
    hcondition | ⟨fires, tested, noted, rest, hcondition, hrest, rfl⟩
  · rw [hcondition] at hconsulted
    exact ⟨.condition, .condition hcondition hconsulted⟩
  rw [hcondition] at hconsulted
  cases fires with
  | false => cases hrest
  | true =>
    rcases Pass.exists_of_bind_eq_error hrest with hactions | ⟨_, _, _, _, _, hpure, _⟩
    · obtain ⟨place, hcall, hbefore, hfails⟩ := Pass.exists_stops hactions
      exact ⟨.action place, .action hcondition hconsulted hcall hbefore hfails⟩
    · cases hpure

theorem FailsAt.fault_eq {fault other : Fault} {f : EvalError} {final : Context} {log : List Event}
    (h : evaluator.FailsAt perform rule start fault e last events)
    (hother : evaluator.FailsAt perform rule start other f final log) : fault = other := by
  cases h with
  | condition hcondition =>
    cases hother with
    | condition => rfl
    | action hcondition' =>
      rw [hcondition] at hcondition'
      cases hcondition'
  | action hcondition _ hcall hbefore hfails =>
    cases hother with
    | condition hcondition' =>
      rw [hcondition] at hcondition'
      cases hcondition'
    | action hcondition' _ hcall' hbefore' hfails' =>
      rw [hcondition] at hcondition'
      cases hcondition'
      have hstops := Pass.Stops.intro hcall hbefore hfails
      have hstops' := Pass.Stops.intro hcall' hbefore' hfails'
      rw [hstops.place_eq hstops']

theorem StopsAt.stops {place : Nat} {fault : Fault}
    (h : evaluator.StopsAt perform rules start place fault e last events) :
    Pass.Stops (Rule.applyNoting evaluator.evaluate perform) [] rules start place e last
      events := by
  obtain ⟨hrule, hbefore, hfails⟩ := h
  exact .intro hrule hbefore (applyNoting_eq_error_iff.2 hfails.applyBy_eq)

theorem StopsAt.fault_eq {place : Nat} {fault other : Fault} {f : EvalError} {final : Context}
    {log : List Event} (h : evaluator.StopsAt perform rules start place fault e last events)
    (hother : evaluator.StopsAt perform rules start place other f final log) : fault = other := by
  obtain ⟨hrule, hbefore, hfails⟩ := h
  obtain ⟨hrule', hbefore', hfails'⟩ := hother
  rw [hrule] at hrule'
  cases hrule'
  rw [hbefore] at hbefore'
  cases hbefore'
  exact hfails.fault_eq hfails'

/-- **A pass over rules fails if and only if it stops somewhere**, and then at one rule and for one
reason. -/
theorem applyAllBy_eq_error_iff :
    applyAllBy evaluator.evaluate perform rules start = ⟨.error e, last, events⟩ ↔
      ∃! stop : Nat × Fault,
        evaluator.StopsAt perform rules start stop.1 stop.2 e last events := by
  refine ⟨fun h => ?_, fun ⟨stop, hstop, _⟩ => hstop.stops.foldlM_eq⟩
  obtain ⟨place, hplace, hunique⟩ := Pass.existsUnique_stops h
  obtain ⟨fault, hstop⟩ : ∃ fault,
      evaluator.StopsAt perform rules start place fault e last events := by
    obtain ⟨hrule, hbefore, hfails⟩ := hplace
    obtain ⟨fault, hfault⟩ := exists_failsAt (applyNoting_eq_error_iff.1 hfails)
    exact ⟨fault, .intro hrule hbefore hfault⟩
  refine ⟨(place, fault), hstop, fun ⟨other, reason⟩ hother => ?_⟩
  obtain rfl : other = place := hunique other hother.stops
  rw [hstop.fault_eq hother]

/-! ### Passes that end well -/

theorem exists_of_applyBy {fires : Bool}
    (h : rule.applyBy evaluator.evaluate perform start = ⟨.ok fires, last, events⟩) :
    ∃ tested noted later,
      evaluator.evaluate rule.condition start = ⟨.ok fires, tested, noted⟩ ∧
      rule.respond perform fires tested = ⟨.ok (), last, later⟩ ∧ events = noted ++ later := by
  obtain ⟨answer, tested, noted, rest, hcondition, hrest, rfl⟩ := Pass.exists_of_bind_eq_ok h
  obtain ⟨_, ready, later, more, hactions, hpure, rfl⟩ := Pass.exists_of_bind_eq_ok hrest
  cases hpure
  exact ⟨tested, noted, later, hcondition, hactions, by rw [List.append_nil]⟩

theorem course_concat (fires : Rule → Bool) (rules : List Rule) (rule : Rule) :
    evaluator.course perform fires (rules ++ [rule]) =
      evaluator.course perform fires rules >>= fun _ =>
        evaluator.evaluate rule.condition >>= fun _ => rule.respond perform (fires rule) :=
  Pass.foldlM_concat rule

theorem course_congr {fires other : Rule → Bool} (h : ∀ rule ∈ rules, fires rule = other rule) :
    evaluator.course perform fires rules = evaluator.course perform other rules := by
  unfold course
  induction rules with
  | nil => rfl
  | cons rule rest ih =>
    obtain ⟨hrule, hrest⟩ := List.forall_mem_cons.1 h
    rw [List.foldlM_cons, List.foldlM_cons, hrule]
    exact bind_congr fun _ => ih hrest

/-- One more rule of a new name: it is listed if its condition is true, and what is listed of the
rules before stays as it was. -/
theorem Completes.concat {fired names : List String} {middle : Context} {before later : List Event}
    (h : evaluator.Completes perform rules start names middle before)
    (hrules : applyAllBy evaluator.evaluate perform rules start = ⟨.ok names, middle, before⟩)
    (hnew : ∀ other ∈ rules, other.name ≠ rule.name)
    (hrule : Rule.applyNoting evaluator.evaluate perform names rule middle =
      ⟨.ok fired, last, later⟩) :
    evaluator.Completes perform (rules ++ [rule]) start fired last (before ++ later) := by
  obtain ⟨fires, happly, hfired⟩ := exists_of_applyNoting hrule
  obtain ⟨tested, noted, done, hcondition, hactions, rfl⟩ := exists_of_applyBy happly
  have hlisted : rule.name ∉ names := by
    rw [h.names]
    intro hmem
    obtain ⟨other, hother, heq⟩ := List.mem_map.1 hmem
    exact hnew other (List.mem_filter.1 hother).1 heq
  have hlast : decide (rule.name ∈ fired) = fires := by
    rw [hfired]
    cases fires <;> simp [hlisted]
  have hearlier : ∀ other ∈ rules, decide (other.name ∈ fired) = decide (other.name ∈ names) := by
    intro other hother
    rw [hfired]
    cases fires <;> simp [hnew other hother]
  refine ⟨?_, fun place other hother => ?_, ?_⟩
  · rw [List.filter_append, List.map_append, List.filter_congr hearlier, ← h.names,
      List.filter_singleton, hlast, hfired]
    cases fires <;> simp
  · rw [List.getElem?_append] at hother
    split at hother
    · rename_i hlt
      rw [List.take_append_of_le_length (Nat.le_of_lt hlt),
        hearlier other (List.mem_of_getElem? hother)]
      exact h.conditions place other hother
    · rename_i hle
      obtain ⟨hplace, rfl⟩ : place - rules.length = 0 ∧ rule = other := by
        simpa [List.getElem?_singleton] using hother
      obtain rfl : place = rules.length := by omega
      rw [List.take_left, hlast]
      exact ⟨names, middle, before, hrules, congrArg Outcome.result hcondition⟩
  · rw [course_concat, course_congr hearlier, hlast]
    exact Pass.bind_eq_of_ok h.course (Pass.bind_eq_of_ok hcondition hactions)

theorem completes_of_applyAllBy {fired : List String} (hnames : (rules.map (·.name)).Nodup)
    (h : applyAllBy evaluator.evaluate perform rules start = ⟨.ok fired, last, events⟩) :
    evaluator.Completes perform rules start fired last events := by
  induction rules using List.reverseRecOn generalizing fired last events with
  | nil =>
    cases h
    exact ⟨rfl, fun place rule hrule => by simp at hrule, rfl⟩
  | append_singleton rules rule ih =>
    rw [applyAllBy, Pass.foldlM_concat] at h
    obtain ⟨names, middle, before, later, hrules, hlast, rfl⟩ := Pass.exists_of_bind_eq_ok h
    rw [List.map_append, List.map_singleton, List.nodup_append] at hnames
    obtain ⟨hnames, -, hnew⟩ := hnames
    exact (ih hnames hrules).concat hrules
      (fun other hother => hnew _ (List.mem_map_of_mem hother) _ (List.mem_singleton.2 rfl)) hlast

end Evaluator

/-! ### Actions of a pass that ends well -/

namespace Evaluator

variable (evaluator : Evaluator)

theorem acts_evaluate (condition : Condition) : (evaluator.evaluate condition).Acts [] :=
  Pass.acts_nil_of_confined (evaluator.quiet_evaluate condition).confined fun c =>
    (evaluator.quiet_evaluate condition c).2

theorem acts_invoke {ε : Type} (action : Action) (call : Call) :
    (action.invoke call : Pass ε (Except ActionFailure Unit)).Acts [call] := by
  have hnote : (Pass.note fun c => .action call c.index : Pass ε Unit).Acts [call] := by
    intro c d a events h
    cases h
    exact ⟨rfl, rfl⟩
  exact Pass.acts_bind hnote fun _ => Pass.acts_nil_of_confined (Program.confined_run _) fun c =>
    congrArg Effect.actions (Program.effect_run _ c)

/-- An action that is passed over when it fails was called all the same. -/
theorem acts_dispatch (call : Call) : (evaluator.dispatch call).Acts [call] := by
  cases h : evaluator.registry.action? call.function with
  | none =>
    rw [dispatch, h]
    intro c d a events heq
    cases heq
  | some action =>
    rw [evaluator.dispatch_eq h]
    exact Pass.acts_bind (acts_invoke action call) (closed_settle Pass.closed_acts_nil call)

theorem acts_respond (rule : Rule) (fires : Bool) :
    (rule.respond evaluator.dispatch fires).Acts (if fires then rule.actions else []) := by
  cases fires with
  | false => exact Pass.closed_acts_nil.pure ()
  | true =>
    have hactions : (performAll evaluator.dispatch rule.actions).Acts
        (rule.actions.flatMap fun call => [call]) :=
      Pass.acts_foldlM fun _ call => evaluator.acts_dispatch call
    rwa [List.flatMap_singleton'] at hactions

theorem acts_course (fires : Rule → Bool) (rules : List Rule) :
    (evaluator.course evaluator.dispatch fires rules).Acts
      ((rules.filter fires).flatMap (·.actions)) := by
  have hrules : (rules.filter fires).flatMap (·.actions) =
      rules.flatMap fun rule => if fires rule then rule.actions else [] := by
    induction rules with
    | nil => rfl
    | cons rule rest ih => cases h : fires rule <;> simp [h, ih]
  rw [hrules]
  exact Pass.acts_foldlM fun _ rule =>
    Pass.acts_bind (evaluator.acts_evaluate rule.condition) fun _ =>
      evaluator.acts_respond rule (fires rule)

end Evaluator

/-- **A failure leaves the work done before it and nothing after it.**  Whatever the actions do to
the context: a pass over the rules of a rule set fails if and only if it stops at one of them, for
one reason, and leaves what was done until then; and if it does not fail it completes.  Its actions
are then those of the rules that fired, each called once and in order.  Rules in two parts are
applied one part after the other, and the second part plays no role where the first one fails. -/
theorem RuleSet.apply_stops_or_completes (set : RuleSet) (registry : Registry) :
    let evaluator := set.evaluator registry
    set.apply registry = applyAllBy evaluator.evaluate evaluator.dispatch set.rules ∧
    (∀ (perform : Call → Pass EvalError Unit) (start : Context),
      (∀ e last events,
        applyAllBy evaluator.evaluate perform set.rules start = ⟨.error e, last, events⟩ ↔
          ∃! stop : Nat × Fault,
            evaluator.StopsAt perform set.rules start stop.1 stop.2 e last events) ∧
      ∀ fired last events,
        applyAllBy evaluator.evaluate perform set.rules start = ⟨.ok fired, last, events⟩ →
          evaluator.Completes perform set.rules start fired last events) ∧
    (∀ start fired last events, set.apply registry start = ⟨.ok fired, last, events⟩ →
      events.filterMap Event.action? =
        ((set.rules.filter (·.name ∈ fired)).flatMap (·.actions)).map (·, start.index)) ∧
    ∀ (perform : Call → Pass EvalError Unit) (first second : List Rule),
      (applyAllBy evaluator.evaluate perform (first ++ second) = do
        let fired ← applyAllBy evaluator.evaluate perform first
        let more ← applyAllBy evaluator.evaluate perform second
        return fired ++ more) ∧
      ∀ start e last events,
        applyAllBy evaluator.evaluate perform first start = ⟨.error e, last, events⟩ →
          applyAllBy evaluator.evaluate perform (first ++ second) start =
            ⟨.error e, last, events⟩ := by
  intro evaluator
  have happly : set.apply registry = applyAllBy evaluator.evaluate evaluator.dispatch set.rules :=
    evaluator.applyAll_eq set.rules
  refine ⟨happly, fun perform start => ⟨fun e last events => Evaluator.applyAllBy_eq_error_iff,
      fun fired last events => Evaluator.completes_of_applyAllBy set.distinct⟩,
    fun start fired last events h => ?_, fun perform first second =>
      ⟨applyAllBy_append first second, fun start e last events h => ?_⟩⟩
  · rw [happly] at h
    have hcourse := (Evaluator.completes_of_applyAllBy set.distinct h).course
    exact (evaluator.acts_course _ _ hcourse).2
  · rw [applyAllBy_append]
    exact Pass.bind_eq_of_error h

/-- An action that fails without being fatal is passed over, and one that is fatal stops the pass:
the edits of the one and of the other stay, and nothing comes after. -/
theorem RuleSet.apply_halts :
    let marking (text : String) (result : Except ActionFailure Unit) : Action := fun _ =>
      .record rfl ⟨0, text⟩ (.done result)
    let registry := ((((∅ : Registry).registerPredicate "yes" fun _ => .done (.ok true))
      |>.registerAction "mark" (marking "m" (.ok ())))
      |>.registerAction "warn" (marking "w" (.error ⟨"warned", false⟩)))
      |>.registerAction "halt" (marking "h" (.error ⟨"halted", true⟩))
    let rule (name : String) (functions : List String) : Rule :=
      ⟨name, "", Condition.call "yes", functions.map (⟨·, ∅⟩)⟩
    let set : RuleSet := ⟨[rule "first" ["mark", "warn", "mark"],
      rule "second" ["mark", "halt", "mark"], rule "third" ["mark"]], ∅, by decide⟩
    let evaluator := set.evaluator registry
    let start := Context.ofTokens ["a"]
    let outcome := set.apply registry start
    outcome.result = .error (.actionFailed "halt" ⟨"halted", true⟩) ∧
      outcome.context.edits.map (·.text) = ["m", "w", "m", "m", "h"] ∧
      (∃! stop : Nat × Fault, evaluator.StopsAt evaluator.dispatch set.rules start stop.1 stop.2
        (.actionFailed "halt" ⟨"halted", true⟩) outcome.context outcome.events) := by
  intro marking registry rule set evaluator start outcome
  have hresult : outcome.result = .error (.actionFailed "halt" ⟨"halted", true⟩) := by
    decide +kernel
  have houtcome : set.apply registry start =
      ⟨.error (.actionFailed "halt" ⟨"halted", true⟩), outcome.context, outcome.events⟩ := by
    rw [← hresult]
  obtain ⟨happly, hstops, -⟩ := set.apply_stops_or_completes registry
  rw [happly] at houtcome
  exact ⟨hresult, by decide +kernel, ((hstops evaluator.dispatch start).1 _ _ _).1 houtcome⟩

end TokenRules
