import Mathlib.Data.List.Induction
import TokenRules.Proofs.Sight

/-!
# Sequences of passes

A pass of two parts ends with the failure of the first part or with the end of the
second (`Pass.exists_of_bind_eq`).  A sequence of steps `Stops` at a place if the steps
before it succeed and the one at that place fails; there is one such place if the
sequence fails, `Pass.existsUnique_stops`.  If it does not fail, the actions that it
has called are those of its steps, one after the other (`Pass.acts_foldlM`).
-/

namespace TokenRules

/-! ### Passes in two parts -/

namespace Pass

variable {ε α β ι : Type}

theorem bind_eq_of_ok {pass : Pass ε α} {f : α → Pass ε β} {c d last : Context} {a : α}
    {result : Except ε β} {events later : List Event} (h : pass c = ⟨.ok a, d, events⟩)
    (hf : f a d = ⟨result, last, later⟩) :
    (pass >>= f) c = ⟨result, last, events ++ later⟩ := by
  rw [bind_of_ok (congrArg Outcome.result h), h, hf]

theorem bind_eq_of_error {pass : Pass ε α} {f : α → Pass ε β} {c d : Context} {e : ε}
    {events : List Event} (h : pass c = ⟨.error e, d, events⟩) :
    (pass >>= f) c = ⟨.error e, d, events⟩ := by
  rw [bind_of_error (congrArg Outcome.result h), h]

/-- A pass of two parts ends with the failure of the first or with the end of the second. -/
theorem exists_of_bind_eq {pass : Pass ε α} {f : α → Pass ε β} {c last : Context}
    {result : Except ε β} {events : List Event} (h : (pass >>= f) c = ⟨result, last, events⟩) :
    (∃ e, result = .error e ∧ pass c = ⟨.error e, last, events⟩) ∨
    ∃ a d before later, pass c = ⟨.ok a, d, before⟩ ∧ f a d = ⟨result, last, later⟩ ∧
      events = before ++ later := by
  cases hpass : pass c with
  | mk first d before =>
    cases first with
    | error e =>
      rw [bind_eq_of_error hpass] at h
      cases h
      exact .inl ⟨e, rfl, rfl⟩
    | ok a =>
      rw [bind_eq_of_ok hpass rfl] at h
      cases h
      exact .inr ⟨a, d, before, _, rfl, rfl, rfl⟩

theorem exists_of_bind_eq_ok {pass : Pass ε α} {f : α → Pass ε β} {c last : Context} {b : β}
    {events : List Event} (h : (pass >>= f) c = ⟨.ok b, last, events⟩) :
    ∃ a d before later, pass c = ⟨.ok a, d, before⟩ ∧ f a d = ⟨.ok b, last, later⟩ ∧
      events = before ++ later := by
  rcases exists_of_bind_eq h with ⟨e, he, -⟩ | hok
  · cases he
  · exact hok

theorem exists_of_bind_eq_error {pass : Pass ε α} {f : α → Pass ε β} {c last : Context} {e : ε}
    {events : List Event} (h : (pass >>= f) c = ⟨.error e, last, events⟩) :
    pass c = ⟨.error e, last, events⟩ ∨
    ∃ a d before later, pass c = ⟨.ok a, d, before⟩ ∧ f a d = ⟨.error e, last, later⟩ ∧
      events = before ++ later := by
  rcases exists_of_bind_eq h with ⟨f, hf, herror⟩ | hok
  · cases hf
    exact .inl herror
  · exact .inr hok

/-! ### Where a sequence stops -/

variable {step : β → ι → Pass ε β} {init : β} {items : List ι} {start last : Context} {place : Nat}
  {e : ε} {events : List Event}

theorem foldlM_concat (item : ι) :
    (items ++ [item]).foldlM step init = items.foldlM step init >>= (step · item) := by
  simp [List.foldlM_append]

/-- The steps of the items before a place succeed, and the step of the item there fails. -/
inductive Stops (step : β → ι → Pass ε β) (init : β) (items : List ι) (start : Context) :
    Nat → ε → Context → List Event → Prop
  | intro {place : Nat} {item : ι} {b : β} {middle last : Context} {e : ε}
      {before later : List Event} (hitem : items[place]? = some item)
      (hbefore : (items.take place).foldlM step init start = ⟨.ok b, middle, before⟩)
      (hfails : step b item middle = ⟨.error e, last, later⟩) :
      Stops step init items start place e last (before ++ later)

theorem Stops.append (h : Stops step init items start place e last events) (more : List ι) :
    Stops step init (items ++ more) start place e last events := by
  cases h with
  | intro hitem hbefore hfails =>
    have hlt : place < items.length := (List.getElem?_eq_some_iff.1 hitem).1
    refine .intro ?_ ?_ hfails
    · rw [List.getElem?_append_left hlt, hitem]
    · rw [List.take_append_of_le_length (Nat.le_of_lt hlt), hbefore]

/-- What comes after the step that fails plays no part. -/
theorem Stops.foldlM_take (h : Stops step init items start place e last events) {count : Nat}
    (hcount : place < count) :
    (items.take count).foldlM step init start = ⟨.error e, last, events⟩ := by
  obtain ⟨hitem, hbefore, hfails⟩ := h
  obtain ⟨hlt, rfl⟩ := List.getElem?_eq_some_iff.1 hitem
  have hsplit : items.take count =
      items.take place ++ items[place] :: (items.take count).drop (place + 1) := by
    conv_lhs => rw [← List.take_append_drop place (items.take count)]
    rw [List.take_take, Nat.min_eq_left (Nat.le_of_lt hcount),
      List.drop_eq_getElem_cons (by rw [List.length_take]; omega), List.getElem_take]
  rw [hsplit, List.foldlM_append]
  refine bind_eq_of_ok hbefore ?_
  rw [List.foldlM_cons]
  exact bind_eq_of_error hfails

theorem Stops.foldlM_eq (h : Stops step init items start place e last events) :
    items.foldlM step init start = ⟨.error e, last, events⟩ := by
  have hlt : place < items.length := by
    cases h with
    | intro hitem => exact (List.getElem?_eq_some_iff.1 hitem).1
  rw [← h.foldlM_take hlt, List.take_length]

theorem Stops.place_le {other : Nat} {f : ε} {final : Context} {log : List Event}
    (h : Stops step init items start place e last events)
    (hother : Stops step init items start other f final log) : other ≤ place := by
  refine Nat.le_of_not_lt fun hlt => ?_
  cases hother with
  | intro _ hbefore =>
    rw [h.foldlM_take hlt] at hbefore
    cases hbefore

theorem Stops.place_eq {other : Nat} {f : ε} {final : Context} {log : List Event}
    (h : Stops step init items start place e last events)
    (hother : Stops step init items start other f final log) : place = other :=
  Nat.le_antisymm (hother.place_le h) (h.place_le hother)

theorem exists_stops (h : items.foldlM step init start = ⟨.error e, last, events⟩) :
    ∃ place, Stops step init items start place e last events := by
  induction items using List.reverseRecOn generalizing e last events with
  | nil => cases h
  | append_singleton items item ih =>
    rw [foldlM_concat] at h
    rcases exists_of_bind_eq_error h with hitems | ⟨b, middle, before, later, hitems, hstep, rfl⟩
    · obtain ⟨place, hplace⟩ := ih hitems
      exact ⟨place, hplace.append _⟩
    · exact ⟨items.length, .intro (by simp) (by rw [List.take_left, hitems]) hstep⟩

/-- **A sequence that fails stops at one place.** -/
theorem existsUnique_stops (h : items.foldlM step init start = ⟨.error e, last, events⟩) :
    ∃! place, Stops step init items start place e last events := by
  obtain ⟨place, hplace⟩ := exists_stops h
  exact ⟨place, hplace, fun other hother => hother.place_eq hplace⟩

/-! ### Actions of a sequence that ends well -/

variable {calls others : List Call}

/-- Where the pass ends well it has called these actions in this order, at the position of the
context. -/
def Acts (calls : List Call) (pass : Pass ε α) : Prop :=
  ∀ ⦃c d : Context⦄ ⦃a : α⦄ ⦃events : List Event⦄, pass c = ⟨.ok a, d, events⟩ →
    d.index = c.index ∧ events.filterMap Event.action? = calls.map (·, c.index)

theorem acts_bind {pass : Pass ε α} {f : α → Pass ε β} (hpass : pass.Acts calls)
    (hf : ∀ a, (f a).Acts others) : (pass >>= f).Acts (calls ++ others) := by
  intro c last b events h
  obtain ⟨a, d, before, later, hfirst, hsecond, rfl⟩ := exists_of_bind_eq_ok h
  obtain ⟨hindex, hcalls⟩ := hpass hfirst
  obtain ⟨hindex', hcalls'⟩ := hf a hsecond
  exact ⟨hindex'.trans hindex, by
    rw [List.filterMap_append, hcalls, hcalls', hindex, List.map_append]⟩

theorem closed_acts_nil : Closed (ε := ε) (Acts []) where
  pure _ _ _ _ _ h := by cases h; exact ⟨rfl, rfl⟩
  fail _ _ _ _ _ h := nomatch h
  bind := acts_bind

theorem acts_nil_of_confined {pass : Pass ε α} (h : pass.Confined)
    (hactions : ∀ c, (pass c).effect.actions = []) : pass.Acts [] := by
  intro c d a events heq
  have hindex := congrArg Sight.index (h c)
  have hcalls := hactions c
  rw [heq] at hindex hcalls
  exact ⟨hindex, hcalls⟩

theorem acts_foldlM {step : β → ι → Pass ε β} {init : β} {items : List ι} {calls : ι → List Call}
    (h : ∀ b item, (step b item).Acts (calls item)) :
    (items.foldlM step init).Acts (items.flatMap calls) := by
  induction items generalizing init with
  | nil => exact closed_acts_nil.pure init
  | cons item rest ih =>
    rw [List.foldlM_cons]
    exact acts_bind (h init item) fun _ => ih

end Pass

end TokenRules
