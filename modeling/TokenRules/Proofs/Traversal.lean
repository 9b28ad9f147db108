import Mathlib.Data.List.Basic

/-!
# Items in turn

A function that may fail, tried on the items of a list one after the other.  The
error is that of the first item that fails (`mapM_eq_error_iff`); without one the
results stand at the places of their items (`exists_getElem?_of_mapM_eq_ok`).  If it is
told beforehand which items fail, the one that decides `IsFirst` among them
(`mapM_eq_error_iff_isFirst`).
-/

namespace TokenRules

variable {α β ε : Type} {f : α → Except ε β} {head : α} {rest : List α} {b : β} {e : ε}

theorem mapM_cons_of_error (h : f head = .error e) : (head :: rest).mapM f = .error e := by
  rw [List.mapM_cons, h]
  rfl

theorem mapM_cons_of_ok (h : f head = .ok b) :
    (head :: rest).mapM f = (rest.mapM f).map (b :: ·) := by
  rw [List.mapM_cons, h]
  cases rest.mapM f <;> rfl

theorem map_eq_error_iff {γ : Type} {g : β → γ} {x : Except ε β} :
    x.map g = .error e ↔ x = .error e := by
  cases x <;> simp [Except.map]

theorem map_eq_ok_iff {γ : Type} {g : β → γ} {x : Except ε β} {c : γ} :
    x.map g = .ok c ↔ ∃ b, x = .ok b ∧ g b = c := by
  cases x <;> simp [Except.map]

theorem exists_eq_ok_iff {x : Except ε β} : (∃ b, x = .ok b) ↔ ¬ ∃ e, x = .error e := by
  cases x <;> simp

theorem exists_eq_ok_of_isOk {x : Except ε β} (h : x.isOk = true) : ∃ b, x = .ok b := by
  cases x with
  | error e => cases h
  | ok b => exact ⟨b, rfl⟩

theorem mapError_eq_ok_iff {ε' : Type} {g : ε → ε'} {x : Except ε β} :
    x.mapError g = .ok b ↔ x = .ok b := by
  cases x <;> simp [Except.mapError]

/-- The error of items in turn is that of the first item that fails. -/
theorem mapM_eq_error_iff {items : List α} :
    items.mapM f = .error e ↔
      ∃ (place : Nat) (item : α), items[place]? = some item ∧ f item = .error e ∧
        ∀ earlier < place, ∀ other, items[earlier]? = some other → ∃ b, f other = .ok b := by
  induction items with
  | nil => exact ⟨fun h => (nomatch h), fun ⟨_, _, h, _⟩ => (nomatch h)⟩
  | cons head rest ih =>
    cases hhead : f head with
    | error e' =>
      rw [mapM_cons_of_error hhead]
      constructor
      · intro h
        cases h
        exact ⟨0, head, rfl, hhead, fun _ h => absurd h (Nat.not_lt_zero _)⟩
      · rintro ⟨_ | place, item, hitem, he, hbefore⟩
        · cases hitem
          rw [hhead] at he
          cases he
          rfl
        · obtain ⟨b, hb⟩ := hbefore 0 (by omega) head rfl
          rw [hhead] at hb
          cases hb
    | ok b =>
      rw [mapM_cons_of_ok hhead, map_eq_error_iff, ih]
      constructor
      · rintro ⟨place, item, hitem, he, hbefore⟩
        refine ⟨place + 1, item, hitem, he, fun earlier hearlier other hother => ?_⟩
        cases earlier with
        | zero =>
          cases hother
          exact ⟨b, hhead⟩
        | succ earlier => exact hbefore earlier (by omega) other hother
      · rintro ⟨_ | place, item, hitem, he, hbefore⟩
        · cases hitem
          rw [hhead] at he
          cases he
        · exact ⟨place, item, hitem, he, fun earlier hearlier => hbefore (earlier + 1) (by omega)⟩

/-- Where no item fails, every one has its result. -/
theorem mapM_eq_ok_map {items : List α} {g : α → β} (h : ∀ item ∈ items, f item = .ok (g item)) :
    items.mapM f = .ok (items.map g) := by
  induction items with
  | nil => rfl
  | cons head rest ih =>
    obtain ⟨hhead, hrest⟩ := List.forall_mem_cons.1 h
    rw [mapM_cons_of_ok hhead, ih hrest]
    rfl

/-- Items and results go in pairs. -/
theorem forall₂_of_mapM_eq_ok {items : List α} {results : List β}
    (h : items.mapM f = .ok results) :
    List.Forall₂ (fun item b => f item = .ok b) items results := by
  induction items generalizing results with
  | nil =>
    cases h
    exact .nil
  | cons head rest ih =>
    cases hhead : f head with
    | error e =>
      rw [mapM_cons_of_error hhead] at h
      cases h
    | ok b =>
      rw [mapM_cons_of_ok hhead, map_eq_ok_iff] at h
      obtain ⟨others, hrest, rfl⟩ := h
      exact .cons hhead (ih hrest)

/-- There are results if each item has one. -/
theorem mapM_eq_ok_iff {items : List α} {results : List β} :
    items.mapM f = .ok results ↔ List.Forall₂ (fun item b => f item = .ok b) items results := by
  refine ⟨forall₂_of_mapM_eq_ok, fun h => ?_⟩
  induction h with
  | nil => rfl
  | cons hhead _ ih =>
    rw [mapM_cons_of_ok hhead, ih]
    rfl

/-- Each item has its result at its own place. -/
theorem exists_getElem?_of_mapM_eq_ok {items : List α} {results : List β}
    (h : items.mapM f = .ok results) {place : Nat} {item : α} (hitem : items[place]? = some item) :
    ∃ b, f item = .ok b ∧ results[place]? = some b := by
  have hpairs := forall₂_of_mapM_eq_ok h
  clear h
  induction hpairs generalizing place with
  | nil => cases hitem
  | cons hhead _ ih =>
    cases place with
    | zero =>
      cases hitem
      exact ⟨_, hhead, rfl⟩
    | succ place => exact ih hitem

theorem exists_mem_of_forall₂ {R : α → β → Prop} {items : List α} {results : List β}
    (h : List.Forall₂ R items results) {item : α} (hmem : item ∈ items) :
    ∃ b ∈ results, R item b := by
  induction h with
  | nil => exact absurd hmem List.not_mem_nil
  | cons hhead _ ih =>
    rcases List.mem_cons.1 hmem with rfl | hmem
    · exact ⟨_, List.mem_cons_self, hhead⟩
    · obtain ⟨b, hb, hitem⟩ := ih hmem
      exact ⟨b, List.mem_cons_of_mem _ hb, hitem⟩

/-- An item in the middle of a list has its result in the middle of the results. -/
theorem exists_append_cons_of_forall₂ {R : α → β → Prop} {before after : List α} {item : α}
    {results : List β} (h : List.Forall₂ R (before ++ item :: after) results) :
    ∃ left b right, results = left ++ b :: right ∧
      List.Forall₂ R before left ∧ R item b ∧ List.Forall₂ R after right := by
  induction before generalizing results with
  | nil =>
    cases h with
    | cons hitem hafter => exact ⟨[], _, _, rfl, .nil, hitem, hafter⟩
  | cons head rest ih =>
    cases h with
    | cons hhead hrest =>
      obtain ⟨left, b, right, rfl, hbefore, hitem, hafter⟩ := ih hrest
      exact ⟨_ :: left, b, right, rfl, .cons hhead hbefore, hitem, hafter⟩

theorem forall₂_imp_of_mem {R S : α → β → Prop} {items : List α} {results : List β}
    (h : List.Forall₂ R items results) (himp : ∀ b ∈ results, ∀ item, R item b → S item b) :
    List.Forall₂ S items results := by
  induction h with
  | nil => exact .nil
  | cons hhead _ ih =>
    obtain ⟨himpHead, himpRest⟩ := List.forall_mem_cons.1 himp
    exact .cons (himpHead _ hhead) (ih himpRest)

/-- Where every item is converted, nothing is left out. -/
theorem filterMap_eq_of_mapM_eq_some {convert : α → Option β} {items : List α} {results : List β}
    (h : items.mapM convert = some results) : items.filterMap convert = results := by
  induction items generalizing results with
  | nil => exact Option.some.inj h
  | cons head rest ih =>
    obtain ⟨b, hhead, others, hrest, rfl⟩ : ∃ b, convert head = some b ∧
        ∃ others, rest.mapM convert = some others ∧ b :: others = results := by
      simpa [List.mapM_cons, Option.bind_eq_some_iff] using h
    rw [List.filterMap_cons_some hhead, ih hrest]

/-! ### First items -/

/-- The item is the first of some items that has a property. -/
def IsFirst {α : Type} (P : α → Prop) (items : List α) (item : α) : Prop :=
  ∃ before after, items = before ++ item :: after ∧ P item ∧ ∀ earlier ∈ before, ¬ P earlier

section IsFirst

variable {α β ε : Type} {P : α → Prop} {head item : α} {rest items : List α}

theorem IsFirst.holds (h : IsFirst P items item) : P item := by
  obtain ⟨-, -, -, hitem, -⟩ := h
  exact hitem

theorem not_isFirst_nil : ¬ IsFirst P [] item := by
  rintro ⟨before, after, h, -⟩
  cases before <;> cases h

theorem isFirst_cons_iff :
    IsFirst P (head :: rest) item ↔ P head ∧ item = head ∨ ¬ P head ∧ IsFirst P rest item := by
  constructor
  · rintro ⟨_ | ⟨first, before⟩, after, heq, hitem, hbefore⟩
    · cases heq
      exact .inl ⟨hitem, rfl⟩
    · cases heq
      obtain ⟨hfirst, hbefore⟩ := List.forall_mem_cons.1 hbefore
      exact .inr ⟨hfirst, before, after, rfl, hitem, hbefore⟩
  · rintro (⟨hhead, rfl⟩ | ⟨hhead, before, after, rfl, hitem, hbefore⟩)
    · exact ⟨[], rest, rfl, hhead, fun _ h => absurd h List.not_mem_nil⟩
    · exact ⟨head :: before, after, rfl, hitem, List.forall_mem_cons.2 ⟨hhead, hbefore⟩⟩

theorem exists_isFirst_iff : (∃ item, IsFirst P items item) ↔ ∃ item ∈ items, P item := by
  induction items with
  | nil => simp [not_isFirst_nil]
  | cons head rest ih =>
    simp only [isFirst_cons_iff, List.exists_mem_cons_iff, ← ih]
    constructor
    · rintro ⟨item, ⟨hhead, rfl⟩ | ⟨-, hitem⟩⟩
      · exact .inl hhead
      · exact .inr ⟨item, hitem⟩
    · intro h
      by_cases hhead : P head
      · exact ⟨head, .inl ⟨hhead, rfl⟩⟩
      · obtain ⟨item, hitem⟩ := h.resolve_left hhead
        exact ⟨item, .inr ⟨hhead, hitem⟩⟩

theorem not_exists_isFirst_iff : (¬ ∃ item, IsFirst P items item) ↔ ∀ item ∈ items, ¬ P item := by
  rw [exists_isFirst_iff]
  exact ⟨fun h item hmem hitem => h ⟨item, hmem, hitem⟩,
    fun h ⟨item, hmem, hitem⟩ => h item hmem hitem⟩

/-- The error of items in turn is that of the first of them that has an error. -/
theorem mapM_eq_error_iff_isFirst {f : α → Except ε β} {e : ε} :
    items.mapM f = .error e ↔
      ∃ item, IsFirst (fun item => ∃ e, f item = .error e) items item ∧ f item = .error e := by
  induction items with
  | nil => exact ⟨fun h => (nomatch h), fun ⟨_, h, _⟩ => absurd h not_isFirst_nil⟩
  | cons head rest ih =>
    cases hhead : f head with
    | error e' =>
      rw [mapM_cons_of_error hhead]
      constructor
      · intro h
        cases h
        exact ⟨head, isFirst_cons_iff.2 (.inl ⟨⟨e, hhead⟩, rfl⟩), hhead⟩
      · rintro ⟨item, hfirst, he⟩
        rcases isFirst_cons_iff.1 hfirst with ⟨-, rfl⟩ | ⟨hnot, -⟩
        · rw [hhead] at he
          cases he
          rfl
        · exact absurd ⟨e', hhead⟩ hnot
    | ok b =>
      have hnot : ¬ ∃ e, f head = .error e := by simp [hhead]
      rw [mapM_cons_of_ok hhead, map_eq_error_iff, ih]
      simp [isFirst_cons_iff, hnot]

end IsFirst

end TokenRules
