import TokenRules.NameMap

/-!
# Look-ups in maps from names

What each operation does to look-ups, and the two ways between look-ups and bindings: a name is
looked up as it is bound (`NameMap.get?_eq_some_iff`), in a map that is filled from a list as it is
bound last (`NameMap.get?_ofList_eq_some_iff_givenLast`), and maps with the same look-ups are equal
(`NameMap.ext_get?`).
-/

namespace TokenRules.NameMap

variable {α : Type}

@[simp] theorem get?_empty (name : String) : (∅ : NameMap α).get? name = none := rfl

theorem find?_insertEntry (name other : String) (value : α) (entries : List (String × α)) :
    (insertEntry name value entries).find? (·.1 == other) =
      if other = name then some (name, value) else entries.find? (·.1 == other) := by
  induction entries with
  | nil =>
    by_cases h : other = name
    · simp [insertEntry, h]
    · simp [insertEntry, h, Ne.symm h]
  | cons head rest ih =>
    unfold insertEntry
    split
    · by_cases h : other = name
      · simp [h]
      · simp [h, Ne.symm h]
    · split
      · rename_i hlt
        by_cases hhead : head.1 = other
        · have hne : other ≠ name := fun h => String.lt_irrefl name (by rwa [hhead, h] at hlt)
          simp [hhead, hne]
        · simp [hhead, ih]
      · rename_i h1 h2
        have heq : head.1 = name := String.le_antisymm (String.not_lt.1 h1) (String.not_lt.1 h2)
        by_cases h : other = name
        · simp [h]
        · simp [h, Ne.symm h, heq]

/-- An insertion changes the look-up of its own name and of no other. -/
@[simp] theorem get?_insert (m : NameMap α) (name other : String) (value : α) :
    (m.insert name value).get? other = if other = name then some value else m.get? other := by
  unfold get? insert
  rw [find?_insertEntry]
  split <;> simp

/-- The look-up of a name finds its binding, of which there is only one. -/
theorem get?_eq_some_iff {m : NameMap α} {name : String} {value : α} :
    m.get? name = some value ↔ (name, value) ∈ m.entries := by
  obtain ⟨entries, h⟩ := m
  simp only [get?]
  induction entries with
  | nil => simp
  | cons head rest ih =>
    obtain ⟨hhead, hrest⟩ := List.pairwise_cons.1 h
    by_cases heq : head.1 = name
    · have hnot : (name, value) ∉ rest := fun hmem =>
        String.lt_irrefl name (by simpa [heq] using hhead _ hmem)
      simp [heq, hnot, Prod.ext_iff, eq_comm]
    · simp [heq, ih hrest, Prod.ext_iff, Ne.symm heq]

theorem nodup_names (m : NameMap α) : m.names.Nodup :=
  List.pairwise_map.2 <| m.ascending.imp fun {a b} (hlt : a.1 < b.1) (heq : a.1 = b.1) =>
    String.lt_irrefl a.1 (by rwa [← heq] at hlt)

theorem mem_names_iff {m : NameMap α} {name : String} :
    name ∈ m.names ↔ (m.get? name).isSome = true := by
  rw [names, List.mem_map, Option.isSome_iff_exists]
  constructor
  · rintro ⟨⟨_, value⟩, hmem, rfl⟩
    exact ⟨value, get?_eq_some_iff.2 hmem⟩
  · rintro ⟨value, hvalue⟩
    exact ⟨(name, value), get?_eq_some_iff.1 hvalue, rfl⟩

theorem get?_foldl_insert (bindings : List (String × α)) (m : NameMap α) (name : String) :
    (bindings.foldl (fun m binding => m.insert binding.1 binding.2) m).get? name =
      ((bindings.reverse.find? (·.1 == name)).map (·.2)).or (m.get? name) := by
  induction bindings generalizing m with
  | nil => rfl
  | cons head rest ih =>
    rw [List.foldl_cons, ih, get?_insert, List.reverse_cons, List.find?_append]
    by_cases h : name = head.1
    · cases rest.reverse.find? (·.1 == name) <;> simp [h]
    · cases rest.reverse.find? (·.1 == name) <;> simp [h, Ne.symm h]

/-- Of several bindings of a name the last one stays. -/
theorem get?_ofList (bindings : List (String × α)) (name : String) :
    (ofList bindings).get? name = (bindings.reverse.find? (·.1 == name)).map (·.2) := by
  have h := get?_foldl_insert bindings empty name
  rwa [show (empty : NameMap α).get? name = none from rfl, Option.or_none] at h

/-- The name is given the value, and after that it is not given another. -/
def GivenLast (bindings : List (String × α)) (name : String) (value : α) : Prop :=
  ∃ before after, bindings = before ++ (name, value) :: after ∧ ∀ later ∈ after, later.1 ≠ name

theorem get?_ofList_eq_some_iff_givenLast {bindings : List (String × α)} {name : String}
    {value : α} : (ofList bindings).get? name = some value ↔ GivenLast bindings name value := by
  rw [get?_ofList, Option.map_eq_some_iff]
  constructor
  · rintro ⟨⟨_, _⟩, hfound, rfl⟩
    obtain ⟨hname, after, before, hbindings, hafter⟩ := List.find?_eq_some_iff_append.1 hfound
    obtain rfl := beq_iff_eq.1 hname
    refine ⟨before.reverse, after.reverse, ?_, fun later hlater => ?_⟩
    · rw [← List.reverse_reverse bindings, hbindings]
      simp
    · simpa using hafter later (List.mem_reverse.1 hlater)
  · rintro ⟨before, after, rfl, hafter⟩
    refine ⟨(name, value), List.find?_eq_some_iff_append.2 ⟨beq_self_eq_true name, after.reverse,
      before.reverse, by simp, fun later hlater => ?_⟩, rfl⟩
    simpa using hafter later (List.mem_reverse.1 hlater)

theorem GivenLast.mem {bindings : List (String × α)} {name : String} {value : α}
    (h : GivenLast bindings name value) : (name, value) ∈ bindings := by
  obtain ⟨before, after, rfl, -⟩ := h
  simp

theorem get?_ofList_eq_none_iff {bindings : List (String × α)} {name : String} :
    (ofList bindings).get? name = none ↔ ∀ binding ∈ bindings, binding.1 ≠ name := by
  simp [get?_ofList]

/-- Where no name has two values, all bindings stay. -/
theorem get?_ofList_eq_some_iff {bindings : List (String × α)}
    (h : ∀ binding ∈ bindings, ∀ other ∈ bindings, binding.1 = other.1 → binding.2 = other.2)
    {name : String} {value : α} :
    (ofList bindings).get? name = some value ↔ (name, value) ∈ bindings := by
  refine ⟨fun hget => (get?_ofList_eq_some_iff_givenLast.1 hget).mem, fun hmem => ?_⟩
  cases hget : (ofList bindings).get? name with
  | none => exact absurd rfl (get?_ofList_eq_none_iff.1 hget _ hmem)
  | some last =>
    have hlast := (get?_ofList_eq_some_iff_givenLast.1 hget).mem
    exact congrArg some (h _ hlast _ hmem rfl)

/-- Maps with the same look-ups are equal. -/
theorem ext_get? {m n : NameMap α} (h : ∀ name, m.get? name = n.get? name) : m = n := by
  have hmem : ∀ entry, entry ∈ m.entries ↔ entry ∈ n.entries := fun entry => by
    rw [← get?_eq_some_iff, ← get?_eq_some_iff, h]
  obtain ⟨xs, hxs⟩ := m
  obtain ⟨ys, hys⟩ := n
  have nodup {zs : List (String × α)} (hzs : zs.Pairwise (fun a b => a.1 < b.1)) : zs.Nodup :=
    hzs.imp fun {a b} (hlt : a.1 < b.1) (heq : a = b) =>
      String.lt_irrefl a.1 (by rwa [← heq] at hlt)
  have hperm : xs.Perm ys := (List.perm_ext_iff_of_nodup (nodup hxs) (nodup hys)).2 hmem
  have heq : xs = ys := hperm.eq_of_pairwise (fun a b _ _ hab hba =>
    absurd (String.lt_trans hab hba) (String.lt_irrefl _)) hxs hys
  subst heq
  rfl

/-- Each name is given the same value last in either list, or in neither. -/
def SameLast (bindings others : List (String × α)) : Prop :=
  ∀ name value, GivenLast bindings name value ↔ GivenLast others name value

theorem sameLast_iff {bindings others : List (String × α)} :
    SameLast bindings others ↔ ofList bindings = ofList others := by
  simp only [SameLast, ← get?_ofList_eq_some_iff_givenLast]
  exact ⟨fun h => ext_get? fun name => Option.ext (h name), fun h _ _ => by rw [h]⟩

/-- Insertions are told by what is given last. -/
theorem SameLast.foldl_insert_eq {bindings others : List (String × α)}
    (h : SameLast bindings others) (m : NameMap α) :
    bindings.foldl (fun m binding => m.insert binding.1 binding.2) m =
      others.foldl (fun m binding => m.insert binding.1 binding.2) m := by
  refine ext_get? fun name => ?_
  rw [get?_foldl_insert, get?_foldl_insert, ← get?_ofList, ← get?_ofList, sameLast_iff.1 h]

theorem pairwise_names (m : NameMap α) : m.names.Pairwise (· < ·) :=
  List.pairwise_map.2 m.ascending

/-- Maps that bind the same names list them alike. -/
theorem names_eq_iff {β : Type} {m : NameMap α} {n : NameMap β} :
    m.names = n.names ↔ ∀ name, (m.get? name).isSome = (n.get? name).isSome := by
  have hmem : m.names = n.names ↔ ∀ name, name ∈ m.names ↔ name ∈ n.names := by
    refine ⟨fun h name => by rw [h], fun h => ?_⟩
    have hperm := (List.perm_ext_iff_of_nodup m.nodup_names n.nodup_names).2 h
    exact hperm.eq_of_pairwise (fun _ _ _ _ hab hba =>
      absurd (String.lt_trans hab hba) (String.lt_irrefl _)) m.pairwise_names n.pairwise_names
  rw [hmem]
  refine forall_congr' fun name => ?_
  rw [mem_names_iff, mem_names_iff]
  exact Bool.eq_iff_iff.symm

end TokenRules.NameMap
