import TokenRules.FileTree

/-!
# Entries of file trees

An entry of a directory is an entry of the tree one name further down (`mem_children_iff`).  When an
entry is put into a directory, the directory has it in place of any entry of the same name, and
nothing else changes there (`mem_children_insert`).
-/

namespace TokenRules.FileTree

variable {tree : FileTree} {path : List String} {name : String} {entry : Entry}

theorem mem_children_iff {child : String × Entry} :
    child ∈ tree.children path ↔ (path ++ [child.1], child.2) ∈ tree.entries := by
  rw [children, List.mem_filterMap]
  constructor
  · rintro ⟨⟨names, entry⟩, hmem, hchild⟩
    dsimp only at hchild
    split at hchild
    · rename_i name hname
      obtain ⟨above, rfl⟩ := List.getLast?_eq_some_iff.1 hname
      rw [List.dropLast_concat] at hchild
      split at hchild
      · rename_i habove
        cases hchild
        exact habove ▸ hmem
      · cases hchild
    · cases hchild
  · intro hmem
    exact ⟨_, hmem, by simp⟩

/-- The directories that have to be put into the tree for an entry at a path. -/
def missing (tree : FileTree) (path : List String) : List (List String) :=
  ((List.range path.length).map path.take).filter fun path => (tree.entry? path).isNone

theorem entries_insert (tree : FileTree) (path : List String) (entry : Entry) :
    (tree.insert path entry).entries = (path, entry) ::
      (tree.missing path).map (·, .directory) ++ tree.entries.filter (·.1 != path) := rfl

theorem of_mem_missing {other : List String} (h : other ∈ tree.missing path) :
    other.length < path.length ∧ tree.entry? other = none := by
  obtain ⟨habove, hnone⟩ := List.mem_filter.1 h
  obtain ⟨length, hlength, rfl⟩ := List.mem_map.1 habove
  refine ⟨?_, Option.isNone_iff_eq_none.1 hnone⟩
  rw [List.length_take]
  have hlt := List.mem_range.1 hlength
  omega

/-- An entry in a directory takes the place of any of the same name. -/
theorem mem_children_insert {child : String × Entry} :
    child ∈ (tree.insert (path ++ [name]) entry).children path ↔
      child = (name, entry) ∨ child.1 ≠ name ∧ child ∈ tree.children path := by
  have hmissing : (path ++ [child.1], child.2) ∉
      (tree.missing (path ++ [name])).map fun path => (path, Entry.directory) := by
    intro h
    obtain ⟨above, hmem, heq⟩ := List.mem_map.1 h
    obtain rfl : above = path ++ [child.1] := congrArg Prod.fst heq
    have hlt := (of_mem_missing hmem).1
    simp at hlt
  rw [mem_children_iff, mem_children_iff, entries_insert, List.cons_append, List.mem_cons,
    List.mem_append, List.mem_filter, Prod.mk.injEq, Prod.ext_iff]
  simp only [hmissing, false_or, List.append_cancel_left_eq, List.cons.injEq, and_true,
    bne_iff_ne, ne_eq]
  rw [and_comm (b := ¬ child.1 = name)]

theorem lookup_filter_of_ne {entries : List (List String × Entry)} {other : List String}
    (h : path ≠ other) : (entries.filter (·.1 != other)).lookup path = entries.lookup path := by
  induction entries with
  | nil => rfl
  | cons head rest ih =>
    by_cases hhead : head.1 = other
    · have hne : (path == head.1) = false := beq_false_of_ne (hhead ▸ h)
      rw [List.filter_cons_of_neg (by simp [hhead]), ih, List.lookup_cons, hne]
    · rw [List.filter_cons_of_pos (by simp [hhead]), List.lookup_cons, List.lookup_cons, ih]

/-- A directory stays one when an entry is put into it. -/
theorem entry?_insert_of_directory (h : tree.entry? path = some .directory) :
    entry? (tree.insert (path ++ [name]) entry) path = some .directory := by
  unfold entry? at h ⊢
  split
  · rfl
  · rename_i hpath
    rw [if_neg hpath] at h
    have hne : path ≠ path ++ [name] := by simp
    have hmissing : ((tree.missing (path ++ [name])).map (·, Entry.directory)).lookup path =
        none := by
      rw [List.lookup_eq_none_iff]
      intro pair hmem
      obtain ⟨above, habove, rfl⟩ := List.mem_map.1 hmem
      refine bne_iff_ne.2 ?_
      rintro rfl
      have hnone := (of_mem_missing habove).2
      unfold entry? at hnone
      rw [if_neg hpath, h] at hnone
      cases hnone
    rw [entries_insert, List.cons_append, List.lookup_cons, beq_false_of_ne hne,
      List.lookup_append, hmissing, Option.none_or, lookup_filter_of_ne hne, h]

end TokenRules.FileTree
