import TokenRules.WordSet

/-!
# Members of word sets

What each operation does to membership. Sets with the same members are equal (`WordSet.ext_mem`).
-/

namespace TokenRules.WordSet

@[simp] theorem not_mem_empty (word : String) : word ∉ (∅ : WordSet) := List.not_mem_nil

@[simp] theorem mem_insert {s : WordSet} {word other : String} :
    other ∈ s.insert word ↔ other = word ∨ other ∈ s := mem_insertWord

@[simp] theorem mem_insertAll {s : WordSet} {words : List String} {word : String} :
    word ∈ s.insertAll words ↔ word ∈ s ∨ word ∈ words := by
  unfold insertAll
  induction words generalizing s with
  | nil => simp
  | cons head rest ih =>
    rw [List.foldl_cons, ih, mem_insert, List.mem_cons]
    exact ⟨fun h => h.elim (Or.elim · (.inr ∘ .inl) .inl) (.inr ∘ .inr),
      fun h => h.elim (.inl ∘ .inr) (Or.elim · (.inl ∘ .inl) .inr)⟩

@[simp] theorem mem_ofList {words : List String} {word : String} :
    word ∈ ofList words ↔ word ∈ words := by
  rw [ofList, mem_insertAll]
  exact or_iff_right (not_mem_empty word)

@[simp] theorem mem_union {s t : WordSet} {word : String} :
    word ∈ s.union t ↔ word ∈ s ∨ word ∈ t := mem_insertAll

@[simp] theorem contains_iff {s : WordSet} {word : String} : s.contains word = true ↔ word ∈ s :=
  decide_eq_true_iff

/-- Sets with the same members are equal. -/
theorem ext_mem {s t : WordSet} (h : ∀ word, word ∈ s ↔ word ∈ t) : s = t := by
  obtain ⟨xs, hxs⟩ := s
  obtain ⟨ys, hys⟩ := t
  have nodup {zs : List String} (hzs : zs.Pairwise (· < ·)) : zs.Nodup :=
    hzs.imp fun {a b} (hlt : a < b) (heq : a = b) => String.lt_irrefl a (by rwa [← heq] at hlt)
  have hperm : xs.Perm ys := (List.perm_ext_iff_of_nodup (nodup hxs) (nodup hys)).2 h
  have heq : xs = ys := hperm.eq_of_pairwise (fun a b _ _ hab hba =>
    absurd (String.lt_trans hab hba) (String.lt_irrefl _)) hxs hys
  subst heq
  rfl

end TokenRules.WordSet
