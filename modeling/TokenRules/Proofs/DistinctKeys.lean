import TokenRules.Proofs.Traversal
import TokenRules.Yaml.Reading

/-!
# Keys come once

A value is `Distinct` if no mapping in it has a key twice.  Reading refuses a document
in which a key agrees with an earlier one of its mapping; a key agrees with itself
(`agrees_self`), so every value that is read is distinct: `distinct_of_read`.
-/

namespace TokenRules

theorem Binary64.agreesOrNaN_self (x : Binary64) : x.agreesOrNaN x = true := by
  cases h : x.isNaN <;> simp [agreesOrNaN, agrees, h]

namespace Yaml

namespace Value

/-- No mapping in the value has a key twice. -/
inductive Distinct : Value → Prop
  | null : Distinct .null
  | bool (b : Bool) : Distinct (.bool b)
  | int (n : Integer) : Distinct (.int n)
  | float (x : Binary64) : Distinct (.float x)
  | text (s : String) : Distinct (.text s)
  | sequence {items : List Value} (parts : ∀ item ∈ items, Distinct item) :
      Distinct (.sequence items)
  | mapping {entries : List (Value × Value)} (nodup : (entries.map Prod.fst).Nodup)
      (keys : ∀ entry ∈ entries, Distinct entry.1)
      (values : ∀ entry ∈ entries, Distinct entry.2) : Distinct (.mapping entries)
  | tagged (tag : String) {value : Value} (part : Distinct value) : Distinct (.tagged tag value)

theorem Distinct.untagged {value : Value} (h : value.Distinct) : value.untagged.Distinct := by
  induction h with
  | tagged tag _ ih => exact ih
  | null => exact .null
  | bool b => exact .bool b
  | int n => exact .int n
  | float x => exact .float x
  | text s => exact .text s
  | sequence parts => exact .sequence parts
  | mapping nodup keys values => exact .mapping nodup keys values

end Value

namespace Value

mutual

/-- A value agrees with itself. -/
theorem agrees_self : ∀ value : Value, value.agrees value = true
  | .null => by rw [agrees]
  | .bool b => by rw [agrees, beq_self_eq_true]
  | .int n => by rw [agrees, beq_self_eq_true]
  | .float x => by rw [agrees, Binary64.agreesOrNaN_self]
  | .text s => by rw [agrees, beq_self_eq_true]
  | .sequence items => by rw [agrees, itemsAgree_self items]
  | .mapping entries => by
    rw [agrees, beq_self_eq_true, Bool.true_and]
    exact entriesIn_of_subset entries entries (List.Subset.refl entries)
  | .tagged tag value => by rw [agrees, beq_self_eq_true, agrees_self value]; rfl

theorem itemsAgree_self : ∀ items : List Value, itemsAgree items items = true
  | [] => by rw [itemsAgree]
  | item :: rest => by rw [itemsAgree, agrees_self item, itemsAgree_self rest]; rfl

theorem entriesIn_of_subset :
    ∀ entries others : List (Value × Value), entries ⊆ others → entriesIn entries others = true
  | [], _, _ => by rw [entriesIn]
  | (key, value) :: rest, others, h => by
    obtain ⟨hmem, hrest⟩ := List.cons_subset.1 h
    rw [entriesIn, entriesIn_of_subset rest others hrest, Bool.and_true, List.any_eq_true]
    exact ⟨_, hmem, by rw [agrees_self key, agrees_self value]; rfl⟩

end

end Value

/-! ### Scalars -/

theorem distinct_of_resolvePlain {text : String} {value : Value}
    (h : resolvePlain text = some value) : value.Distinct := by
  unfold resolvePlain at h
  dsimp only at h
  split at h
  · cases h
    exact .null
  · split at h
    · cases h
      exact .bool _
    · split at h
      · obtain ⟨n, -, rfl⟩ := Option.map_eq_some_iff.1 h
        exact .int n
      · split at h <;> cases h
        · exact .float _
        · exact .text text

theorem distinct_of_forced? {tag text : String} {value : Value}
    (h : forced? tag text = some (some value)) : value.Distinct := by
  unfold forced? at h
  dsimp only at h
  split at h
  · obtain ⟨b, -, rfl⟩ := Option.map_eq_some_iff.1 (Option.some.inj h)
    exact .bool b
  · split at h
    · obtain ⟨n, -, hn⟩ := Option.bind_eq_some_iff.1 (Option.some.inj h)
      obtain ⟨m, -, rfl⟩ := Option.map_eq_some_iff.1 hn
      exact .int m
    · split at h
      · obtain ⟨x, -, rfl⟩ := Option.map_eq_some_iff.1 (Option.some.inj h)
        exact .float x
      · split at h
        · split at h <;> cases h
          exact .null
        · cases h

theorem distinct_of_resolveScalar {tag : Option String} {text : String} {plain : Bool}
    {value : Value} (h : resolveScalar tag text plain = some value) : value.Distinct := by
  unfold resolveScalar at h
  split at h
  · rename_i tag
    cases hforced : forced? tag text with
    | none =>
      rw [hforced] at h
      cases h
      exact .text text
    | some forced =>
      obtain rfl : forced = some value := by rwa [hforced] at h
      exact distinct_of_forced? hforced
  · split at h
    · exact distinct_of_resolvePlain h
    · cases h
      exact .text text

/-! ### Readers -/

namespace Reader

variable {α β : Type} {P : α → Prop} {Q : β → Prop}

/-- What the reader reads, if it does not fail, has the property. -/
def Gives (P : α → Prop) (reader : Reader α) : Prop :=
  ∀ count result, reader count = .ok result → P result.1

theorem gives_pure {a : α} (h : P a) : (pure a : Reader α).Gives P := by
  rintro count _ ⟨⟩
  exact h

theorem gives_fail (fault : Fault) : (fail fault : Reader α).Gives P := fun _ _ h => nomatch h

theorem gives_bind {reader : Reader α} {f : α → Reader β} (hreader : reader.Gives P)
    (hf : ∀ a, P a → (f a).Gives Q) : (reader >>= f).Gives Q := by
  intro count result h
  have hrun : (reader >>= f) count = reader count >>= fun read => f read.1 read.2 := rfl
  rw [hrun] at h
  cases hread : reader count with
  | error fault =>
    rw [hread] at h
    cases h
  | ok read =>
    rw [hread] at h
    exact hf read.1 (hreader count read hread) read.2 result h

theorem gives_true (reader : Reader α) : reader.Gives fun _ => True := fun _ _ _ => trivial

theorem gives_mapM {ι : Type} {f : ι → Reader α} {items : List ι}
    (h : ∀ item ∈ items, (f item).Gives P) :
    (items.mapM f).Gives fun values => ∀ a ∈ values, P a := by
  induction items with
  | nil => exact gives_pure fun _ h => absurd h List.not_mem_nil
  | cons item rest ih =>
    obtain ⟨hitem, hrest⟩ := List.forall_mem_cons.1 h
    rw [List.mapM_cons]
    exact gives_bind hitem fun a ha => gives_bind (ih hrest) fun values hvalues =>
      gives_pure (List.forall_mem_cons.2 ⟨ha, hvalues⟩)

end Reader

/-! ### Documents -/

namespace Document.Source

theorem distinct_append {entries : List (Value × Value)} {key value : Value}
    (h : (Value.mapping entries).Distinct) (hkey : key.Distinct) (hvalue : value.Distinct)
    (hnew : Value.hasKey entries key = false) :
    (Value.mapping (entries ++ [(key, value)])).Distinct := by
  have hfresh : key ∉ entries.map Prod.fst := by
    intro hmem
    obtain ⟨entry, hentry, rfl⟩ := List.mem_map.1 hmem
    have hagrees := List.any_eq_false.1 hnew entry hentry
    exact hagrees (Value.agrees_self entry.1)
  cases h with
  | mapping nodup keys values =>
    refine .mapping ?_ ?_ ?_
    · rw [List.map_append, List.nodup_append]
      refine ⟨nodup, List.pairwise_singleton _ key, fun other hother same hsame heq => ?_⟩
      obtain rfl : same = key := List.mem_singleton.1 hsame
      exact hfresh (heq ▸ hother)
    · exact List.forall_mem_append.2 ⟨keys, by simpa using hkey⟩
    · exact List.forall_mem_append.2 ⟨values, by simpa using hvalue⟩

/-- Entries that are read one after the other stay distinct, since a key that comes again is
refused. -/
theorem distinct_readEntries {read : Node → Reader Value}
    (hread : ∀ node, (read node).Gives Value.Distinct) {nodes : List (Node × Node)}
    {entries : List (Value × Value)} (h : (Value.mapping entries).Distinct) :
    (readEntries read nodes entries).Gives fun entries => (Value.mapping entries).Distinct := by
  induction nodes generalizing entries with
  | nil => exact Reader.gives_pure h
  | cons node rest ih =>
    obtain ⟨keyNode, valueNode⟩ := node
    rw [readEntries]
    refine Reader.gives_bind (hread keyNode) fun key hkey => ?_
    dsimp only
    split
    · exact Reader.gives_bind (P := fun _ => False) (Reader.gives_fail .malformed) nofun
    · rename_i hnew
      refine Reader.gives_bind (hread valueNode) fun value hvalue => ih ?_
      exact distinct_append h hkey hvalue (by simpa using hnew)

theorem distinct_tagValue (tag : Option String) {value : Value} (h : value.Distinct) :
    (tagValue tag value).Distinct := by
  unfold tagValue
  split
  · exact h
  · exact .tagged _ h

theorem read_zero (source : Source) (node : Node) :
    source.read 0 node = (source.follow node >>= fun node =>
      match node with
      | .scalar tag text plain =>
        match resolveScalar (if (ownTag? tag).isSome then none else tag) text plain with
        | some value => pure (tagValue tag value)
        | none => Reader.fail .malformed
      | _ => Reader.fail .malformed) := by
  delta read
  refine bind_congr fun node => ?_
  cases node <;> rfl

theorem read_succ (source : Source) (depth : Nat) (node : Node) :
    source.read (depth + 1) node = (source.follow node >>= fun node =>
      match node with
      | .scalar tag text plain =>
        match resolveScalar (if (ownTag? tag).isSome then none else tag) text plain with
        | some value => pure (tagValue tag value)
        | none => Reader.fail .malformed
      | .sequence tag items => do
        return tagValue tag (.sequence (← items.mapM (source.read depth)))
      | .mapping tag entries => do
        return tagValue tag (.mapping (← readEntries (source.read depth) entries []))
      | _ => Reader.fail .malformed) := by
  delta read
  refine bind_congr fun node => ?_
  cases node <;> rfl

theorem distinct_scalar (tag : Option String) (text : String) (plain : Bool) :
    Reader.Gives Value.Distinct
      (match resolveScalar (if (ownTag? tag).isSome then none else tag) text plain with
      | some value => pure (tagValue tag value)
      | none => Reader.fail .malformed) := by
  split
  · rename_i value hvalue
    exact Reader.gives_pure (distinct_tagValue tag (distinct_of_resolveScalar hvalue))
  · exact Reader.gives_fail .malformed

/-- **In a value that is read no key comes twice.** -/
theorem distinct_of_read (source : Source) (depth : Nat) (node : Node) :
    (source.read depth node).Gives Value.Distinct := by
  induction depth generalizing node with
  | zero =>
    rw [read_zero]
    refine Reader.gives_bind (Reader.gives_true _) fun node _ => ?_
    cases node with
    | scalar tag text plain => exact distinct_scalar tag text plain
    | _ => exact Reader.gives_fail .malformed
  | succ depth ih =>
    rw [read_succ]
    refine Reader.gives_bind (Reader.gives_true _) fun node _ => ?_
    cases node with
    | scalar tag text plain => exact distinct_scalar tag text plain
    | sequence tag items =>
      exact Reader.gives_bind (Reader.gives_mapM fun item _ => ih item) fun values hvalues =>
        Reader.gives_pure (distinct_tagValue tag (.sequence hvalues))
    | mapping tag entries =>
      exact Reader.gives_bind (distinct_readEntries ih (.mapping .nil nofun nofun))
        fun entries hentries => Reader.gives_pure (distinct_tagValue tag hentries)
    | _ => exact Reader.gives_fail .malformed

end Document.Source

/-- A condition that is checked last does not change what was read. -/
theorem eq_ok_of_check {read : Except Fault Value} {passed : Bool} {fault : Fault} {value : Value}
    (h : (do let value ← read; if passed then return value else .error fault) = .ok value) :
    read = .ok value := by
  cases read with
  | error other => cases h
  | ok first => cases passed with
    | false => cases h
    | true => exact h

theorem Document.distinct_of_value {document : Document} {value : Value}
    (h : document.value = .ok value) : value.Distinct := by
  unfold Document.value at h
  dsimp only at h
  split at h
  · cases eq_ok_of_check h
    exact .null
  · rename_i root hroot
    obtain ⟨result, hresult, rfl⟩ := map_eq_ok_iff.1 (eq_ok_of_check h)
    exact document.source.distinct_of_read maxDepth root 0 result hresult

theorem distinct_of_readOne {text : String} {value : Value} (h : readOne text = .ok value) :
    value.Distinct := by
  unfold readOne at h
  split at h
  · cases h
  · exact Document.distinct_of_value (eq_ok_of_check h)

end Yaml

end TokenRules
