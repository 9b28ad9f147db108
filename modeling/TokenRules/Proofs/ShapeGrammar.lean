import Mathlib.Data.List.Nodup
import Mathlib.Data.List.Perm.Basic
import TokenRules.Proofs.Expansion

/-!
# The grammar of shapes

Recognition goes through the keys of a mapping once and then looks its values up.
`Shape.Written` says what is recognized in the end, by one rule for every way to write
a shape; no rule looks at the order of the keys (`HasEntries`).

If no key has a tag or comes twice (`PlainEntries`), a keyword is found in a mapping of
the entry of the keyword and perhaps one of arguments, in any order, and in no other
(`hasKeyword_and_lookup?_iff`).  So recognition accepts what is written as a shape:
`recognize_eq_ok_iff_written`.
-/

namespace TokenRules.Authoring

open Yaml (Value)

/-! ### Entries of a mapping -/

/-- No key has a tag, and no key comes twice. -/
structure PlainEntries (entries : List (Value × Value)) : Prop where
  untagged : ∀ entry ∈ entries, entry.1.untagged = entry.1
  nodup : (entries.map Prod.fst).Nodup

theorem asText?_eq_some_iff {key : Value} (h : key.untagged = key) {name : String} :
    key.asText? = some name ↔ key = .text name := by
  rw [Value.asText?, h]
  cases key <;> simp

theorem lookup?_eq_some_iff {entries : List (Value × Value)} (h : (entries.map Prod.fst).Nodup)
    {name : String} {value : Value} :
    Value.lookup? entries name = some value ↔ (.text name, value) ∈ entries := by
  refine ⟨Value.mem_of_lookup?, fun hmem => ?_⟩
  cases hlookup : Value.lookup? entries name with
  | none => exact absurd rfl (Value.lookup?_eq_none_iff.1 hlookup _ hmem)
  | some other =>
    have heq := List.inj_on_of_nodup_map h (Value.mem_of_lookup? hlookup) hmem rfl
    exact congrArg (some ·.2) heq

/-! ### Shapes -/

/-- The value is a mapping, perhaps under tags, of just these entries in any order. -/
def HasEntries (node : Value) (entries : List (Value × Value)) : Prop :=
  ∃ others, node.asMapping? = some others ∧ others.Perm entries

/-- How a shape is written. -/
inductive Shape.Written (node : Value) : Shape → Prop
  | function {value : Value} {function : String}
      (entries : HasEntries node [(.text "function", value)])
      (name : value.asText? = some function) : Written node (.call function none)
  | functionNull {value : Value} {function : String}
      (entries : HasEntries node [(.text "function", value), (.text "args", .null)])
      (name : value.asText? = some function) : Written node (.call function none)
  | functionArgs {value : Value} {function : String} {args : List (Value × Value)}
      (entries : HasEntries node [(.text "function", value), (.text "args", .mapping args)])
      (name : value.asText? = some function) : Written node (.call function (some (.mapping args)))
  | not {inner : Value} (entries : HasEntries node [(.text "not", inner)]) :
      Written node (.not inner)
  | all {value : Value} {nodes : List Value} (entries : HasEntries node [(.text "all", value)])
      (items : value.asSequence? = some nodes) : Written node (.all nodes)
  | any {value : Value} {nodes : List Value} (entries : HasEntries node [(.text "any", value)])
      (items : value.asSequence? = some nodes) : Written node (.any nodes)
  | lists {value : Value} {nodes : List Value} {names : List String}
      (entries : HasEntries node [(.text "lists", value)])
      (items : value.asSequence? = some nodes) (texts : nodes.mapM Value.asText? = some names) :
      Written node (.lists names)
  | words {value : Value} {nodes : List Value} {words : List String}
      (entries : HasEntries node [(.text "words", value)])
      (items : value.asSequence? = some nodes) (texts : nodes.mapM Value.asText? = some words) :
      Written node (.words words)

namespace Shape

variable {node : Value} {entries : List (Value × Value)}

/-- The entry of a keyword and perhaps one of arguments. -/
def keywordEntries (keyword : Keyword) (value : Value) (args : Option Value) :
    List (Value × Value) :=
  (.text keyword.name, value) :: args.toList.map (.text "args", ·)

theorem lookup?_args (h : PlainEntries entries) {keyword : Keyword} {value : Value}
    {args : Option Value} (hperm : entries.Perm (keywordEntries keyword value args)) :
    Value.lookup? entries "args" = args := by
  cases args with
  | none =>
    refine Value.lookup?_eq_none_iff.2 fun entry hmem => ?_
    obtain rfl := List.mem_singleton.1 (hperm.subset hmem)
    exact fun h => keyword.name_ne_args (Value.text.inj h)
  | some given =>
    exact (lookup?_eq_some_iff h.nodup).2 (hperm.symm.subset (by simp [keywordEntries]))

/-- A keyword is found with its value if there is nothing beside it but arguments. -/
theorem hasKeyword_and_lookup?_iff (h : PlainEntries entries) {keyword : Keyword} {value : Value}
    {args : Option Value} :
    HasKeyword entries keyword value ∧ Value.lookup? entries "args" = args ↔
      entries.Perm (keywordEntries keyword value args) := by
  constructor
  · rintro ⟨hkeyword, hlookup⟩
    obtain ⟨before, after, rfl, hothers⟩ := hkeyword.exists_split
    have hperm : (before ++ (.text keyword.name, value) :: after).Perm
        ((.text keyword.name, value) :: (before ++ after)) := List.perm_middle
    have hrest : ∀ entry ∈ before ++ after, entry.1 = .text "args" := by
      intro entry hmem
      have huntagged := h.untagged entry (hperm.mem_iff.2 (List.mem_cons_of_mem _ hmem))
      exact (asText?_eq_some_iff huntagged).1 (hothers entry hmem)
    have hnodup := (hperm.map Prod.fst).nodup_iff.1 h.nodup
    generalize before ++ after = rest at hperm hrest hnodup
    obtain ⟨args, rfl⟩ : ∃ args : Option Value, rest = args.toList.map (.text "args", ·) := by
      rcases rest with _ | ⟨⟨key, given⟩, _ | ⟨⟨other, more⟩, rest⟩⟩
      · exact ⟨none, rfl⟩
      · obtain rfl : key = _ := hrest _ List.mem_cons_self
        exact ⟨some given, rfl⟩
      · obtain rfl : key = _ := hrest _ List.mem_cons_self
        obtain rfl : other = _ := hrest _ (List.mem_cons_of_mem _ List.mem_cons_self)
        simp at hnodup
    rwa [← hlookup, lookup?_args h hperm]
  · intro hperm
    have hmem : (Value.text keyword.name, value) ∈ entries :=
      hperm.symm.subset List.mem_cons_self
    refine ⟨⟨?_, (lookup?_eq_some_iff h.nodup).2 hmem⟩, lookup?_args h hperm⟩
    obtain ⟨before, after, rfl⟩ := List.append_of_mem hmem
    refine findKeyword_eq_ok_iff.2 ⟨before, _, after, rfl, rfl, fun other hother => ?_⟩
    have hrest := (List.perm_middle.symm.trans hperm).cons_inv
    obtain ⟨given, -, rfl⟩ := List.mem_map.1 (hrest.subset hother)
    rfl

theorem lookup?_keywordEntries (keyword : Keyword) (value : Value) (args : Option Value) :
    Value.lookup? (keywordEntries keyword value args) "args" = args := by
  cases keyword <;> cases args <;> rfl

/-- Of the entries beside the keyword only the arguments count. -/
theorem Expresses.congr {others : List (Value × Value)} {keyword : Keyword} {value : Value}
    {shape : Shape} (h : Expresses entries keyword value shape)
    (hargs : Value.lookup? entries "args" = Value.lookup? others "args") :
    Expresses others keyword value shape := by
  cases keyword with
  | function =>
    obtain ⟨function, args, hname, hfindArgs, rfl⟩ := h
    exact ⟨function, args, hname, by rwa [findArgs, ← hargs], rfl⟩
  | _ => exact h

/-- A shape is written by one keyword, and only a function has arguments. -/
theorem written_iff {shape : Shape} :
    Written node shape ↔ ∃ keyword value args, HasEntries node (keywordEntries keyword value args) ∧
      (keyword ≠ .function → args = none) ∧
      Expresses (keywordEntries keyword value args) keyword value shape := by
  constructor
  · intro h
    cases h with
    | function entries name =>
      exact ⟨.function, _, none, entries, fun _ => rfl, _, _, name, rfl, rfl⟩
    | functionNull entries name =>
      exact ⟨.function, _, some .null, entries, fun h => absurd rfl h, _, _, name, rfl, rfl⟩
    | functionArgs entries name =>
      exact ⟨.function, _, some (.mapping _), entries, fun h => absurd rfl h, _, _, name, rfl, rfl⟩
    | not entries => exact ⟨.not, _, none, entries, fun _ => rfl, rfl⟩
    | all entries items =>
      exact ⟨.all, _, none, entries, fun _ => rfl, _, itemsOf_eq_ok_iff.2 items, rfl⟩
    | any entries items =>
      exact ⟨.any, _, none, entries, fun _ => rfl, _, itemsOf_eq_ok_iff.2 items, rfl⟩
    | lists entries items texts =>
      exact ⟨.lists, _, none, entries, fun _ => rfl, _, textsOf_eq_ok_iff.2 ⟨_, items, texts⟩, rfl⟩
    | words entries items texts =>
      exact ⟨.words, _, none, entries, fun _ => rfl, _, textsOf_eq_ok_iff.2 ⟨_, items, texts⟩, rfl⟩
  · rintro ⟨keyword, value, args, hentries, hargs, hexpresses⟩
    cases keyword with
    | function =>
      obtain ⟨function, given, hname, hfindArgs, rfl⟩ := hexpresses
      rw [findArgs, lookup?_keywordEntries] at hfindArgs
      split at hfindArgs <;> cases hfindArgs
      · exact .function hentries hname
      · exact .functionNull hentries hname
      · exact .functionArgs hentries hname
    | not =>
      obtain rfl := hargs (by decide)
      obtain rfl := hexpresses
      exact .not hentries
    | all | any =>
      obtain rfl := hargs (by decide)
      obtain ⟨nodes, hnodes, rfl⟩ := hexpresses
      constructor
      · exact hentries
      · exact itemsOf_eq_ok_iff.1 hnodes
    | lists | words =>
      obtain rfl := hargs (by decide)
      obtain ⟨texts, hvalue, rfl⟩ := hexpresses
      obtain ⟨nodes, hnodes, htexts⟩ := textsOf_eq_ok_iff.1 hvalue
      constructor
      · exact hentries
      · exact hnodes
      · exact htexts

/-- **Recognition accepts what is written as a shape.** -/
theorem recognize_eq_ok_iff_written
    (h : ∀ entries, node.asMapping? = some entries → PlainEntries entries) {shape : Shape} :
    recognize node = .ok shape ↔ Written node shape := by
  rw [recognize_eq_ok_iff, written_iff]
  constructor
  · rintro ⟨entries, keyword, value, hmapping, hkeyword, hargs, hexpresses⟩
    have hperm := (hasKeyword_and_lookup?_iff (h entries hmapping)).1 ⟨hkeyword, rfl⟩
    exact ⟨keyword, value, _, ⟨entries, hmapping, hperm⟩, hargs,
      hexpresses.congr (lookup?_keywordEntries ..).symm⟩
  · rintro ⟨keyword, value, args, ⟨entries, hmapping, hperm⟩, hargs, hexpresses⟩
    obtain ⟨hkeyword, rfl⟩ := (hasKeyword_and_lookup?_iff (h entries hmapping)).2 hperm
    exact ⟨entries, keyword, value, hmapping, hkeyword, hargs,
      hexpresses.congr (lookup?_keywordEntries ..)⟩

theorem plainEntries_of_perm {keyword : Keyword} {value : Value} {args : Option Value}
    (hperm : entries.Perm (keywordEntries keyword value args)) : PlainEntries entries := by
  have huntagged : ∀ entry ∈ keywordEntries keyword value args, entry.1.untagged = entry.1 := by
    intro entry hmem
    rcases List.mem_cons.1 hmem with rfl | hmem
    · rfl
    · obtain ⟨given, -, rfl⟩ := List.mem_map.1 hmem
      rfl
  have hnodup : ((keywordEntries keyword value args).map Prod.fst).Nodup := by
    cases args with
    | none => exact List.nodup_singleton _
    | some given =>
      have hne : Value.text keyword.name ≠ .text "args" := fun h =>
        keyword.name_ne_args (Value.text.inj h)
      simpa [keywordEntries] using hne
  exact ⟨fun entry hmem => huntagged entry (hperm.mem_iff.1 hmem),
    (hperm.map Prod.fst).nodup_iff.2 hnodup⟩

/-- What is written as a shape has no other keys, so it is recognized. -/
theorem Written.recognize_eq_ok {shape : Shape} (h : Written node shape) :
    recognize node = .ok shape := by
  refine (recognize_eq_ok_iff_written fun others hothers => ?_).2 h
  obtain ⟨keyword, value, args, ⟨entries, hentries, hperm⟩, -⟩ := written_iff.1 h
  cases hentries.symm.trans hothers
  exact plainEntries_of_perm hperm

end Shape

end TokenRules.Authoring
