import Mathlib.Data.List.Perm.Basic
import TokenRules.Authoring.Decoding
import TokenRules.NameMap.Lemmas
import TokenRules.Proofs.Traversal

/-!
# Arguments as they are written

An argument is written as the value that it is read from again (`argument?_toYaml`), and a map of
arguments as a mapping: `WritesArguments` lets the entries come in any order and names that are not
given come with nulls.  Such a mapping is read as the arguments that it writes,
`decodeArguments_of_writes`.

Not every value is an argument.  A mapping, a value with a tag, and a list with a null or with one
of these in it, at any depth, is `Unfit`; a mapping of arguments with such a value in it is not
read, `exists_decodeArguments_eq_error`.
-/

namespace TokenRules

namespace Argument

/-- Sixty-four bits with a sign hold what they hold in YAML. -/
theorem toInt_bounds (value : Int64) :
    -0x8000000000000000 ≤ value.toInt ∧ value.toInt < 0x10000000000000000 := by
  have hle := value.le_toInt
  have hlt := value.toInt_lt
  omega

mutual

/-- The value that an argument is written as. -/
def toYaml : Argument → Yaml.Value
  | .bool value => .bool value
  | .int value => .int ⟨value.toInt, toInt_bounds value⟩
  | .float value => .float value
  | .text value => .text value
  | .list items => .sequence (toYamls items)

def toYamls : List Argument → List Yaml.Value
  | [] => []
  | item :: rest => item.toYaml :: toYamls rest

end

end Argument

namespace Authoring

open Yaml (Value)

/-! ### Single arguments -/

mutual

theorem argument?_toYaml : ∀ argument : Argument, argument? argument.toYaml = some argument
  | .bool _ | .float _ | .text _ => rfl
  | .int value => by
    have hlt : value.toInt < 0x8000000000000000 := value.toInt_lt
    rw [Argument.toYaml, argument?, argumentOfInt, if_pos hlt, Int64.ofInt_toInt]
  | .list items => by
    rw [Argument.toYaml, argument?, arguments?_toYamls items]
    rfl

theorem arguments?_toYamls : ∀ items : List Argument,
    arguments? (Argument.toYamls items) = some items
  | [] => rfl
  | item :: rest => by
    rw [Argument.toYamls, arguments?, argument?_toYaml item, arguments?_toYamls rest]

end

mutual

theorem isUntagged_toYaml : ∀ argument : Argument, isUntagged argument.toYaml = true
  | .bool _ | .int _ | .float _ | .text _ => rfl
  | .list items => itemsUntagged_toYamls items

theorem itemsUntagged_toYamls : ∀ items : List Argument,
    itemsUntagged (Argument.toYamls items) = true
  | [] => rfl
  | item :: rest => by
    rw [Argument.toYamls, itemsUntagged, isUntagged_toYaml item, itemsUntagged_toYamls rest]
    rfl

end

theorem decodeArgument_eq {value : Value} (h : value ≠ .null) :
    decodeArgument value =
      if isUntagged value then
        match argument? value with
        | some argument => .ok (some argument)
        | none => .error .notArgument
      else .error .taggedArgument := by
  cases value with
  | null => exact absurd rfl h
  | _ => rfl

/-- **An argument is read as it is written.** -/
theorem decodeArgument_toYaml (argument : Argument) :
    decodeArgument argument.toYaml = .ok (some argument) := by
  have hne : argument.toYaml ≠ .null := by cases argument <;> exact Value.noConfusion
  rw [decodeArgument_eq hne, if_pos (isUntagged_toYaml argument), argument?_toYaml]

/-- The value is no argument, and it does not stand for an argument that is not given either. -/
inductive Unfit : Value → Prop
  | mapping (entries : List (Value × Value)) : Unfit (.mapping entries)
  | tagged (tag : String) (value : Value) : Unfit (.tagged tag value)
  | null {items : List Value} (mem : .null ∈ items) : Unfit (.sequence items)
  | item {items : List Value} {item : Value} (mem : item ∈ items) (unfit : Unfit item) :
      Unfit (.sequence items)

theorem arguments?_eq_none {items : List Value} {item : Value} (hmem : item ∈ items)
    (h : argument? item = none) : arguments? items = none := by
  induction items with
  | nil => exact absurd hmem List.not_mem_nil
  | cons head rest ih =>
    rw [arguments?]
    rcases List.mem_cons.1 hmem with rfl | hmem
    · rw [h]
    · rw [ih hmem]
      cases argument? head <;> rfl

theorem Unfit.argument?_eq_none {value : Value} (h : Unfit value) : argument? value = none := by
  induction h with
  | mapping | tagged => rfl
  | null mem => rw [argument?, arguments?_eq_none mem rfl]; rfl
  | item mem _ ih => rw [argument?, arguments?_eq_none mem ih]; rfl

theorem Unfit.exists_decodeArgument_eq_error {value : Value} (h : Unfit value) :
    ∃ reason, decodeArgument value = .error reason := by
  have hne : value ≠ .null := by cases h <;> exact Value.noConfusion
  rw [decodeArgument_eq hne, h.argument?_eq_none]
  split
  · exact ⟨_, rfl⟩
  · exact ⟨_, rfl⟩

/-! ### Entries -/

section Entries

variable {α : Type} {decode : Value → Decoded α} {entries : List (Value × Value)}
  {results : List (String × α)}

theorem decodeEntries_cons (key value : Value) (rest : List (Value × Value)) :
    decodeEntries decode ((key, value) :: rest) =
      (decodeText key).bind fun name => (decode value).bind fun decoded =>
        (decodeEntries decode rest).map ((name, decoded) :: ·) := by
  rw [decodeEntries]
  cases decodeText key with
  | error e => rfl
  | ok name =>
    cases decode value with
    | error e => rfl
    | ok decoded => cases decodeEntries decode rest <;> rfl

/-- The key is read as the name, and the value as what it is decoded to. -/
structure ReadsAs (decode : Value → Decoded α) (entry : Value × Value) (result : String × α) :
    Prop where
  name : decodeText entry.1 = .ok result.1
  value : decode entry.2 = .ok result.2

/-- Entries are decoded one by one. -/
theorem decodeEntries_eq_ok_iff :
    decodeEntries decode entries = .ok results ↔
      List.Forall₂ (ReadsAs decode) entries results := by
  induction entries generalizing results with
  | nil => simp [decodeEntries, eq_comm]
  | cons entry rest ih =>
    obtain ⟨key, value⟩ := entry
    rw [List.forall₂_cons_left_iff, decodeEntries_cons]
    cases hkey : decodeText key with
    | error e =>
      refine ⟨fun h => (nomatch h), fun ⟨_, _, hentry, _⟩ => ?_⟩
      cases hkey.symm.trans hentry.name
    | ok name =>
      cases hvalue : decode value with
      | error e =>
        refine ⟨fun h => (nomatch h), fun ⟨_, _, hentry, _⟩ => ?_⟩
        cases hvalue.symm.trans hentry.value
      | ok decoded =>
        simp only [Except.bind, map_eq_ok_iff, ih]
        constructor
        · rintro ⟨others, hothers, rfl⟩
          exact ⟨(name, decoded), others, ⟨hkey, hvalue⟩, hothers, rfl⟩
        · rintro ⟨⟨_, _⟩, others, ⟨hname, hdecoded⟩, hothers, rfl⟩
          cases hkey.symm.trans hname
          cases hvalue.symm.trans hdecoded
          exact ⟨others, hothers, rfl⟩

/-- One entry that is not decoded is enough. -/
theorem exists_decodeEntries_eq_error {entry : Value × Value} (hmem : entry ∈ entries)
    (h : ∃ reason, decode entry.2 = .error reason) :
    ∃ reason, decodeEntries decode entries = .error reason := by
  obtain ⟨reason, hreason⟩ := h
  cases hentries : decodeEntries decode entries with
  | error other => exact ⟨other, rfl⟩
  | ok results =>
    obtain ⟨result, -, hresult⟩ :=
      exists_mem_of_forall₂ (decodeEntries_eq_ok_iff.1 hentries) hmem
    cases hreason.symm.trans hresult.value

end Entries

/-! ### Maps of arguments -/

/-- The arguments that are given in decoded entries. -/
def givenArguments (results : List (String × Option Argument)) : Arguments :=
  .ofList ((NameMap.ofList results).entries.filterMap fun entry => entry.2.map (entry.1, ·))

theorem decodeArguments_mapping (entries : List (Value × Value)) :
    decodeArguments (.mapping entries) =
      (decodeEntries decodeArgument entries).map givenArguments := by
  have hmapping : decodeMapping .mapping (.mapping entries) = .ok entries := rfl
  rw [decodeArguments, hmapping]
  show (decodeEntries decodeArgument entries >>= _) = _
  cases decodeEntries decodeArgument entries <;> rfl

/-- Arguments are read entry by entry, and put together from what the entries give. -/
theorem decodeArguments_eq_ok_iff {entries : List (Value × Value)} {args : Arguments} :
    decodeArguments (.mapping entries) = .ok args ↔
      ∃ results, List.Forall₂ (ReadsAs decodeArgument) entries results ∧
        givenArguments results = args := by
  simp only [decodeArguments_mapping, map_eq_ok_iff, decodeEntries_eq_ok_iff]

/-- An argument is given if its name is not given something else, or nothing, later. -/
theorem get?_givenArguments {results : List (String × Option Argument)} {name : String}
    {argument : Argument} : (givenArguments results).get? name = some argument ↔
      (NameMap.ofList results).get? name = some (some argument) := by
  have hgiven : ∀ {name : String} {argument : Argument},
      (name, argument) ∈ (NameMap.ofList results).entries.filterMap
        (fun entry => entry.2.map (entry.1, ·)) ↔
      (NameMap.ofList results).get? name = some (some argument) := by
    intro name argument
    rw [NameMap.get?_eq_some_iff, List.mem_filterMap]
    constructor
    · rintro ⟨⟨found, given⟩, hmem, hmap⟩
      obtain ⟨_, rfl, hpair⟩ := Option.map_eq_some_iff.1 hmap
      cases hpair
      exact hmem
    · exact fun hmem => ⟨_, hmem, rfl⟩
  refine (NameMap.get?_ofList_eq_some_iff ?_).trans hgiven
  rintro ⟨_, given⟩ hmem ⟨_, other⟩ hother rfl
  have hsame := (hgiven.1 hmem).symm.trans (hgiven.1 hother)
  exact Option.some.inj (Option.some.inj hsame)

/-- Where no name has two values, an argument is given as it is decoded. -/
theorem get?_givenArguments_eq_some_iff {results : List (String × Option Argument)}
    (h : ∀ result ∈ results, ∀ other ∈ results, result.1 = other.1 → result.2 = other.2)
    {name : String} {argument : Argument} :
    (givenArguments results).get? name = some argument ↔ (name, some argument) ∈ results :=
  get?_givenArguments.trans (NameMap.get?_ofList_eq_some_iff h)

/-- The entries write the arguments: in any order, each by its name and its value, and perhaps names
that are not given, with nulls. -/
def WritesArguments (entries : List (Value × Value)) (args : Arguments) : Prop :=
  ∃ absent : List String, (∀ name ∈ absent, args.get? name = none) ∧
    entries.Perm (args.entries.map (fun entry => (.text entry.1, entry.2.toYaml)) ++
      absent.map (.text ·, .null))

/-- **A mapping of arguments is read as the arguments that it writes**; names with nulls are
absent. -/
theorem decodeArguments_of_writes {entries : List (Value × Value)} {args : Arguments}
    (h : WritesArguments entries args) : decodeArguments (.mapping entries) = .ok args := by
  obtain ⟨absent, habsent, hperm⟩ := h
  have hgiven : List.Forall₂ (ReadsAs decodeArgument)
      (args.entries.map fun entry => (.text entry.1, entry.2.toYaml))
      (args.entries.map fun entry => (entry.1, some entry.2)) := by
    rw [List.forall₂_map_left_iff, List.forall₂_map_right_iff, List.forall₂_same]
    exact fun entry _ => ⟨rfl, decodeArgument_toYaml entry.2⟩
  have hnulls : List.Forall₂ (ReadsAs decodeArgument) (absent.map (.text ·, .null))
      (absent.map (·, none)) := by
    rw [List.forall₂_map_left_iff, List.forall₂_map_right_iff, List.forall₂_same]
    exact fun name _ => ⟨rfl, rfl⟩
  obtain ⟨results, hresults, hperm'⟩ :=
    List.perm_comp_forall₂ hperm (List.rel_append hgiven hnulls)
  -- every name is read as what the map has under it, if anything
  have hread : ∀ result ∈ results, result.2 = args.get? result.1 := by
    intro result hmem
    rcases List.mem_append.1 (hperm'.mem_iff.1 hmem) with hmem | hmem
    · obtain ⟨entry, hentry, rfl⟩ := List.mem_map.1 hmem
      exact (NameMap.get?_eq_some_iff.2 hentry).symm
    · obtain ⟨name, hname, rfl⟩ := List.mem_map.1 hmem
      exact (habsent name hname).symm
  have hgivenMem : ∀ {name argument}, (name, some argument) ∈ results ↔
      args.get? name = some argument := by
    intro name argument
    refine ⟨fun hmem => (hread _ hmem).symm, fun hget => hperm'.mem_iff.2 ?_⟩
    have hentry := NameMap.get?_eq_some_iff.1 hget
    exact List.mem_append_left _ (List.mem_map.2 ⟨(name, argument), hentry, rfl⟩)
  have hfunctional : ∀ result ∈ results, ∀ other ∈ results, result.1 = other.1 →
      result.2 = other.2 := by
    intro result hmem other hother hname
    rw [hread result hmem, hread other hother, hname]
  refine decodeArguments_eq_ok_iff.2 ⟨results, hresults, ?_⟩
  refine NameMap.ext_get? fun name => Option.ext fun argument => ?_
  exact (get?_givenArguments_eq_some_iff hfunctional).trans hgivenMem

/-- One value that is unfit for an argument is enough. -/
theorem exists_decodeArguments_eq_error {entries : List (Value × Value)} {entry : Value × Value}
    (hmem : entry ∈ entries) (h : Unfit entry.2) :
    ∃ reason, decodeArguments (.mapping entries) = .error reason := by
  obtain ⟨reason, hreason⟩ :=
    exists_decodeEntries_eq_error hmem h.exists_decodeArgument_eq_error
  exact ⟨reason, by rw [decodeArguments_mapping, hreason]; rfl⟩

end Authoring

end TokenRules
