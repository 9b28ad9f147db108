import Mathlib.Data.List.Forall2
import Mathlib.Data.List.Nodup
import TokenRules.Condition
import TokenRules.NameMap.Lemmas
import TokenRules.Text.ByteOrder

/-!
# Arguments as they are given last

However arguments are given, at once or one by one, each name has the value that it is given last.
Arguments with the same last values are the same; they are shown alike, with every name once in the
order of bytes, and make the same literals.

Whether they are equal by comparison is another matter.  Arguments agree if they have the same names
and values that agree under each (`Arguments.agrees_iff`), and as a NaN is not equal to itself, they
agree with themselves if and only if none of their values holds one (`Arguments.agrees_self_iff`).
Main statement: `Arguments.told_by_last_values`.
-/

namespace TokenRules

open NameMap (GivenLast SameLast)

/-! ### Maps side by side -/

namespace NameMap

variable {α β : Type}

theorem rel_find?_of_forall₂ {R : α → β → Prop} {entries : List (String × α)}
    {others : List (String × β)}
    (h : List.Forall₂ (fun entry other => entry.1 = other.1 ∧ R entry.2 other.2) entries others)
    (name : String) : Option.Rel R ((entries.find? (·.1 == name)).map (·.2))
      ((others.find? (·.1 == name)).map (·.2)) := by
  induction h with
  | nil => exact .none
  | @cons entry other rest rest' hhead _ ih =>
    obtain ⟨hname, hvalue⟩ := hhead
    rw [List.find?_cons, List.find?_cons, hname]
    cases other.1 == name with
    | true => exact .some hvalue
    | false => exact ih

/-- Maps that bind the same names, each to related values, have them side by side. -/
theorem rel_get?_iff {R : α → β → Prop} {m : NameMap α} {n : NameMap β} :
    (∀ name, Option.Rel R (m.get? name) (n.get? name)) ↔
      List.Forall₂ (fun entry other => entry.1 = other.1 ∧ R entry.2 other.2)
        m.entries n.entries := by
  refine ⟨fun h => ?_, rel_find?_of_forall₂⟩
  have hsome : ∀ {x : Option α} {y : Option β}, Option.Rel R x y → x.isSome = y.isSome := by
    rintro _ _ (_ | _) <;> rfl
  -- the names stand side by side already, so each entry is met by the one of its name
  have hnames : List.Forall₂ (· = ·) m.names n.names := by
    rw [List.forall₂_eq_eq_eq]
    exact names_eq_iff.2 fun name => hsome (h name)
  obtain ⟨hlength, hzip⟩ := List.forall₂_iff_zip.1
    (List.forall₂_map_left_iff.1 (List.forall₂_map_right_iff.1 hnames))
  refine List.forall₂_iff_zip.2 ⟨hlength, fun {entry other} hmem => ?_⟩
  obtain ⟨hentry, hother⟩ := List.of_mem_zip hmem
  have hname : entry.1 = other.1 := hzip hmem
  have hrel := h other.1
  rw [← hname, get?_eq_some_iff.2 hentry, hname, get?_eq_some_iff.2 hother] at hrel
  exact ⟨hname, Option.rel_some_some.1 hrel⟩

/-- Under distinct names every value is the last. -/
theorem givenLast_iff_mem {bindings : List (String × α)} (h : (bindings.map Prod.fst).Nodup)
    {name : String} {value : α} : GivenLast bindings name value ↔ (name, value) ∈ bindings := by
  rw [← get?_ofList_eq_some_iff_givenLast]
  refine get?_ofList_eq_some_iff fun binding hbinding other hother hname => ?_
  exact congrArg Prod.snd (List.inj_on_of_nodup_map h hbinding hother hname)

theorem sameLast_of_perm {bindings others : List (String × α)} (hperm : bindings.Perm others)
    (h : (bindings.map Prod.fst).Nodup) : SameLast bindings others := fun name value => by
  rw [givenLast_iff_mem h, givenLast_iff_mem ((hperm.map Prod.fst).nodup_iff.1 h), hperm.mem_iff]

end NameMap

/-! ### Comparison of values -/

namespace Argument

/-- The value is a NaN or a list with one in it, at any depth. -/
inductive HoldsNaN : Argument → Prop
  | float {number : Binary64} (nan : number.isNaN = true) : HoldsNaN (.float number)
  | item {items : List Argument} {item : Argument} (mem : item ∈ items) (holds : HoldsNaN item) :
      HoldsNaN (.list items)

theorem holdsNaN_float_iff {number : Binary64} :
    HoldsNaN (.float number) ↔ number.isNaN = true :=
  ⟨fun | .float nan => nan, .float⟩

theorem holdsNaN_list_iff {items : List Argument} :
    HoldsNaN (.list items) ↔ ∃ item ∈ items, HoldsNaN item :=
  ⟨fun | .item mem holds => ⟨_, mem, holds⟩, fun ⟨_, mem, holds⟩ => .item mem holds⟩

mutual

theorem agrees_self_iff : ∀ value : Argument, value.agrees value = true ↔ ¬ value.HoldsNaN
  | .bool _ | .int _ | .text _ => ⟨fun _ => nofun, fun _ => beq_self_eq_true _⟩
  | .float number => by
    rw [agrees, Binary64.agrees, holdsNaN_float_iff]
    simp
  | .list items => by
    rw [agrees, itemsAgree_self_iff items, holdsNaN_list_iff]
    simp

theorem itemsAgree_self_iff : ∀ items : List Argument,
    itemsAgree items items = true ↔ ∀ item ∈ items, ¬ item.HoldsNaN
  | [] => by simp [itemsAgree]
  | item :: rest => by
    rw [itemsAgree, Bool.and_eq_true, agrees_self_iff item, itemsAgree_self_iff rest,
      List.forall_mem_cons]

end

theorem itemsAgree_iff_forall₂ {items others : List Argument} :
    itemsAgree items others = true ↔
      List.Forall₂ (fun item other => item.agrees other = true) items others := by
  induction items generalizing others with
  | nil => cases others <;> simp [itemsAgree]
  | cons item rest ih => cases others <;> simp [itemsAgree, ih]

end Argument

/-! ### Comparison of arguments -/

namespace Arguments

variable {args others : Arguments}

theorem agrees_iff_forall₂ : args.agrees others = true ↔
    List.Forall₂ (fun entry other => entry.1 = other.1 ∧ entry.2.agrees other.2 = true)
      args.entries others.entries := by
  rw [agrees, Bool.and_eq_true, beq_iff_eq, Argument.itemsAgree_iff_forall₂,
    ← List.forall₂_eq_eq_eq, NameMap.names, NameMap.names, List.forall₂_map_left_iff,
    List.forall₂_map_right_iff, List.forall₂_map_left_iff, List.forall₂_map_right_iff]
  simp only [List.forall₂_iff_zip]
  exact ⟨fun h => ⟨h.1.1, fun hmem => ⟨h.1.2 hmem, h.2.2 hmem⟩⟩,
    fun h => ⟨⟨h.1, fun hmem => (h.2 hmem).1⟩, h.1, fun hmem => (h.2 hmem).2⟩⟩

/-- Arguments agree if they have the same names, and values that agree under each. -/
theorem agrees_iff : args.agrees others = true ↔
    ∀ name, Option.Rel (fun value other => value.agrees other = true)
      (args.get? name) (others.get? name) := by
  rw [agrees_iff_forall₂, NameMap.rel_get?_iff]

theorem agrees_self_iff : args.agrees args = true ↔
    ∀ name value, args.get? name = some value → ¬ value.HoldsNaN := by
  rw [agrees_iff]
  refine forall_congr' fun name => ?_
  cases h : args.get? name with
  | none => simp
  | some value => simp [Argument.agrees_self_iff]

/-! ### Histories of arguments -/

/-- The arguments with more of them given, one by one. -/
def giveAll (args : Arguments) (bindings : List (String × Argument)) : Arguments :=
  bindings.foldl (fun args binding => args.insert binding.1 binding.2) args

/-- What is given at once is as if it had been given one by one. -/
theorem giveAll_ofList (start more : List (String × Argument)) :
    giveAll (.ofList start) more = .ofList (start ++ more) :=
  List.foldl_append.symm

/-- The text shows every name once, in the order of bytes. -/
theorem exists_lines (args : Arguments) :
    ∃ lines : List (String × Argument),
      args.render = String.intercalate ", "
        (lines.map fun line => line.1 ++ "=" ++ line.2.render) ∧
      (lines.map fun line => Text.bytes line.1).Pairwise (· < ·) ∧
      ∀ name value, (name, value) ∈ lines ↔ args.get? name = some value :=
  ⟨args.entries, rfl, List.pairwise_map.2 (args.ascending.imp Text.bytes_lt), fun _ _ =>
    NameMap.get?_eq_some_iff.symm⟩

end Arguments

namespace Condition

/-- The condition with arguments given to it, one by one. -/
def withArguments (condition : Condition) (bindings : List (String × Argument)) : Condition :=
  bindings.foldl (fun condition binding => condition.withArgument binding.1 binding.2) condition

theorem withArguments_atom (function : String) (args : Arguments) (negate : Bool)
    (bindings : List (String × Argument)) :
    withArguments (.atom ⟨⟨function, args⟩, negate⟩) bindings =
      .atom ⟨⟨function, args.giveAll bindings⟩, negate⟩ := by
  induction bindings generalizing args with
  | nil => rfl
  | cons binding rest ih => exact ih (args.insert binding.1 binding.2)

theorem agrees_atom_self_iff {function : String} {args : Arguments} {negate : Bool} :
    agrees (.atom ⟨⟨function, args⟩, negate⟩) (.atom ⟨⟨function, args⟩, negate⟩) = true ↔
      args.agrees args = true := by
  simp [agrees, Literal.agrees, Call.agrees]

end Condition

namespace Arguments

/-- **Arguments are told by the values that are given last.**  Made of some bindings at once and
given more one by one, they have the last value of each name and no other names; they are shown with
every name once, in the order of bytes; and if each name is given the same value last in two
histories, as when one with distinct names is put into another order, the arguments are the same and
are shown alike, and so are literals that they are given to.  By comparison, arguments are equal if
they have the same names and equal values under each, so the same arguments are equal as long as
there is no NaN among their values, which is not equal to itself. -/
theorem told_by_last_values :
    (∀ start more : List (String × Argument),
      let args := giveAll (.ofList start) more
      (∀ name value, args.get? name = some value ↔ GivenLast (start ++ more) name value) ∧
      (∀ name, args.get? name = none ↔ ∀ binding ∈ start ++ more, binding.1 ≠ name) ∧
      ∃ lines : List (String × Argument),
        args.render = String.intercalate ", "
          (lines.map fun line => line.1 ++ "=" ++ line.2.render) ∧
        (lines.map fun line => Text.bytes line.1).Pairwise (· < ·) ∧
        ∀ name value, (name, value) ∈ lines ↔ GivenLast (start ++ more) name value) ∧
    (∀ start more others rest : List (String × Argument),
      SameLast (start ++ more) (others ++ rest) →
      let args := giveAll (.ofList start) more
      giveAll (.ofList others) rest = args ∧ render (giveAll (.ofList others) rest) = args.render ∧
      (args.agrees (giveAll (.ofList others) rest) = true ↔
        ∀ name value, GivenLast (start ++ more) name value → ¬ value.HoldsNaN)) ∧
    (∀ args others : Arguments, args.agrees others = true ↔
      ∀ name, Option.Rel (fun value other => value.agrees other = true)
        (args.get? name) (others.get? name)) ∧
    (∀ bindings others : List (String × Argument), bindings.Perm others →
      (bindings.map Prod.fst).Nodup → SameLast bindings others) ∧
    ∀ (function : String) (args : Arguments) (negate : Bool)
      (bindings others : List (String × Argument)), SameLast bindings others →
      let leaf := Condition.withArguments (.atom ⟨⟨function, args⟩, negate⟩)
      leaf bindings = .atom ⟨⟨function, args.giveAll bindings⟩, negate⟩ ∧
      leaf others = leaf bindings ∧
      (Condition.agrees (leaf bindings) (leaf others) = true ↔
        ∀ name value, (args.giveAll bindings).get? name = some value → ¬ value.HoldsNaN) := by
  have hlast : ∀ (start more : List (String × Argument)) name value,
      (giveAll (.ofList start) more).get? name = some value ↔
        GivenLast (start ++ more) name value := fun start more name value => by
    rw [giveAll_ofList, NameMap.get?_ofList_eq_some_iff_givenLast]
  refine ⟨fun start more => ⟨hlast start more, fun name => ?_, ?_⟩,
    fun start more others rest h => ?_, fun _ _ => agrees_iff,
    fun _ _ => NameMap.sameLast_of_perm, fun function args negate bindings others h => ?_⟩
  · rw [giveAll_ofList, NameMap.get?_ofList_eq_none_iff]
  · obtain ⟨lines, hrender, horder, hlines⟩ := exists_lines (giveAll (.ofList start) more)
    exact ⟨lines, hrender, horder, fun name value => by rw [hlines, hlast]⟩
  · have hsame : giveAll (.ofList others) rest = giveAll (.ofList start) more := by
      rw [giveAll_ofList, giveAll_ofList, NameMap.sameLast_iff.1 h]
    refine ⟨hsame, congrArg render hsame, ?_⟩
    rw [hsame, agrees_self_iff]
    simp only [hlast]
  · have hsame : args.giveAll others = args.giveAll bindings := (h.foldl_insert_eq args).symm
    intro leaf
    simp only [leaf, Condition.withArguments_atom, hsame, Condition.agrees_atom_self_iff,
      agrees_self_iff, and_self]

/-- A value is overwritten and the names come in another order; and a literal is given the same
arguments in both orders. -/
theorem told_of_overwritten :
    let start : List (String × Argument) := [("b", .bool true)]
    let more : List (String × Argument) := [("a", .text "x"), ("b", .float .zero)]
    let rest : List (String × Argument) := [("b", .float .zero), ("a", .text "x")]
    (SameLast (start ++ more) ([] ++ rest) ∧ more.Perm rest ∧ (more.map Prod.fst).Nodup) ∧
    giveAll (.ofList []) rest = giveAll (.ofList start) more ∧
    render (giveAll (.ofList start) more) = "a=\"x\", b=0" ∧
    Condition.withArguments (Condition.call "f") rest =
      Condition.withArguments (Condition.call "f") more := by
  intro start more rest
  have hsame : SameLast (start ++ more) ([] ++ rest) := NameMap.sameLast_iff.2 rfl
  have hperm : more.Perm rest := .swap _ _ _
  have hnodup : (more.map Prod.fst).Nodup := by decide
  obtain ⟨-, hequal, -, horder, hleaf⟩ := told_by_last_values
  exact ⟨⟨hsame, hperm, hnodup⟩, (hequal _ _ _ _ hsame).1, by decide +kernel,
    (hleaf "f" ∅ false more rest (horder _ _ hperm hnodup)).2.1⟩

/-- With a NaN among them, the same arguments in another order are not equal by comparison, nor are
literals with them. -/
theorem nan_not_equal :
    let bindings : List (String × Argument) := [("a", .float .nan), ("b", .bool true)]
    let others : List (String × Argument) := [("b", .bool true), ("a", .float .nan)]
    let leaf := Condition.withArguments (Condition.call "f")
    SameLast bindings others ∧ bindings.Perm others ∧ (bindings.map Prod.fst).Nodup ∧
    agrees (.ofList bindings) (.ofList others) = false ∧
    Condition.agrees (leaf bindings) (leaf others) = false := by
  intro bindings others leaf
  exact ⟨NameMap.sameLast_iff.2 rfl, .swap _ _ _, by decide, by decide +kernel, by decide +kernel⟩

end Arguments

end TokenRules
