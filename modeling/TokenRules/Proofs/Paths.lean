import TokenRules.Proofs.ShapeGrammar

/-!
# Paths to nodes

An error shows the way to a node as a text, the name of the block followed by the steps.  The text
is read from left to right without looking ahead, `readPath?`, and it is read as the block and the
steps that it was written for (`readPath?_renderPath`).

Where a step goes is said of the values alone, without a shape: to the value under a keyword, or to
an item of the sequence there (`Step.into?`).  From a node with a shape the steps to its branches go
to the branches (`Shape.into?_of_mem_branches`).
-/

namespace TokenRules.Authoring

open Yaml (Value)

/-! ### Texts of paths -/

mutual

/-- The steps of a text. -/
def readSteps? : List Char → Option (List Step)
  | [] => some []
  | '.' :: 'n' :: 'o' :: 't' :: rest => (readSteps? rest).map (.not :: ·)
  | '.' :: 'a' :: 'l' :: 'l' :: '[' :: rest => readIndexed? .all 0 rest
  | '.' :: 'a' :: 'n' :: 'y' :: '[' :: rest => readIndexed? .any 0 rest
  | '[' :: rest => readIndexed? .item 0 rest
  | _ => none

/-- The steps of a text that begins inside the brackets of a step, behind digits that have been
read as a number. -/
def readIndexed? (step : Nat → Step) (number : Nat) : List Char → Option (List Step)
  | [] => none
  | c :: rest =>
    if c = ']' then (readSteps? rest).map (step number :: ·)
    else if c.isDigit then readIndexed? step (10 * number + (c.toNat - '0'.toNat)) rest
    else none

end

/-- The block and the steps that a path names. -/
def readPath? (path : String) : Option (Block × List Step) :=
  [Block.conditions, .exceptions].findSome? fun block =>
    (block.name.toList.isPrefixOf? path.toList).bind fun rest =>
      (readSteps? rest).map (block, ·)

theorem readIndexed?_digits {digits : List Char} (h : ∀ c ∈ digits, c.isDigit = true)
    (step : Nat → Step) (number : Nat) (rest : List Char) :
    readIndexed? step number (digits ++ ']' :: rest) =
      (readSteps? rest).map (step (Nat.ofDigitChars 10 digits number) :: ·) := by
  induction digits generalizing number with
  | nil => rw [List.nil_append, readIndexed?, if_pos rfl, Nat.ofDigitChars_nil]
  | cons c digits ih =>
    obtain ⟨hc, hdigits⟩ := List.forall_mem_cons.1 h
    have hclose : c ≠ ']' := by
      rintro rfl
      exact absurd hc (by decide)
    rw [List.cons_append, readIndexed?, if_neg hclose, if_pos hc, ih hdigits,
      Nat.ofDigitChars_cons]

theorem readIndexed?_toString (step : Nat → Step) (index : Nat) (rest : List Char) :
    readIndexed? step 0 ((toString index).toList ++ ']' :: rest) =
      (readSteps? rest).map (step index :: ·) := by
  have hdigits : ∀ c ∈ Nat.toDigits 10 index, c.isDigit = true := fun c =>
    Nat.isDigit_of_mem_toDigits (by decide) (by decide)
  rw [Nat.toString_eq_repr, Nat.toList_repr, readIndexed?_digits hdigits,
    Nat.ofDigitChars_ten_toDigits]

theorem readSteps?_render (step : Step) (rest : List Char) :
    readSteps? (step.render.toList ++ rest) = (readSteps? rest).map (step :: ·) := by
  cases step with
  | not => simp [Step.render, readSteps?]
  | all index | any index | item index =>
    simp [Step.render, readSteps?, ← readIndexed?_toString]

theorem readSteps?_renderAll (steps : List Step) :
    readSteps? (steps.flatMap (·.render.toList)) = some steps := by
  induction steps with
  | nil => rfl
  | cons step rest ih => rw [List.flatMap_cons, readSteps?_render, ih, Option.map_some]

theorem isPrefixOf?_append {α : Type} [BEq α] [LawfulBEq α] (front rest : List α) :
    front.isPrefixOf? (front ++ rest) = some rest := by
  induction front with
  | nil => rfl
  | cons a front ih => rw [List.cons_append, List.isPrefixOf?, if_pos (beq_self_eq_true a), ih]

/-- **A path is read as what it was written for.** -/
theorem readPath?_renderPath (block : Block) (steps : List Step) :
    readPath? (renderPath block steps) = some (block, steps) := by
  have htext : (renderPath block steps).toList =
      block.name.toList ++ steps.flatMap (·.render.toList) := by
    rw [renderPath, String.toList_append, String.toList_join, List.flatMap_map]
  have hread : ((block.name.toList.isPrefixOf? (renderPath block steps).toList).bind fun rest =>
      (readSteps? rest).map (block, ·)) = some (block, steps) := by
    rw [htext, isPrefixOf?_append, Option.bind_some, readSteps?_renderAll, Option.map_some]
  cases block with
  | conditions => rw [readPath?, List.findSome?_cons, hread]
  | exceptions =>
    have hother : Block.conditions.name.toList.isPrefixOf?
        (renderPath .exceptions steps).toList = none := by
      rw [htext]
      rfl
    rw [readPath?, List.findSome?_cons, hother, Option.bind_none, List.findSome?_cons, hread]

/-! ### Following steps -/

/-- The value under a keyword, if the node is a mapping that has it. -/
def under? (keyword : Keyword) (node : Value) : Option Value :=
  node.asMapping?.bind fun entries =>
    (entries.find? fun entry => entry.1.asText? == some keyword.name).map (·.2)

/-- The item at an index, counted from zero, if the value is a sequence that has it. -/
def itemAt? (index : Nat) (value : Value) : Option Value := value.asSequence?.bind (·[index]?)

/-- Where a step goes from a node. -/
def Step.into? : Step → Value → Option Value
  | .not, node => under? .not node
  | .all index, node => (under? .all node).bind (itemAt? index)
  | .any index, node => (under? .any node).bind (itemAt? index)
  | .item index, node => itemAt? index node

/-- Where steps go from a node, one after the other. -/
def follow? (steps : List Step) (node : Value) : Option Value :=
  steps.foldlM (fun node step => step.into? node) node

theorem follow?_cons (step : Step) (steps : List Step) (node : Value) :
    follow? (step :: steps) node = (step.into? node).bind (follow? steps) := by
  rw [follow?, List.foldlM_cons]
  rfl

namespace Shape

/-- The conditions that a shape is made of, each with the step that goes to it. -/
def branches : Shape → List (Step × Value)
  | .not inner => [(.not, inner)]
  | .all nodes => nodes.zipIdx.map fun item => (.all item.2, item.1)
  | .any nodes => nodes.zipIdx.map fun item => (.any item.2, item.1)
  | _ => []

theorem mem_parts_of_mem_branches {shape : Shape} {branch : Step × Value}
    (h : branch ∈ shape.branches) : branch.2 ∈ shape.parts := by
  cases shape with
  | not inner => exact List.mem_singleton.2 (congrArg Prod.snd (List.mem_singleton.1 h))
  | all nodes | any nodes =>
    obtain ⟨item, hitem, rfl⟩ := List.mem_map.1 h
    exact List.fst_mem_of_mem_zipIdx hitem
  | call | lists | words => exact absurd h List.not_mem_nil

/-- The keyword of a mapping is the first of its keys that reads as one. -/
theorem find?_of_hasKeyword {entries : List (Value × Value)} {keyword : Keyword} {value : Value}
    (h : HasKeyword entries keyword value) :
    (entries.find? fun entry => entry.1.asText? == some keyword.name).map (·.2) = some value := by
  obtain ⟨before, after, rfl, hothers⟩ := h.exists_split
  have hbefore : before.find? (fun entry => entry.1.asText? == some keyword.name) = none := by
    refine List.find?_eq_none.2 fun entry hmem => ?_
    simp [hothers entry (List.mem_append_left _ hmem), keyword.name_ne_args.symm]
  have hkey : (Value.text keyword.name).asText? = some keyword.name := rfl
  simp [List.find?_append, hbefore, hkey]

/-- **The steps to the branches of a shape go to the branches.** -/
theorem into?_of_mem_branches {node : Value} {shape : Shape} (h : recognize node = .ok shape)
    {branch : Step × Value} (hbranch : branch ∈ shape.branches) :
    branch.1.into? node = some branch.2 := by
  obtain ⟨entries, keyword, value, hentries, hkeyword, -, hshape⟩ := recognize_eq_ok_iff.1 h
  have hunder : under? keyword node = some value := by
    rw [under?, hentries]
    exact find?_of_hasKeyword hkeyword
  have hitem {items : List Value} (hitems : itemsOf keyword value = .ok items)
      {item : Value × Nat} (hmem : item ∈ items.zipIdx) :
      (under? keyword node).bind (itemAt? item.2) = some item.1 := by
    rw [hunder, Option.bind_some, itemAt?, itemsOf_eq_ok_iff.1 hitems]
    exact List.mem_zipIdx_iff_getElem?.1 hmem
  cases keyword with
  | not =>
    obtain rfl : shape = .not value := hshape
    obtain rfl := List.mem_singleton.1 hbranch
    exact hunder
  | all | any =>
    obtain ⟨items, hitems, rfl⟩ := hshape
    obtain ⟨item, hmem, rfl⟩ := List.mem_map.1 hbranch
    exact hitem hitems hmem
  | function =>
    obtain ⟨_, _, -, -, rfl⟩ := hshape
    exact absurd hbranch List.not_mem_nil
  | lists | words =>
    obtain ⟨_, -, rfl⟩ := hshape
    exact absurd hbranch List.not_mem_nil

end Shape

end TokenRules.Authoring
