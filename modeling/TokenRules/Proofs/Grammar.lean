import Mathlib.Logic.Relation
import TokenRules.Proofs.DistinctKeys
import TokenRules.Proofs.ShapeGrammar

/-!
# The grammar of authored conditions

`Spells` says which values are conditions, and of which tree: a value has to be written
as a shape, and what the shape is made of has to spell conditions in turn.  A value of
which the keys have no tags is turned into a condition if and only if it spells it
(`normalize_eq_ok_iff_spells`); that no key comes twice is true of every value that is
read (`distinct_of_read`).

The rules of the grammar do not look at the order of keys, so values that are
`Reordered` spell the same (`Spells.of_reordered`).  `SpellsBlock` adds what a block of
a rule may be besides.  Main statement: `accepts_grammar`.
-/

namespace TokenRules.Authoring

open Yaml (Value)

/-! ### Conditions -/

/-- The value is written as a shape, and what it is made of spells conditions in turn; the condition
that it spells is put together from these. -/
inductive Spells : Value → Condition → Prop
  | call {node : Value} {function : String} (shape : Shape.Written node (.call function none)) :
      Spells node (.call function)
  | callWith {node given : Value} {function : String} {args : Arguments}
      (shape : Shape.Written node (.call function (some given)))
      (decoded : decodeArguments given = .ok args) : Spells node (.atom ⟨⟨function, args⟩, false⟩)
  | not {node inner : Value} {condition : Condition} (shape : Shape.Written node (.not inner))
      (part : Spells inner condition) : Spells node (.not condition)
  | all {node : Value} {nodes : List Value} {conditions : List Condition}
      (shape : Shape.Written node (.all nodes)) (parts : List.Forall₂ Spells nodes conditions) :
      Spells node (.all conditions)
  | any {node : Value} {nodes : List Value} {conditions : List Condition}
      (shape : Shape.Written node (.any nodes)) (parts : List.Forall₂ Spells nodes conditions) :
      Spells node (.any conditions)
  | lists {node : Value} {names : List String} (shape : Shape.Written node (.lists names)) :
      Spells node (.any (names.map Condition.inList))
  | words {node : Value} {words : List String} (shape : Shape.Written node (.words words)) :
      Spells node (.any [Condition.inWords words])

/-- `part` is what the other value, if it is a mapping, has as a condition under a keyword. -/
inductive Inside (node : Value) : Value → Prop
  | negated {entries : List (Value × Value)} {part : Value}
      (mapping : node.asMapping? = some entries) (mem : (.text "not", part) ∈ entries) :
      Inside node part
  | member {entries : List (Value × Value)} {name : String} {value part : Value}
      {items : List Value} (group : name = "all" ∨ name = "any")
      (mapping : node.asMapping? = some entries) (mem : (.text name, value) ∈ entries)
      (sequence : value.asSequence? = some items) (item : part ∈ items) : Inside node part

theorem distinct_of_asMapping? {node : Value} {entries : List (Value × Value)} (h : node.Distinct)
    (hmapping : node.asMapping? = some entries) :
    (entries.map Prod.fst).Nodup ∧ ∀ entry ∈ entries, entry.2.Distinct := by
  have huntagged := h.untagged
  rw [untagged_of_asMapping? hmapping] at huntagged
  cases huntagged with
  | mapping nodup keys values => exact ⟨nodup, values⟩

theorem distinct_of_inside {node part : Value} (h : node.Distinct) (hpart : Inside node part) :
    part.Distinct := by
  cases hpart with
  | negated mapping mem => exact (distinct_of_asMapping? h mapping).2 _ mem
  | member group mapping mem sequence item =>
    have huntagged := ((distinct_of_asMapping? h mapping).2 _ mem).untagged
    rw [untagged_of_asSequence? sequence] at huntagged
    cases huntagged with
    | sequence parts => exact parts _ item

/-- No key comes twice, as in every value that is read, and no key has a tag in the mappings that
are conditions in the value, itself included.  This leaves out a keyword under a tag, at which the
work breaks down (`TaggedKeyword`), and `args` under a tag, which is lost. -/
structure PlainKeys (node : Value) : Prop where
  distinct : node.Distinct
  untagged : ∀ part, Relation.ReflTransGen Inside node part →
    ∀ entries, part.asMapping? = some entries → ∀ entry ∈ entries, entry.1.untagged = entry.1

namespace PlainKeys

variable {node part : Value}

theorem entries (h : PlainKeys node) :
    ∀ entries, node.asMapping? = some entries → PlainEntries entries := fun entries hmapping =>
  ⟨h.untagged node .refl entries hmapping, (distinct_of_asMapping? h.distinct hmapping).1⟩

theorem inside (h : PlainKeys node) (hpart : Inside node part) : PlainKeys part :=
  ⟨distinct_of_inside h.distinct hpart, fun other hother => h.untagged other (.head hpart hother)⟩

theorem not_taggedKeyword (h : PlainKeys node) : ¬ Shape.TaggedKeyword node := by
  rintro ⟨keyword, before, after, key, value, hmapping, ⟨hname, htag⟩, -⟩
  have huntagged := h.untagged node .refl _ hmapping (key, value) (by simp)
  exact htag ((asText?_eq_some_iff huntagged).1 hname)

theorem of_inside (hdistinct : node.Distinct)
    (hentries : ∀ entries, node.asMapping? = some entries →
      ∀ entry ∈ entries, entry.1.untagged = entry.1)
    (hinside : ∀ part, Inside node part → PlainKeys part) : PlainKeys node := by
  refine ⟨hdistinct, fun part hpart => ?_⟩
  rcases hpart.cases_head with rfl | ⟨other, hother, hrest⟩
  · exact hentries
  · exact (hinside other hother).untagged part hrest

end PlainKeys

theorem Shape.Written.inside {node : Value} {shape : Shape} (h : Written node shape) {part : Value}
    (hpart : part ∈ shape.parts) : Inside node part := by
  cases h with
  | not entries =>
    obtain ⟨others, hmapping, hperm⟩ := entries
    obtain rfl := List.mem_singleton.1 hpart
    exact .negated hmapping (hperm.symm.subset List.mem_cons_self)
  | all entries items =>
    obtain ⟨others, hmapping, hperm⟩ := entries
    exact .member (.inl rfl) hmapping (hperm.symm.subset List.mem_cons_self) items hpart
  | any entries items =>
    obtain ⟨others, hmapping, hperm⟩ := entries
    exact .member (.inr rfl) hmapping (hperm.symm.subset List.mem_cons_self) items hpart
  | _ => exact absurd hpart List.not_mem_nil

/-- Items are converted in turn if each of them is. -/
theorem eachFrom_eq_ok_iff {α : Type} {step : Nat → Step} {convert : α → Except NodeError Condition}
    {R : α → Condition → Prop} {items : List α}
    (h : ∀ item ∈ items, ∀ condition, convert item = .ok condition ↔ R item condition)
    {conditions : List Condition} {index : Nat} :
    eachFrom step convert index items = .ok conditions ↔ List.Forall₂ R items conditions := by
  induction items generalizing index conditions with
  | nil => simp [eachFrom, eq_comm]
  | cons item rest ih =>
    obtain ⟨hitem, hrest⟩ := List.forall_mem_cons.1 h
    rw [List.forall₂_cons_left_iff, eachFrom]
    cases hconvert : convert item with
    | error e =>
      constructor
      · intro h
        cases h
      · rintro ⟨condition, others, hcondition, -, -⟩
        cases hconvert.symm.trans ((hitem condition).2 hcondition)
    | ok condition =>
      rw [map_eq_ok_iff]
      constructor
      · rintro ⟨others, hothers, rfl⟩
        exact ⟨condition, others, (hitem condition).1 hconvert, (ih hrest).1 hothers, rfl⟩
      · rintro ⟨other, others, hother, hothers, rfl⟩
        cases hconvert.symm.trans ((hitem other).2 hother)
        exact ⟨others, (ih hrest).2 hothers, rfl⟩

section Normalization

variable {node : Value} {shape : Shape} {condition : Condition}

theorem spells_of_expand (hshape : Shape.Written node shape)
    (hparts : ∀ part ∈ shape.parts, ∀ condition,
      normalize part = .ok condition ↔ Spells part condition)
    (h : shape.expand = .ok condition) : Spells node condition := by
  cases shape with
  | call function given =>
    cases given with
    | none =>
      cases h
      exact .call hshape
    | some given =>
      obtain ⟨args, hargs, rfl⟩ := map_eq_ok_iff.1 h
      exact .callWith hshape (mapError_eq_ok_iff.1 hargs)
  | not inner =>
    obtain ⟨condition, hcondition, rfl⟩ := map_eq_ok_iff.1 h
    exact .not hshape ((hparts _ List.mem_cons_self _).1 (mapError_eq_ok_iff.1 hcondition))
  | all nodes =>
    obtain ⟨conditions, hconditions, rfl⟩ := map_eq_ok_iff.1 h
    exact .all hshape ((eachFrom_eq_ok_iff hparts).1 hconditions)
  | any nodes =>
    obtain ⟨conditions, hconditions, rfl⟩ := map_eq_ok_iff.1 h
    exact .any hshape ((eachFrom_eq_ok_iff hparts).1 hconditions)
  | lists names =>
    cases h
    exact .lists hshape
  | words words =>
    cases h
    exact .words hshape

theorem exists_expand_of_spells (h : Spells node condition) :
    ∃ shape, Shape.Written node shape ∧
      ((∀ part ∈ shape.parts, ∀ condition,
          normalize part = .ok condition ↔ Spells part condition) →
        shape.expand = .ok condition) := by
  cases h with
  | call shape => exact ⟨_, shape, fun _ => rfl⟩
  | callWith shape decoded =>
    exact ⟨_, shape, fun _ => map_eq_ok_iff.2 ⟨_, mapError_eq_ok_iff.2 decoded, rfl⟩⟩
  | not shape part =>
    exact ⟨_, shape, fun hparts => map_eq_ok_iff.2
      ⟨_, mapError_eq_ok_iff.2 ((hparts _ List.mem_cons_self _).2 part), rfl⟩⟩
  | all shape parts | any shape parts =>
    exact ⟨_, shape, fun hparts => map_eq_ok_iff.2 ⟨_, (eachFrom_eq_ok_iff hparts).2 parts, rfl⟩⟩
  | lists shape | words shape => exact ⟨_, shape, fun _ => rfl⟩

/-- **A value is turned into the condition that it spells.** -/
theorem normalize_eq_ok_iff_spells (h : PlainKeys node) :
    normalize node = .ok condition ↔ Spells node condition := by
  induction node using Shape.node_induction generalizing condition with
  | step node ih =>
    have hrecognize (shape : Shape) : Shape.recognize node = .ok shape ↔ Shape.Written node shape :=
      Shape.recognize_eq_ok_iff_written h.entries
    have hparts : ∀ shape, Shape.Written node shape → ∀ part ∈ shape.parts, ∀ condition,
        normalize part = .ok condition ↔ Spells part condition := fun shape hshape part hpart _ =>
      ih shape ((hrecognize shape).2 hshape) part hpart (h.inside (hshape.inside hpart))
    rw [normalize_eq]
    constructor
    · intro hnormalize
      split at hnormalize
      · cases hnormalize
      · rename_i shape heq
        have hshape := (hrecognize shape).1 heq
        exact spells_of_expand hshape (hparts shape hshape) hnormalize
    · intro hspells
      obtain ⟨shape, hshape, hexpand⟩ := exists_expand_of_spells hspells
      rw [(hrecognize shape).2 hshape]
      exact hexpand (hparts shape hshape)

end Normalization

/-! ### Order of keys -/

/-- The two values are the same conditions up to the order of the keys in the mappings that are
conditions, at any depth. -/
inductive Reordered : Value → Value → Prop
  | refl (node : Value) : Reordered node node
  | trans {node other third : Value} (first : Reordered node other)
      (second : Reordered other third) : Reordered node third
  | keys {node other : Value} {entries others : List (Value × Value)}
      (mapping : node.asMapping? = some entries) (mapping' : other.asMapping? = some others)
      (perm : entries.Perm others) : Reordered node other
  | negated {node other inner inner' : Value} {before after : List (Value × Value)}
      (mapping : node.asMapping? = some (before ++ (.text "not", inner) :: after))
      (mapping' : other.asMapping? = some (before ++ (.text "not", inner') :: after))
      (part : Reordered inner inner') : Reordered node other
  | member {node other value value' item item' : Value} {before after : List (Value × Value)}
      {items more : List Value} {keyword : Keyword} (group : keyword = .all ∨ keyword = .any)
      (mapping : node.asMapping? = some (before ++ (.text keyword.name, value) :: after))
      (mapping' : other.asMapping? = some (before ++ (.text keyword.name, value') :: after))
      (sequence : value.asSequence? = some (items ++ item :: more))
      (sequence' : value'.asSequence? = some (items ++ item' :: more))
      (part : Reordered item item') : Reordered node other

theorem Reordered.symm {node other : Value} (h : Reordered node other) : Reordered other node := by
  induction h with
  | refl node => exact .refl node
  | trans _ _ ih ih' => exact .trans ih' ih
  | keys mapping mapping' perm => exact .keys mapping' mapping perm.symm
  | negated mapping mapping' _ ih => exact .negated mapping' mapping ih
  | member group mapping mapping' sequence sequence' _ ih =>
    exact .member group mapping' mapping sequence' sequence ih

namespace Shape

variable {node value : Value} {shape : Shape} (keyword : Keyword)

/-- A keyword other than that of a function is the only key. -/
theorem Written.only (h : Written node shape) (hkeyword : keyword ≠ .function)
    {before after : List (Value × Value)}
    (hmapping : node.asMapping? = some (before ++ (.text keyword.name, value) :: after)) :
    before = [] ∧ after = [] ∧ Expresses [] keyword value shape := by
  obtain ⟨other, value', args, ⟨entries, heq, hperm⟩, hargs, hexpresses⟩ := written_iff.1 h
  cases hmapping.symm.trans heq
  have hmem : (Value.text keyword.name, value) ∈ keywordEntries other value' args :=
    hperm.subset (List.mem_append_right _ List.mem_cons_self)
  rcases List.mem_cons.1 hmem with hsame | hargument
  · obtain ⟨hname, rfl⟩ : keyword.name = other.name ∧ value = value' := by simpa using hsame
    obtain rfl : keyword = other := by
      simpa [ofName?_name] using congrArg Keyword.ofName? hname
    obtain rfl := hargs hkeyword
    obtain ⟨rfl, rfl⟩ : before = [] ∧ after = [] := by
      simpa [keywordEntries, List.append_eq_singleton_iff] using hperm
    exact ⟨rfl, rfl, hexpresses.congr (lookup?_keywordEntries keyword value none)⟩
  · obtain ⟨given, -, hgiven⟩ := List.mem_map.1 hargument
    cases keyword.name_ne_args (by simpa using (congrArg Prod.fst hgiven).symm)

theorem written_of_expresses (hmapping : node.asMapping? = some [(.text keyword.name, value)])
    (h : Expresses [] keyword value shape) : Written node shape :=
  written_iff.2 ⟨keyword, value, none, ⟨_, hmapping, .refl _⟩, fun _ => rfl,
    h.congr (lookup?_keywordEntries keyword value none).symm⟩

end Shape

theorem forall₂_of_replace {α β : Type} {R : α → β → Prop} {a b : α} (h : ∀ c, R a c → R b c)
    {before after : List α} {others : List β}
    (hall : List.Forall₂ R (before ++ a :: after) others) :
    List.Forall₂ R (before ++ b :: after) others := by
  obtain ⟨left, c, right, rfl, hbefore, ha, hafter⟩ := exists_append_cons_of_forall₂ hall
  exact List.rel_append hbefore (.cons (h c ha) hafter)

theorem Spells.of_written {node other : Value} {condition : Condition}
    (h : ∀ shape, Shape.Written node shape → Shape.Written other shape)
    (hspells : Spells node condition) : Spells other condition := by
  cases hspells with
  | call shape => exact .call (h _ shape)
  | callWith shape decoded => exact .callWith (h _ shape) decoded
  | not shape part => exact .not (h _ shape) part
  | all shape parts => exact .all (h _ shape) parts
  | any shape parts => exact .any (h _ shape) parts
  | lists shape => exact .lists (h _ shape)
  | words shape => exact .words (h _ shape)

/-- **The order of keys does not matter.** -/
theorem Spells.of_reordered {node other : Value} {condition : Condition} (h : Reordered node other)
    (hspells : Spells node condition) : Spells other condition := by
  induction h generalizing condition with
  | refl node => exact hspells
  | trans _ _ ih ih' => exact ih' (ih hspells)
  | keys mapping mapping' perm =>
    refine hspells.of_written fun shape hshape => ?_
    obtain ⟨keyword, value, args, ⟨entries, heq, hperm⟩, hrest⟩ := Shape.written_iff.1 hshape
    cases mapping.symm.trans heq
    exact Shape.written_iff.2
      ⟨keyword, value, args, ⟨_, mapping', perm.symm.trans hperm⟩, hrest⟩
  | negated mapping mapping' _ ih =>
    cases hspells with
    | not shape part =>
      obtain ⟨rfl, rfl, hinner⟩ := Shape.Written.only .not shape (by decide) mapping
      cases hinner
      exact .not (Shape.written_of_expresses .not mapping' rfl) (ih part)
    | call shape | callWith shape | all shape | any shape | lists shape | words shape =>
      cases (Shape.Written.only .not shape (by decide) mapping).2.2
  | member group mapping mapping' sequence sequence' _ ih =>
    rcases group with rfl | rfl
    · cases hspells with
      | all shape parts =>
        obtain ⟨rfl, rfl, nodes, hnodes, hshape⟩ :=
          Shape.Written.only .all shape (by decide) mapping
        cases hshape
        cases sequence.symm.trans (Shape.itemsOf_eq_ok_iff.1 hnodes)
        exact .all (Shape.written_of_expresses .all mapping'
            ⟨_, Shape.itemsOf_eq_ok_iff.2 sequence', rfl⟩)
          (forall₂_of_replace (fun _ => ih) parts)
      | call shape | callWith shape | not shape | any shape | lists shape | words shape =>
        obtain ⟨-, -, _, -, hshape⟩ := Shape.Written.only .all shape (by decide) mapping
        cases hshape
    · cases hspells with
      | any shape parts =>
        obtain ⟨rfl, rfl, nodes, hnodes, hshape⟩ :=
          Shape.Written.only .any shape (by decide) mapping
        cases hshape
        cases sequence.symm.trans (Shape.itemsOf_eq_ok_iff.1 hnodes)
        exact .any (Shape.written_of_expresses .any mapping'
            ⟨_, Shape.itemsOf_eq_ok_iff.2 sequence', rfl⟩)
          (forall₂_of_replace (fun _ => ih) parts)
      | call shape | callWith shape | not shape | all shape | lists shape | words shape =>
        obtain ⟨-, -, _, -, hshape⟩ := Shape.Written.only .any shape (by decide) mapping
        cases hshape

/-! ### Blocks -/

/-- What a block of an authored rule spells: nothing if it is absent or empty, or else a condition.
A sequence of conditions stands for all of them, but not among the exceptions. -/
inductive SpellsBlock (block : Block) : Option Value → Option Condition → Prop
  | absent : SpellsBlock block none none
  | null : SpellsBlock block (some .null) none
  | emptyMapping : SpellsBlock block (some (.mapping [])) none
  | emptySequence : SpellsBlock block (some (.sequence [])) none
  | all {item : Value} {items : List Value} {conditions : List Condition}
      (conditional : block = .conditions)
      (parts : List.Forall₂ Spells (item :: items) conditions) :
      SpellsBlock block (some (.sequence (item :: items))) (some (.all conditions))
  | one {node : Value} {condition : Condition} (part : Spells node condition) :
      SpellsBlock block (some node) (some condition)

/-- Conditions are plain where the block has them: it may be one, or a sequence of them. -/
structure PlainBlock (value : Option Value) : Prop where
  node : ∀ node ∈ value, PlainKeys node
  items : ∀ items, value = some (.sequence items) → ∀ item ∈ items, PlainKeys item

theorem Shape.Written.exists_entry {node : Value} {shape : Shape} (h : Written node shape) :
    ∃ entry entries, node.asMapping? = some (entry :: entries) := by
  obtain ⟨keyword, value, args, ⟨entries, hmapping, hperm⟩, -⟩ := Shape.written_iff.1 h
  cases entries with
  | nil => cases hperm.symm.subset List.mem_cons_self
  | cons entry entries => exact ⟨entry, entries, hmapping⟩

theorem normalizeBlock_of_entry {block : Block} {node : Value} {entry : Value × Value}
    {entries : List (Value × Value)} (h : node.asMapping? = some (entry :: entries)) :
    normalizeBlock block (some node) = (normalize node).map some := by
  cases node with
  | null => cases h
  | sequence items => cases h
  | mapping entries =>
    cases h
    rfl
  | _ => rfl

theorem normalizeBlock_eq_ok_iff_spells {block : Block} {value : Option Value}
    (h : PlainBlock value) {found : Option Condition} :
    normalizeBlock block value = .ok found ↔ SpellsBlock block value found := by
  have hnode : ∀ node, value = some node → ∀ {condition}, normalize node = .ok condition ↔
      Spells node condition := fun node heq => normalize_eq_ok_iff_spells (h.node node heq)
  have hitems : ∀ items, value = some (.sequence items) → ∀ item ∈ items, ∀ condition,
      normalize item = .ok condition ↔ Spells item condition := fun items heq item hmem _ =>
    normalize_eq_ok_iff_spells (h.items items heq item hmem)
  constructor
  · intro hfound
    unfold normalizeBlock at hfound
    split at hfound
    · cases hfound
      exact .absent
    · cases hfound
      exact .null
    · cases hfound
      exact .emptyMapping
    · cases hfound
      exact .emptySequence
    · rename_i item items
      split at hfound
      · rename_i hblock
        obtain ⟨conditions, hconditions, rfl⟩ := map_eq_ok_iff.1 hfound
        exact .all hblock ((eachFrom_eq_ok_iff (hitems _ rfl)).1 hconditions)
      · obtain ⟨condition, hcondition, rfl⟩ := map_eq_ok_iff.1 hfound
        exact .one ((hnode _ rfl).1 hcondition)
    · rename_i node _ _ _ _
      obtain ⟨condition, hcondition, rfl⟩ := map_eq_ok_iff.1 hfound
      exact .one ((hnode node rfl).1 hcondition)
  · intro hspells
    cases hspells with
    | absent | null | emptyMapping | emptySequence => rfl
    | all hblock parts =>
      rw [normalizeBlock, if_pos hblock]
      exact map_eq_ok_iff.2 ⟨_, (eachFrom_eq_ok_iff (hitems _ rfl)).2 parts, rfl⟩
    | one part =>
      obtain ⟨shape, hshape, -⟩ := exists_expand_of_spells part
      obtain ⟨entry, entries, hmapping⟩ := hshape.exists_entry
      rw [normalizeBlock_of_entry hmapping]
      exact map_eq_ok_iff.2 ⟨_, (hnode _ rfl).2 part, rfl⟩

/-- **The parser of conditions accepts its grammar.**  Where keys have no tags, a value is turned
into a condition if and only if it spells that condition, so neither whether it is accepted nor
what becomes of it depends on the order of keys; and a block is accepted if it spells a condition,
is absent or empty, or, for conditions, is a sequence of values that spell conditions.  That no key
comes twice is true of all that is read. -/
theorem accepts_grammar :
    (∀ node, PlainKeys node → ∀ condition, normalize node = .ok condition ↔ Spells node condition) ∧
    (∀ node other, PlainKeys node → PlainKeys other → Reordered node other →
      ∀ condition, normalize node = .ok condition ↔ normalize other = .ok condition) ∧
    (∀ block value, PlainBlock value →
      ∀ found, normalizeBlock block value = .ok found ↔ SpellsBlock block value found) ∧
    ∀ text value, Yaml.readOne text = .ok value → value.Distinct := by
  refine ⟨fun node h condition => normalize_eq_ok_iff_spells h, ?_, fun block value h found =>
    normalizeBlock_eq_ok_iff_spells h, fun text value => Yaml.distinct_of_readOne⟩
  intro node other hnode hother hreordered condition
  rw [normalize_eq_ok_iff_spells hnode, normalize_eq_ok_iff_spells hother]
  exact ⟨.of_reordered hreordered, .of_reordered hreordered.symm⟩

/-- The opposite of a call whose arguments are null, in both orders of the keys of the call. -/
theorem accepts_negated_call :
    let call := Value.mapping [(.text "function", .text "f"), (.text "args", .null)]
    let turned := Value.mapping [(.text "args", .null), (.text "function", .text "f")]
    let node (inner : Value) := Value.mapping [(.text "not", inner)]
    (PlainKeys (node call) ∧ PlainKeys (node turned) ∧ Reordered (node call) (node turned) ∧
      PlainBlock (some (node call))) ∧
    normalize (node call) = .ok (.not (Condition.call "f")) ∧
      normalize (node turned) = .ok (.not (Condition.call "f")) ∧
      normalizeBlock .exceptions (some (node call)) = .ok (some (.not (Condition.call "f"))) ∧
      ∃ value, Yaml.readOne "not: {function: f, args: null}" = .ok value ∧ value.Distinct := by
  intro call turned node
  have hleaf : ∀ leaf ∈ [call, turned], PlainKeys leaf := by
    intro leaf hleaf
    rcases List.mem_pair.1 hleaf with rfl | rfl
    all_goals
      refine .of_inside ?_ ?_ ?_
      · exact .mapping (by simp) (by simp [Value.Distinct.text])
          (by simp [Value.Distinct.text, Value.Distinct.null])
      · rintro _ ⟨⟩
        simp [Value.untagged]
      · rintro _ (⟨⟨⟩, hmem⟩ | ⟨rfl | rfl, ⟨⟩, hmem⟩) <;> simp at hmem
  have hplain : ∀ leaf ∈ [call, turned], PlainKeys (node leaf) := by
    intro leaf hmem
    have hinner := hleaf leaf hmem
    refine .of_inside ?_ ?_ ?_
    · exact .mapping (by simp) (by simp [Value.Distinct.text]) (by simp [hinner.distinct])
    · rintro _ ⟨⟩
      simp [Value.untagged]
    · rintro part (⟨⟨⟩, hpart⟩ | ⟨rfl | rfl, ⟨⟩, hpart⟩)
      · obtain rfl : part = leaf := by simpa using hpart
        exact hinner
      all_goals simp at hpart
  have hcall : PlainKeys (node call) := hplain call List.mem_cons_self
  have hturned : PlainKeys (node turned) := hplain turned (by simp)
  have hblock : PlainBlock (some (node call)) :=
    ⟨fun _ h => Option.some.inj h ▸ hcall, fun _ h => by cases h⟩
  have hreordered : Reordered (node call) (node turned) :=
    @Reordered.negated _ _ _ _ [] [] rfl rfl (.keys rfl rfl (.swap _ _ _))
  have hspells : Spells (node call) (.not (Condition.call "f")) :=
    .not (.not ⟨_, rfl, .refl _⟩) (.call (.functionNull ⟨_, rfl, .refl _⟩ rfl))
  have htext : ∃ value, Yaml.readOne "not: {function: f, args: null}" = .ok value := by
    have hok : (Yaml.readOne "not: {function: f, args: null}").isOk := by decide +kernel
    cases h : Yaml.readOne "not: {function: f, args: null}" with
    | error fault =>
      rw [h] at hok
      cases hok
    | ok value => exact ⟨value, rfl⟩
  obtain ⟨value, hvalue⟩ := htext
  obtain ⟨hnormalize, horder, hblocks, hread⟩ := accepts_grammar
  have hresult := (hnormalize _ hcall _).2 hspells
  exact ⟨⟨hcall, hturned, hreordered, hblock⟩, hresult,
    (horder _ _ hcall hturned hreordered _).1 hresult, (hblocks _ _ hblock _).2 (.one hspells),
    value, hvalue, hread _ value hvalue⟩

end TokenRules.Authoring
