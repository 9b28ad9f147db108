import TokenRules.Authoring.Compilation
import TokenRules.Proofs.Traversal

/-!
# Expansion of authored conditions

What recognition and normalization do to a node, said once.  A node with a shape is
a mapping with one keyword, and the shape is what the keyword and its value make of
it (`recognize_eq_ok_iff`); where the keyword stands under a tag, the value is not
found and the work breaks down (`recognize_eq_crash_iff`).  A node is turned into a
condition by its shape (`normalize_eq`), where the members of a group are turned into
conditions in order (`map_of_eachFrom`).  `node_induction` is induction on nodes by
the parts of their shapes.
-/

namespace TokenRules.Authoring

open Yaml (Value)

/-! ### Values under tags -/

theorem untagged_of_asMapping? {node : Value} {entries : List (Value × Value)}
    (h : node.asMapping? = some entries) : node.untagged = .mapping entries := by
  unfold Value.asMapping? at h
  split at h
  · cases h
    assumption
  · cases h

theorem untagged_of_asSequence? {value : Value} {items : List Value}
    (h : value.asSequence? = some items) : value.untagged = .sequence items := by
  unfold Value.asSequence? at h
  split at h
  · cases h
    assumption
  · cases h

theorem ne_text_of_asText? {key : Value} {name other : String} (h : key.asText? = some name)
    (hne : name ≠ other) : key ≠ .text other := by
  rintro rfl
  exact hne (Option.some.inj h).symm

theorem lookup?_append_cons_eq_none_iff {before after : List (Value × Value)}
    {entry : Value × Value} {name : String} :
    Value.lookup? (before ++ entry :: after) name = none ↔
      entry.1 ≠ .text name ∧ ∀ other ∈ before ++ after, other.1 ≠ .text name := by
  rw [Value.lookup?_eq_none_iff, List.forall_mem_append, List.forall_mem_cons,
    List.forall_mem_append]
  exact and_left_comm

/-! ### Shapes -/

theorem Keyword.name_ne_args (keyword : Keyword) : keyword.name ≠ "args" := by
  cases keyword <;> decide

namespace Shape

theorem ofName?_name (keyword : Keyword) : Keyword.ofName? keyword.name = some keyword := by
  cases keyword <;> rfl

theorem name_of_ofName? {name : String} {keyword : Keyword}
    (h : Keyword.ofName? name = some keyword) : keyword.name = name := by
  simpa using List.find?_some h

theorem itemsOf_eq_ok_iff {keyword : Keyword} {value : Value} {items : List Value} :
    itemsOf keyword value = .ok items ↔ value.asSequence? = some items := by
  unfold itemsOf
  cases value.asSequence? <;> simp

theorem textsOf_eq_ok_iff {keyword : Keyword} {value : Value} {texts : List String} :
    textsOf keyword value = .ok texts ↔
      ∃ items, value.asSequence? = some items ∧ items.mapM Value.asText? = some texts := by
  unfold textsOf itemsOf
  cases value.asSequence? with
  | none => simp [bind, Except.bind]
  | some items => cases htexts : items.mapM Value.asText? <;> simp [bind, Except.bind, htexts]

section FindKeyword

variable {entries : List (Value × Value)}

/-- A key is either passed over or taken for the one keyword. -/
theorem findKeyword_cons_eq_ok_iff {entry : Value × Value} {found : Option Keyword}
    {result : Keyword} :
    findKeyword (entry :: entries) found = .ok result ↔
      (entry.1.asText? = some "args" ∧ findKeyword entries found = .ok result) ∨
        ∃ keyword : Keyword, entry.1.asText? = some keyword.name ∧ found = none ∧
          findKeyword entries (some keyword) = .ok result := by
  obtain ⟨key, value⟩ := entry
  constructor
  · intro hfound
    unfold findKeyword at hfound
    split at hfound
    · cases hfound
    · rename_i name htext
      split at hfound
      · rename_i keyword hname
        exact .inr ⟨keyword, by rw [htext, name_of_ofName? hname], rfl, hfound⟩
      · cases hfound
      · split at hfound
        · rename_i hargs
          exact .inl ⟨by rw [htext, hargs], hfound⟩
        · cases hfound
  · rintro (⟨htext, hfound⟩ | ⟨keyword, htext, rfl, hfound⟩)
    · have hname : Keyword.ofName? "args" = none := rfl
      simpa only [findKeyword, htext, hname, if_true] using hfound
    · simpa only [findKeyword, htext, ofName?_name] using hfound

/-- After a keyword only keys that read as `args` are passed over. -/
theorem findKeyword_some_eq_ok_iff {found result : Keyword} :
    findKeyword entries (some found) = .ok result ↔
      found = result ∧ ∀ entry ∈ entries, entry.1.asText? = some "args" := by
  induction entries with
  | nil => simp [findKeyword]
  | cons entry rest ih =>
    rw [findKeyword_cons_eq_ok_iff, ih, List.forall_mem_cons]
    simp only [reduceCtorEq, false_and, and_false, exists_false, or_false]
    exact and_left_comm

/-- **The keyword of a mapping is what the one key reads as that does not read as `args`.** -/
theorem findKeyword_eq_ok_iff {keyword : Keyword} :
    findKeyword entries none = .ok keyword ↔
      ∃ before entry after, entries = before ++ entry :: after ∧
        entry.1.asText? = some keyword.name ∧
        ∀ other ∈ before ++ after, other.1.asText? = some "args" := by
  induction entries with
  | nil => simp [findKeyword]
  | cons entry rest ih =>
    rw [findKeyword_cons_eq_ok_iff, ih]
    simp only [findKeyword_some_eq_ok_iff]
    constructor
    · rintro (⟨hargs, before, found, after, rfl, hname, hothers⟩ | ⟨_, hname, -, rfl, hothers⟩)
      · exact ⟨entry :: before, found, after, rfl, hname, List.forall_mem_cons.2 ⟨hargs, hothers⟩⟩
      · exact ⟨[], entry, rest, rfl, hname, hothers⟩
    · rintro ⟨_ | ⟨head, before⟩, found, after, heq, hname, hothers⟩
      · cases heq
        exact .inr ⟨keyword, hname, trivial, rfl, hothers⟩
      · cases heq
        obtain ⟨hargs, hothers⟩ := List.forall_mem_cons.1 hothers
        exact .inl ⟨hargs, before, found, after, rfl, hname, hothers⟩

end FindKeyword

/-- The one keyword of a mapping, and the value that is found under it. -/
structure HasKeyword (entries : List (Value × Value)) (keyword : Keyword) (value : Value) :
    Prop where
  found : findKeyword entries none = .ok keyword
  valued : Value.lookup? entries keyword.name = some value

/-- The keyword stands without a tag among keys that read as `args`. -/
theorem HasKeyword.exists_split {entries : List (Value × Value)} {keyword : Keyword} {value : Value}
    (h : HasKeyword entries keyword value) :
    ∃ before after, entries = before ++ (.text keyword.name, value) :: after ∧
      ∀ other ∈ before ++ after, other.1.asText? = some "args" := by
  obtain ⟨before, entry, after, rfl, -, hothers⟩ := findKeyword_eq_ok_iff.1 h.found
  have hmem := List.perm_middle.mem_iff.1 (Value.mem_of_lookup? h.valued)
  rcases List.mem_cons.1 hmem with rfl | hmem
  · exact ⟨before, after, rfl, hothers⟩
  · cases keyword.name_ne_args (Option.some.inj (hothers _ hmem))

/-- What a keyword and its value make of a mapping. -/
def Expresses (entries : List (Value × Value)) (keyword : Keyword) (value : Value)
    (shape : Shape) : Prop :=
  match keyword with
  | .function => ∃ function args, value.asText? = some function ∧ findArgs entries = .ok args ∧
      shape = .call function args
  | .not => shape = .not value
  | .all => ∃ items, itemsOf .all value = .ok items ∧ shape = .all items
  | .any => ∃ items, itemsOf .any value = .ok items ∧ shape = .any items
  | .lists => ∃ names, textsOf .lists value = .ok names ∧ shape = .lists names
  | .words => ∃ texts, textsOf .words value = .ok texts ∧ shape = .words texts

theorem ofKeyword_eq_ok_iff {entries : List (Value × Value)} {keyword : Keyword} {value : Value}
    {shape : Shape} :
    ofKeyword entries value keyword = .ok shape ↔ Expresses entries keyword value shape := by
  cases keyword with
  | function =>
    cases hfunction : value.asText? with
    | none => simp [ofKeyword, Expresses, hfunction]
    | some function =>
      simp only [ofKeyword, Expresses, hfunction, map_eq_ok_iff, Option.some.injEq,
        exists_and_left, exists_eq_left']
      exact exists_congr fun _ => and_congr_right fun _ => eq_comm
  | not => exact ⟨fun h => (Except.ok.inj h).symm, fun h => congrArg _ h.symm⟩
  | all | any | lists | words =>
    exact map_eq_ok_iff.trans (exists_congr fun _ => and_congr_right fun _ => eq_comm)

section Recognize

variable {node : Value}

/-- Once a keyword is found, and no arguments beside it but for a function, its value decides. -/
theorem recognize_of_findKeyword {entries : List (Value × Value)} {keyword : Keyword}
    (hentries : node.asMapping? = some entries) (hfound : findKeyword entries none = .ok keyword)
    (hargs : keyword ≠ .function → Value.lookup? entries "args" = none) :
    recognize node =
      match Value.lookup? entries keyword.name with
      | none => .error .crash
      | some value => (ofKeyword entries value keyword).mapError .reported := by
  have hallowed : ¬ (keyword ≠ .function ∧ (Value.lookup? entries "args").isSome) :=
    fun ⟨hkeyword, hsome⟩ => by simp [hargs hkeyword] at hsome
  cases hvalue : Value.lookup? entries keyword.name <;>
    simp only [recognize, hentries, hfound, if_neg hallowed, hvalue]

/-- A keyword is found, unless an error is reported. -/
theorem exists_findKeyword_of_not_reported
    (h : ∀ reason, recognize node ≠ .error (.reported reason)) :
    ∃ entries keyword, node.asMapping? = some entries ∧ findKeyword entries none = .ok keyword ∧
      (keyword ≠ .function → Value.lookup? entries "args" = none) := by
  unfold recognize at h
  split at h
  · exact absurd rfl (h _)
  · rename_i entries hentries
    split at h
    · exact absurd rfl (h _)
    · rename_i keyword hfound
      split at h
      · exact absurd rfl (h _)
      · rename_i hargs
        exact ⟨entries, keyword, hentries, hfound, fun hkeyword =>
          Option.not_isSome_iff_eq_none.1 fun hsome => hargs ⟨hkeyword, hsome⟩⟩

/-- A node with a shape is a mapping with one keyword, no arguments but for a function, and the
shape is what the keyword and its value make of it. -/
theorem recognize_eq_ok_iff {shape : Shape} :
    recognize node = .ok shape ↔ ∃ entries keyword value, node.asMapping? = some entries ∧
      HasKeyword entries keyword value ∧
      (keyword ≠ .function → Value.lookup? entries "args" = none) ∧
      Expresses entries keyword value shape := by
  constructor
  · intro h
    obtain ⟨entries, keyword, hentries, hfound, hargs⟩ :=
      exists_findKeyword_of_not_reported fun reason heq => by cases h.symm.trans heq
    rw [recognize_of_findKeyword hentries hfound hargs] at h
    split at h
    · cases h
    · rename_i value hvalue
      exact ⟨entries, keyword, value, hentries, ⟨hfound, hvalue⟩, hargs,
        ofKeyword_eq_ok_iff.1 (mapError_eq_ok_iff.1 h)⟩
  · rintro ⟨entries, keyword, value, hentries, hkeyword, hargs, hshape⟩
    rw [recognize_of_findKeyword hentries hkeyword.found hargs, hkeyword.valued]
    exact mapError_eq_ok_iff.2 (ofKeyword_eq_ok_iff.2 hshape)

/-- The one keyword of the mapping stands under a tag.  The other keys read as `args`, and they
stand under tags too unless the keyword is that of a function. -/
def TaggedKeyword (node : Value) : Prop :=
  ∃ (keyword : Keyword) (before after : List (Value × Value)) (key value : Value),
    node.asMapping? = some (before ++ (key, value) :: after) ∧
    (key.asText? = some keyword.name ∧ key ≠ .text keyword.name) ∧
    ∀ other ∈ before ++ after,
      other.1.asText? = some "args" ∧ (keyword ≠ .function → other.1 ≠ .text "args")

/-- **Recognition breaks down at a keyword under a tag, and only there.** -/
theorem recognize_eq_crash_iff : recognize node = .error .crash ↔ TaggedKeyword node := by
  constructor
  · intro h
    obtain ⟨entries, keyword, hentries, hfound, hargs⟩ :=
      exists_findKeyword_of_not_reported fun reason heq => by cases h.symm.trans heq
    rw [recognize_of_findKeyword hentries hfound hargs] at h
    split at h
    · rename_i hnone
      obtain ⟨before, ⟨key, value⟩, after, rfl, hname, hothers⟩ := findKeyword_eq_ok_iff.1 hfound
      have htag : key ≠ .text keyword.name := (lookup?_append_cons_eq_none_iff.1 hnone).1
      refine ⟨keyword, before, after, key, value, hentries, ⟨hname, htag⟩, fun other hmem =>
        ⟨hothers other hmem, fun hkeyword => ?_⟩⟩
      exact (lookup?_append_cons_eq_none_iff.1 (hargs hkeyword)).2 other hmem
    · rename_i value _
      cases hshape : ofKeyword entries value keyword <;> rw [hshape] at h <;> cases h
  · rintro ⟨keyword, before, after, key, value, hentries, ⟨hname, htag⟩, hothers⟩
    have hfound : findKeyword (before ++ (key, value) :: after) none = .ok keyword :=
      findKeyword_eq_ok_iff.2 ⟨before, _, after, rfl, hname, fun other h => (hothers other h).1⟩
    have hargs : keyword ≠ .function →
        Value.lookup? (before ++ (key, value) :: after) "args" = none := fun hkeyword =>
      lookup?_append_cons_eq_none_iff.2 ⟨ne_text_of_asText? hname keyword.name_ne_args,
        fun other hmem => (hothers other hmem).2 hkeyword⟩
    have hnone : Value.lookup? (before ++ (key, value) :: after) keyword.name = none :=
      lookup?_append_cons_eq_none_iff.2 ⟨htag, fun other hmem =>
        ne_text_of_asText? (hothers other hmem).1 keyword.name_ne_args.symm⟩
    rw [recognize_of_findKeyword hentries hfound hargs, hnone]

end Recognize

/-- Induction on authored conditions by the parts of their shapes. -/
theorem node_induction {motive : Value → Prop}
    (step : ∀ node, (∀ shape, recognize node = .ok shape → ∀ part ∈ shape.parts, motive part) →
      motive node) (node : Value) : motive node := by
  induction hsize : sizeOf node using Nat.strongRecOn generalizing node with
  | ind size ih =>
    refine step node fun shape hshape part hpart => ?_
    have hlt : sizeOf part < sizeOf node := sizeOf_lt_of_recognize hshape hpart
    exact ih (sizeOf part) (hsize ▸ hlt) part rfl

end Shape

/-! ### Normalization -/

/-- Items that are converted one after the other keep what they say. -/
theorem map_of_eachFrom {α β : Type} {step : Nat → Step} {convert : α → Except NodeError Condition}
    {before : α → β} {after : Condition → β} {items : List α} {conditions : List Condition}
    {index : Nat} (h : eachFrom step convert index items = .ok conditions)
    (hconvert : ∀ item ∈ items, ∀ condition, convert item = .ok condition →
      after condition = before item) : conditions.map after = items.map before := by
  induction items generalizing index conditions with
  | nil =>
    cases h
    rfl
  | cons item rest ih =>
    rw [eachFrom] at h
    cases hitem : convert item with
    | error e =>
      rw [hitem] at h
      cases h
    | ok condition =>
      rw [hitem] at h
      obtain ⟨others, hothers, rfl⟩ := map_eq_ok_iff.1 h
      have hrest := ih hothers fun other hmem => hconvert other (List.mem_cons_of_mem _ hmem)
      rw [List.map_cons, List.map_cons, hconvert item List.mem_cons_self condition hitem, hrest]

theorem eachFrom_map {α β : Type} (step : Nat → Step) (convert : β → Except NodeError Condition)
    (f : α → β) (index : Nat) (items : List α) :
    eachFrom step convert index (items.map f) =
      eachFrom step (fun item => convert (f item)) index items := by
  induction items generalizing index with
  | nil => rfl
  | cons item rest ih => rw [List.map_cons, eachFrom, eachFrom, ih]

/-- The proofs of membership that the recursion carries along play no part. -/
theorem eachFrom_attach {α : Type} (step : Nat → Step) (convert : α → Except NodeError Condition)
    (index : Nat) (items : List α) :
    eachFrom step (fun item : { item // item ∈ items } => convert item.1) index items.attach =
      eachFrom step convert index items := by
  rw [← eachFrom_map step convert Subtype.val, List.attach_map_subtype_val]

/-- The condition that a shape is turned into. -/
def Shape.expand : Shape → Except NodeError Condition
  | .call function none => .ok (.call function)
  | .call function (some args) =>
    ((decodeArguments args).mapError fun reason => ⟨[], .reported (.invalidArguments reason)⟩).map
      fun args => .atom ⟨⟨function, args⟩, false⟩
  | .not inner => ((normalize inner).mapError (·.under .not)).map .not
  | .all nodes => (eachFrom .all normalize 0 nodes).map .all
  | .any nodes => (eachFrom .any normalize 0 nodes).map .any
  | .lists names => .ok (.any (names.map Condition.inList))
  | .words texts => .ok (.any [Condition.inWords texts])

/-- A node is turned into what its shape is turned into. -/
theorem normalize_eq (node : Value) :
    normalize node =
      match Shape.recognize node with
      | .error failure => .error ⟨[], failure.map (.unsupported · node)⟩
      | .ok shape => shape.expand := by
  rw [normalize]
  split <;> rename_i hshape <;> simp only [hshape, Shape.expand]
  case h_3 function args => cases decodeArguments args <;> rfl
  case h_4 inner => cases normalize inner <;> rfl
  case h_5 nodes => exact congrArg (Except.map Formula.all) (eachFrom_attach .all normalize 0 nodes)
  case h_6 nodes => exact congrArg (Except.map Formula.any) (eachFrom_attach .any normalize 0 nodes)

/-! ### Rules -/

/-- A draft keeps its specification but for the blocks, which are turned into conditions. -/
theorem RuleSpec.exists_of_draft {spec : RuleSpec} {draft : RuleDraft}
    (h : spec.draft = .ok draft) :
    ∃ conditions exceptions, normalizeBlock .conditions spec.conditions = .ok conditions ∧
      normalizeBlock .exceptions spec.exceptions = .ok exceptions ∧
      draft = ⟨spec.name, spec.description, conditions, exceptions, spec.actions⟩ := by
  unfold RuleSpec.draft at h
  cases hconditions : spec.block .conditions spec.conditions with
  | error e =>
    rw [hconditions] at h
    cases h
  | ok conditions =>
    cases hexceptions : spec.block .exceptions spec.exceptions with
    | error e =>
      rw [hconditions, hexceptions] at h
      cases h
    | ok exceptions =>
      rw [hconditions, hexceptions] at h
      cases h
      exact ⟨conditions, exceptions, mapError_eq_ok_iff.1 hconditions,
        mapError_eq_ok_iff.1 hexceptions, rfl⟩

/-- The rules of a compiled set are those of its sources, in order. -/
theorem exists_rule_of_compile {declared : List (String × Binary64)} {sources : List RuleSource}
    {set : RuleSet} (h : compile declared sources = .ok set) {place : Nat} {source : RuleSource}
    (hsource : sources[place]? = some source) :
    ∃ draft, source.draft = .ok draft ∧ set.rules[place]? = some draft.rule := by
  unfold compile at h
  split at h
  · cases h
  · split at h
    · cases h
    · rename_i drafts hdrafts
      obtain ⟨draft, hdraft, hplace⟩ := exists_getElem?_of_mapM_eq_ok hdrafts hsource
      refine ⟨draft, hdraft, ?_⟩
      dsimp only at h
      split at h
      · cases h
      · cases h
        rw [List.getElem?_map, hplace]
        rfl

end TokenRules.Authoring
