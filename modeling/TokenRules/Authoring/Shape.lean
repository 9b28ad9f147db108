import TokenRules.Yaml.Value

/-!
# Shapes of authored conditions

An authored condition is a mapping with one of six keywords: a predicate call by `function`, to
which `args` may be added, the connectives `not`, `all` and `any`, and the word tests `lists` and
`words`. Anything else is refused with a reason.
-/

namespace TokenRules.Authoring

open Yaml (Value)

inductive Keyword
  | function
  | not
  | all
  | any
  | lists
  | words
  deriving DecidableEq

namespace Keyword

def name : Keyword → String
  | .function => "function"
  | .not => "not"
  | .all => "all"
  | .any => "any"
  | .lists => "lists"
  | .words => "words"

/-- All keywords in the order in which messages list them. -/
def every : List Keyword := [.function, .not, .all, .any, .lists, .words]

def ofName? (name : String) : Option Keyword := every.find? (·.name == name)

end Keyword

/-- What an authored condition says, one level deep. -/
inductive Shape
  | call (function : String) (args : Option Value)
  | not (node : Value)
  | all (nodes : List Value)
  | any (nodes : List Value)
  | lists (names : List String)
  | words (words : List String)

/-- Why a value has none of the shapes. -/
inductive ShapeError
  | notMapping
  | keyNotText
  | conflictingKeys (first second : Keyword)
  | unexpectedKey (name : String)
  | noKeyword
  | argsWithout (keyword : Keyword)
  | functionNotText
  | argsNotMapping
  | notSequence (keyword : Keyword)
  | notTexts (keyword : Keyword)
  deriving DecidableEq

def ShapeError.message : ShapeError → String
  | .notMapping => "expected a mapping"
  | .keyNotText => "keys must be strings"
  | .conflictingKeys first second =>
    "conflicting keys '" ++ first.name ++ "' and '" ++ second.name ++ "'"
  | .unexpectedKey name => "unexpected key '" ++ name ++ "'"
  | .noKeyword =>
    "no recognized key, expected one of " ++
      String.intercalate ", " (Keyword.every.map Keyword.name)
  | .argsWithout keyword =>
    "'args' is only allowed with 'function', not '" ++ keyword.name ++ "'"
  | .functionNotText => "'function' must be a string"
  | .argsNotMapping => "'args' must be a mapping"
  | .notSequence keyword => "'" ++ keyword.name ++ "' must be a sequence"
  | .notTexts keyword => "'" ++ keyword.name ++ "' must be a sequence of strings"

/-- How work on authored text fails: it reports an error, or it breaks down and reports none. -/
inductive Failure (ε : Type)
  | reported (error : ε)
  | crash
  deriving DecidableEq

/-- The same failure with its error, if there is one, put in other words. -/
def Failure.map {ε ε' : Type} (f : ε → ε') : Failure ε → Failure ε'
  | .reported error => .reported (f error)
  | .crash => .crash

theorem Failure.map_eq_crash_iff {ε ε' : Type} {f : ε → ε'} {failure : Failure ε} :
    failure.map f = .crash ↔ failure = .crash := by
  cases failure <;> simp [map]

namespace Shape

/-- Go through the keys of a mapping for its one keyword, given the one found so far. -/
def findKeyword : List (Value × Value) → Option Keyword → Except ShapeError Keyword
  | [], none => .error .noKeyword
  | [], some found => .ok found
  | (key, _) :: rest, found =>
    match key.asText? with
    | none => .error .keyNotText
    | some name =>
      match Keyword.ofName? name, found with
      | some keyword, none => findKeyword rest (some keyword)
      | some keyword, some first => .error (.conflictingKeys first keyword)
      | none, found =>
        if name = "args" then findKeyword rest found else .error (.unexpectedKey name)

/-- The arguments of a call: a mapping, or nothing if they are absent or null. -/
def findArgs (entries : List (Value × Value)) : Except ShapeError (Option Value) :=
  match Value.lookup? entries "args" with
  | none => .ok none
  | some .null => .ok none
  | some (.mapping args) => .ok (some (.mapping args))
  | some _ => .error .argsNotMapping

/-- The items of the sequence that belongs to a keyword. -/
def itemsOf (keyword : Keyword) (value : Value) : Except ShapeError (List Value) :=
  match value.asSequence? with
  | some items => .ok items
  | none => .error (.notSequence keyword)

/-- The texts of the sequence that belongs to a keyword. -/
def textsOf (keyword : Keyword) (value : Value) : Except ShapeError (List String) := do
  match (← itemsOf keyword value).mapM Value.asText? with
  | some texts => .ok texts
  | none => .error (.notTexts keyword)

/-- The shape that a keyword and its value make of a mapping. -/
def ofKeyword (entries : List (Value × Value)) (value : Value) :
    Keyword → Except ShapeError Shape
  | .function =>
    match value.asText? with
    | none => .error .functionNotText
    | some function => (findArgs entries).map (.call function)
  | .not => .ok (.not value)
  | .all => (itemsOf .all value).map .all
  | .any => (itemsOf .any value).map .any
  | .lists => (textsOf .lists value).map .lists
  | .words => (textsOf .words value).map .words

/-- The shape of an authored condition, or why it has none. The keyword is found among the keys read
without their tags, but its value is looked up under a key that has none: at a keyword under a tag
the work breaks down. -/
def recognize (node : Value) : Except (Failure ShapeError) Shape :=
  match node.asMapping? with
  | none => .error (.reported .notMapping)
  | some entries =>
    match findKeyword entries none with
    | .error e => .error (.reported e)
    | .ok keyword =>
      if keyword ≠ .function ∧ (Value.lookup? entries "args").isSome then
        .error (.reported (.argsWithout keyword))
      else
        match Value.lookup? entries keyword.name with
        | none => .error .crash
        | some value => (ofKeyword entries value keyword).mapError .reported

/-! The parts of a shape that are conditions again are smaller than the whole. -/

theorem sizeOf_untagged_le : ∀ value : Value, sizeOf value.untagged ≤ sizeOf value
  | .tagged _ value => by
    have ih := sizeOf_untagged_le value
    simp only [Value.untagged, Value.tagged.sizeOf_spec]
    omega
  | .null | .bool _ | .int _ | .float _ | .text _ | .sequence _ | .mapping _ => Nat.le_refl _

theorem sizeOf_lt_of_asMapping? {node : Value} {entries : List (Value × Value)}
    (h : node.asMapping? = some entries) {entry : Value × Value} (hmem : entry ∈ entries) :
    sizeOf entry.2 < sizeOf node := by
  have hle := sizeOf_untagged_le node
  unfold Value.asMapping? at h
  split at h
  · rename_i found heq
    cases h
    rw [heq, Value.mapping.sizeOf_spec] at hle
    have h1 := List.sizeOf_lt_of_mem hmem
    have h2 : sizeOf entry.2 < sizeOf entry := by
      obtain ⟨key, value⟩ := entry
      simp only [Prod.mk.sizeOf_spec]
      omega
    omega
  · cases h

theorem sizeOf_lt_of_asSequence? {value : Value} {items : List Value}
    (h : value.asSequence? = some items) {item : Value} (hmem : item ∈ items) :
    sizeOf item < sizeOf value := by
  have hle := sizeOf_untagged_le value
  unfold Value.asSequence? at h
  split at h
  · rename_i found heq
    cases h
    rw [heq, Value.sequence.sizeOf_spec] at hle
    have h1 := List.sizeOf_lt_of_mem hmem
    omega
  · cases h

/-- The conditions that a shape is made of. -/
def parts : Shape → List Value
  | .not node => [node]
  | .all nodes => nodes
  | .any nodes => nodes
  | _ => []

theorem sizeOf_le_of_ofKeyword {entries : List (Value × Value)} {value : Value} {keyword : Keyword}
    {shape : Shape} (h : ofKeyword entries value keyword = .ok shape) {part : Value}
    (hpart : part ∈ shape.parts) : sizeOf part ≤ sizeOf value := by
  have hitems : ∀ {keyword} {items : List Value}, itemsOf keyword value = .ok items →
      ∀ item ∈ items, sizeOf item ≤ sizeOf value := by
    intro keyword items hitems item hmem
    unfold itemsOf at hitems
    split at hitems
    · cases hitems
      exact Nat.le_of_lt (sizeOf_lt_of_asSequence? (by assumption) hmem)
    · cases hitems
  unfold ofKeyword at h
  split at h
  · split at h
    · cases h
    · cases hargs : findArgs entries <;> rw [hargs] at h <;> cases h
      simp [parts] at hpart
  · cases h
    simp only [parts, List.mem_singleton] at hpart
    exact hpart ▸ Nat.le_refl _
  · cases hall : itemsOf .all value <;> rw [hall] at h <;> cases h
    exact hitems hall _ hpart
  · cases hany : itemsOf .any value <;> rw [hany] at h <;> cases h
    exact hitems hany _ hpart
  · cases hlists : textsOf .lists value <;> rw [hlists] at h <;> cases h
    simp [parts] at hpart
  · cases hwords : textsOf .words value <;> rw [hwords] at h <;> cases h
    simp [parts] at hpart

theorem sizeOf_lt_of_recognize {node : Value} {shape : Shape} (h : recognize node = .ok shape)
    {part : Value} (hpart : part ∈ shape.parts) : sizeOf part < sizeOf node := by
  unfold recognize at h
  split at h
  · cases h
  · rename_i entries hentries
    split at h
    · cases h
    · rename_i keyword _
      split at h
      · cases h
      · split at h
        · cases h
        · rename_i value hlookup
          have hvalue : sizeOf value < sizeOf node :=
            sizeOf_lt_of_asMapping? hentries (Value.mem_of_lookup? hlookup)
          cases hshape : ofKeyword entries value keyword <;> rw [hshape] at h <;> cases h
          exact Nat.lt_of_le_of_lt (sizeOf_le_of_ofKeyword hshape hpart) hvalue

end Shape

end TokenRules.Authoring
