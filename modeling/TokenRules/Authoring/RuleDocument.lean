import TokenRules.Authoring.Decoding
import TokenRules.Rule
import TokenRules.Yaml.Reading

/-!
# Rule documents

The authored form of a rule set: costs of functions, and rules whose conditions and exceptions are
still blocks of YAML. Unknown fields are passed over; of the known ones none may come twice.
-/

namespace TokenRules.Authoring

open Yaml (Value)

/-- A rule as it is authored. -/
structure RuleSpec where
  name : String
  description : String
  conditions : Option Value
  exceptions : Option Value
  actions : List Call

/-- The authored form of a rule set. -/
structure RuleDocument where
  functionCosts : NameMap Binary64
  rules : List RuleSpec

def RuleDocument.empty : RuleDocument := ⟨∅, []⟩

/-- The fields of a record as far as they have been read. -/
abbrev Fields (α : Type) := List (Value × Value) → α → Decoded α

/-- Read the entries of a record one after the other. -/
def decodeFields {α : Type} (read : String → Value → α → Decoded α) : Fields α
  | [], record => .ok record
  | (key, value) :: rest, record => do
    let name ← decodeTextAs .fieldName key
    decodeFields read rest (← read name value record)

/-- Read a field that has not been read before. -/
def once {α : Type} (field : Option α) (name : String) (decoded : Decoded α) :
    Decoded (Option α) :=
  if field.isSome then .error (.duplicateField name) else decoded.map some

/-- A field that has to be there. -/
def required {α : Type} (field : Option α) (name : String) : Decoded α :=
  match field with
  | some value => .ok value
  | none => .error (.missingField name)

structure CallFields where
  function : Option String := none
  args : Option Arguments := none

def decodeCallField (name : String) (value : Value) (fields : CallFields) :
    Decoded CallFields := do
  match name with
  | "function" => return { fields with function := ← once fields.function name (decodeText value) }
  | "args" => return { fields with args := ← once fields.args name (decodeArguments value) }
  | _ => return fields

/-- The call of an action. -/
def decodeCall (value : Value) : Decoded Call := do
  let entries ← decodeMapping (.record "ActionCall") value
  let fields ← decodeFields decodeCallField entries {}
  return ⟨← required fields.function "function", fields.args.getD ∅⟩

structure RuleFields where
  name : Option String := none
  description : Option String := none
  conditions : Option (Option Value) := none
  exceptions : Option (Option Value) := none
  actions : Option (List Call) := none

/-- A block of YAML; a null is no block. -/
def decodeBlock (value : Value) : Option Value := if value.isNull then none else some value

def decodeRuleField (name : String) (value : Value) (fields : RuleFields) :
    Decoded RuleFields := do
  match name with
  | "name" => return { fields with name := ← once fields.name name (decodeText value) }
  | "description" =>
    return { fields with description := ← once fields.description name (decodeText value) }
  | "conditions" =>
    return { fields with conditions := ← once fields.conditions name (.ok (decodeBlock value)) }
  | "exceptions" =>
    return { fields with exceptions := ← once fields.exceptions name (.ok (decodeBlock value)) }
  | "actions" =>
    return { fields with
      actions := ← once fields.actions name ((decodeSequence value).bind (·.mapM decodeCall)) }
  | _ => return fields

def decodeRule (value : Value) : Decoded RuleSpec := do
  let entries ← decodeMapping (.record "RuleSpec") value
  let fields ← decodeFields decodeRuleField entries {}
  return {
    name := ← required fields.name "name"
    description := fields.description.getD ""
    conditions := fields.conditions.getD none
    exceptions := fields.exceptions.getD none
    actions := fields.actions.getD [] }

structure DocumentFields where
  functionCosts : Option (NameMap Binary64) := none
  rules : Option (List RuleSpec) := none

def decodeCosts (value : Value) : Decoded (NameMap Binary64) := do
  return .ofList (← decodeEntries decodeNumber (← decodeMapping .mapping value))

def decodeDocumentField (name : String) (value : Value) (fields : DocumentFields) :
    Decoded DocumentFields := do
  match name with
  | "function_costs" =>
    return { fields with functionCosts := ← once fields.functionCosts name (decodeCosts value) }
  | "rules" =>
    return { fields with
      rules := ← once fields.rules name ((decodeSequence value).bind (·.mapM decodeRule)) }
  | _ => return fields

/-- The document that a value is; a null is an empty one. -/
def decodeDocument (value : Value) : Decoded RuleDocument := do
  let entries ← decodeMapping (.record "RuleDocument") value
  let fields ← decodeFields decodeDocumentField entries {}
  return ⟨fields.functionCosts.getD ∅, fields.rules.getD []⟩

/-- Why a text is not read as an authored value of some kind. -/
inductive ReadError
  | unreadable (fault : Yaml.Fault)
  | wrong (mismatch : Mismatch)

/-- The value of a text, decoded. -/
def readText {α : Type} (decode : Value → Decoded α) (text : String) : Except ReadError α :=
  match Yaml.readOne text with
  | .error fault => .error (.unreadable fault)
  | .ok value =>
    match decode value with
    | .error mismatch => .error (.wrong mismatch)
    | .ok result => .ok result

/-- The message for a text that is no rule document. -/
def RuleDocument.mismatchMessage (mismatch : Mismatch) : String :=
  "invalid rule document: " ++ mismatch.message

/-- The rule document that a text is. -/
def RuleDocument.ofText (text : String) : Except ReadError RuleDocument :=
  readText decodeDocument text

end TokenRules.Authoring
