import TokenRules.Authoring.Compilation
import TokenRules.Engine
import TokenRules.WordLists.Loading

/-!
# Engine configurations

Where an engine gets its rules and word lists: from a YAML text, from environment variables, or
from defaults. In the text a path is taken as it is written, whatever kind of scalar it would be
otherwise.
-/

namespace TokenRules.Authoring

open Yaml (Document Node Value)

structure EngineConfig where
  rulesPath : String
  listsDir : String
  deriving DecidableEq

namespace EngineConfig

def default : EngineConfig := ⟨"rules/rules.yaml", "rules/lists"⟩

/-- The configuration of a set of variables; an empty one counts as unset. -/
def ofVariables (lookup : String → Option String) : EngineConfig :=
  let read (name fallback : String) := ((lookup name).filter (· != "")).getD fallback
  ⟨read "HEBNORM_RULES" default.rulesPath, read "HEBNORM_LISTS_DIR" default.listsDir⟩

/-- Why a text is not a configuration: it cannot be read, or something in it is not what it should
be, possibly below a key. -/
inductive ReadError
  | unreadable (fault : Yaml.Fault)
  | wrong (key : Option String) (mismatch : Mismatch)

def ReadError.message? : ReadError → Option String
  | .unreadable _ => none
  | .wrong key mismatch =>
    some ("invalid engine config: " ++ (key.map (· ++ ": ")).getD "" ++ mismatch.message)

/-- The text of a scalar, as written. -/
def scalarText? (source : Document.Source) (node : Node) : Option String :=
  match source.target? node with
  | some (.scalar _ text _) => some text
  | _ => none

/-- The value of a node, for messages. -/
def valueOf (source : Document.Source) (node : Node) : Value :=
  match (source.read Yaml.maxDepth node).run 0 with
  | .ok (value, _) => value
  | .error _ => .null

/-- A node that was expected to be something else. -/
def wrongNode (source : Document.Source) (node : Node) (expected : Expected) : Mismatch :=
  .invalidType (valueOf source node) expected

/-- The name of a key in messages about its value, which is only known where the key is written
out. -/
def keyName : Node → String
  | .scalar _ text _ | .anchored _ (.scalar _ text _) => text
  | _ => "?"

structure Paths where
  rulesPath : Option String := none
  listsDir : Option String := none

def knownFields : List String := ["rules_path", "lists_dir"]

def decodePath (source : Document.Source) (key value : Node) : Except ReadError String :=
  match scalarText? source value with
  | some path => .ok path
  | none => .error (.wrong (some (keyName key)) (wrongNode source value .path))

/-- Read the entries of a configuration one after the other. -/
def decodeEntries (source : Document.Source) :
    List (Node × Node) → Paths → Except ReadError Paths
  | [], paths => .ok paths
  | (key, value) :: rest, paths =>
    match scalarText? source key with
    | none => .error (.wrong none (wrongNode source key .fieldName))
    | some "rules_path" => do
      if paths.rulesPath.isSome then .error (.wrong none (.duplicateField "rules_path"))
      let path ← decodePath source key value
      decodeEntries source rest { paths with rulesPath := some path }
    | some "lists_dir" => do
      if paths.listsDir.isSome then .error (.wrong none (.duplicateField "lists_dir"))
      let path ← decodePath source key value
      decodeEntries source rest { paths with listsDir := some path }
    | some name => .error (.wrong none (.unknownField name knownFields))

/-- The configuration that a node is. A scalar that is left out is an empty mapping. -/
def decode (source : Document.Source) (node : Node) : Except ReadError EngineConfig :=
  match source.target? node with
  | some (.mapping _ entries) => do
    let paths ← decodeEntries source entries {}
    return ⟨paths.rulesPath.getD default.rulesPath, paths.listsDir.getD default.listsDir⟩
  | some (.scalar _ "" true) => .ok default
  | _ => .error (.wrong none (wrongNode source node (.record "EngineConfig")))

/-- The configuration in a document, of which the nodes before a fault count. -/
def decodeDocument (document : Document) : Except ReadError EngineConfig :=
  match document.root with
  | none => .ok default
  | some root => decode document.source root

/-- The configuration that a text is; a blank text is the default one. The text has to be well
formed as a whole, but a scalar in it need not have a value. Where there is no configuration, it
matters first whether the text can be read as a value at all. -/
def ofText (text : String) : Except ReadError EngineConfig :=
  if Text.isBlankText text then .ok default
  else
    match Document.ofText text with
    | [] => .error (.unreadable .malformed)
    | document :: rest =>
      match decodeDocument document with
      | .ok config =>
        if !document.complete then .error (.unreadable .malformed)
        else if !rest.isEmpty then .error (.unreadable .severalDocuments)
        else .ok config
      | .error e =>
        match Yaml.readOne text with
        | .error fault => .error (.unreadable fault)
        | .ok _ => .error e

end EngineConfig

/-- Why no engine, rule set or configuration is loaded from files. -/
inductive SetupError
  | unreadableFile
  | config (e : EngineConfig.ReadError)
  | document (e : ReadError)
  | compile (e : CompileError)
  | reference (e : ReferenceError)

/-- The configuration in a file. -/
def EngineConfig.ofFile (tree : FileTree) (path : List String) : Except SetupError EngineConfig :=
  match tree.text? path with
  | none => .error .unreadableFile
  | some text => (EngineConfig.ofText text).mapError .config

/-- The rule set of a text that holds a rule document. -/
def ruleSetOfText (text : String) : Except (Failure SetupError) RuleSet :=
  match RuleDocument.ofText text with
  | .error e => .error (.reported (.document e))
  | .ok document => document.compile.mapError (.map .compile)

/-- The rule set in a file. -/
def ruleSetOfFile (tree : FileTree) (path : List String) : Except (Failure SetupError) RuleSet :=
  match tree.text? path with
  | none => .error (.reported .unreadableFile)
  | some text => ruleSetOfText text

/-- The engine of a configuration. Every function that the rules refer to has to be registered. -/
def EngineConfig.load (config : EngineConfig) (tree : FileTree) (registry : Registry) :
    Except (Failure SetupError) Engine :=
  match ruleSetOfFile tree (pathNames config.rulesPath) with
  | .error failure => .error failure
  | .ok rules =>
    match rules.verify registry with
    | .error e => .error (.reported (.reference e))
    | .ok () =>
      .ok ⟨rules, registry, .ofDirectory tree (pathNames config.listsDir), .none⟩

end TokenRules.Authoring
