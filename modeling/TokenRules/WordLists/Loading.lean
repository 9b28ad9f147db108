import TokenRules.FileTree
import TokenRules.WordLists
import TokenRules.Yaml.Reading

/-!
# Word lists from YAML

A list document is a mapping from names to words or sequences of words; whatever is neither is
passed over. Lists are gathered from all documents of a text, and from all list files of a
directory. A list file that cannot be read contributes nothing.
-/

namespace TokenRules.WordLists

open Yaml (Value)

/-- The text of an untagged text. -/
def word? : Value → Option String
  | .text word => some word
  | _ => none

/-- The words that an entry gives: a text or the texts in a sequence. -/
def words? : Value → Option (List String)
  | .text word => some [word]
  | .sequence items => some (items.filterMap word?)
  | _ => none

/-- Add the list of one entry of a list document. -/
def addEntry (lists : WordLists) (entry : Value × Value) : WordLists :=
  match entry.1.asText?, words? entry.2 with
  | some name, some words => lists.extend name words
  | _, _ => lists

/-- Add the lists of a list document. -/
def addDocument (lists : WordLists) : Value → WordLists
  | .mapping entries => entries.foldl addEntry lists
  | _ => lists

/-- The lists of several documents. -/
def ofDocuments (documents : List Value) : WordLists := documents.foldl addDocument ∅

/-- The lists of all documents of a text. -/
def ofText (text : String) : Except Yaml.Fault WordLists := (Yaml.readAll text).map ofDocuments

/-- Why a list file is not loaded. -/
inductive LoadError
  | unreadable (path : String)
  | malformed (path : String)
  deriving DecidableEq

def LoadError.path : LoadError → String
  | .unreadable path | .malformed path => path

def LoadError.message : LoadError → String
  | .unreadable path => "failed to read list file " ++ path ++ ":"
  | .malformed path => "malformed list file " ++ path ++ ":"

/-- The lists of a file, if there is one at the path. -/
def ofEntry (path : String) (entry : Option Entry) : Except LoadError WordLists :=
  match entry.bind Entry.text? with
  | none => .error (.unreadable path)
  | some text =>
    match ofText text with
    | .error _ => .error (.malformed path)
    | .ok lists => .ok lists

/-- What follows the last dot of a file name, unless that begins the name. -/
def extension? (name : String) : Option String :=
  let backwards := name.toList.reverse
  match backwards.dropWhile (· != '.') with
  | _ :: _ :: _ => some (String.ofList (backwards.takeWhile (· != '.')).reverse)
  | _ => none

/-- Whether a file with this name is a list file. -/
def isListFile (name : String) : Bool :=
  extension? name == some "yaml" || extension? name == some "yml"

/-- Add the lists of one entry of a directory. -/
def addFile (lists : WordLists) (file : String × Entry) : WordLists :=
  if isListFile file.1 then
    match ofEntry file.1 (some file.2) with
    | .ok loaded => lists.merge loaded
    | .error _ => lists
  else lists

/-- The lists of a directory's list files. A loader of directories sorts the paths first; here the
files are taken in the order of the tree, since no order of them makes other lists. -/
def ofFiles (files : List (String × Entry)) : WordLists := files.foldl addFile ∅

/-- The lists of the directory at a path. Where there is none, there are no lists. -/
def ofDirectory (tree : FileTree) (path : List String) : WordLists :=
  match tree.entry? path with
  | some .directory => ofFiles (tree.children path)
  | _ => ∅

end TokenRules.WordLists
