/-!
# File trees

The files and directories that rules and lists are loaded from.
-/

namespace TokenRules

inductive Entry
  | file (content : ByteArray)
  | directory

/-- Entries by the names on the way to them. -/
structure FileTree where
  entries : List (List String × Entry)

/-- The names on the way to an entry, written with slashes between them. -/
def pathNames (path : String) : List String :=
  (path.splitOn "/").filter fun name => name != "" && name != "."

namespace Entry

/-- The text of a file whose content is UTF-8. -/
def text? : Entry → Option String
  | .file content => String.fromUTF8? content
  | .directory => none

end Entry

namespace FileTree

def empty : FileTree := ⟨[]⟩

/-- The entry at a path. The tree itself is a directory. -/
def entry? (tree : FileTree) (path : List String) : Option Entry :=
  if path = [] then some .directory else tree.entries.lookup path

/-- Put an entry at a path, and the directories it is in. -/
def insert (tree : FileTree) (path : List String) (entry : Entry) : FileTree :=
  let above := (List.range path.length).map path.take
  let missing := above.filter fun path => (tree.entry? path).isNone
  ⟨(path, entry) :: missing.map (·, .directory) ++ tree.entries.filter (·.1 != path)⟩

/-- The entries of a directory with their names. -/
def children (tree : FileTree) (path : List String) : List (String × Entry) :=
  tree.entries.filterMap fun (names, entry) =>
    match names.getLast? with
    | some name => if names.dropLast = path then some (name, entry) else none
    | none => none

/-- The text of the file at a path. -/
def text? (tree : FileTree) (path : List String) : Option String :=
  (tree.entry? path).bind Entry.text?

end FileTree

end TokenRules
