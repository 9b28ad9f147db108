import TokenRules.NameMap
import TokenRules.WordSet

/-!
# Named word lists

Lists that conditions refer to by name. Lists of the same name are united, whatever their
sources.
-/

namespace TokenRules

/-- Word lists by name. -/
abbrev WordLists := NameMap WordSet

namespace WordLists

/-- The members of a list; an unknown name has none. -/
def lookup (lists : WordLists) (name : String) : WordSet := (lists.get? name).getD ∅

/-- Add words to a list, which exists from then on even if there are none. -/
def extend (lists : WordLists) (name : String) (words : List String) : WordLists :=
  lists.insert name ((lists.lookup name).insertAll words)

/-- The lists of either side, those of one name united. -/
def merge (lists others : WordLists) : WordLists :=
  others.entries.foldl (fun lists entry => lists.extend entry.1 entry.2.words) lists

end WordLists

end TokenRules
