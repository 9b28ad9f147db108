import Mathlib.Data.List.TakeWhile
import TokenRules.FileTree.Lemmas
import TokenRules.Proofs.ListUnion
import TokenRules.Proofs.Traversal

/-!
# Lists from the files of a directory

A file gives lists if it is called a list file, its content is UTF-8 and every document in it is
well formed; it then gives the lists of all its documents (`Gives`, `ofText_eq_ok_iff`).  Any other
entry gives none, whatever else is in it.  A directory has the names and words that its entries give
(`contains_ofFiles`, `mem_lookup_ofFiles`), so that only the lists that are given count
(`ofFiles_congr`).  Main statement: `ofDirectory_of_given`.
-/

namespace TokenRules.WordLists

open Yaml (Value)

/-! ### Names of list files -/

/-- The extension is what follows the last dot, which is not the first character. -/
theorem extension?_eq_some_iff {name extension : String} :
    extension? name = some extension ↔
      ∃ stem, stem ≠ "" ∧ name = stem ++ "." ++ extension ∧ '.' ∉ extension.toList := by
  constructor
  · intro h
    unfold extension? at h
    -- the name is read from its end, so it is written from there as well
    obtain ⟨backwards, hname⟩ : ∃ backwards, name.toList = backwards.reverse :=
      ⟨name.toList.reverse, by simp⟩
    rw [hname, List.reverse_reverse] at h
    dsimp only at h
    split at h
    · rename_i dot last rest hrest
      cases h
      have hdot : dot = '.' := by
        simpa [hrest] using List.head?_dropWhile_not (· != '.') backwards
      have hsplit := List.takeWhile_append_dropWhile (p := (· != '.')) (l := backwards)
      rw [hrest, hdot] at hsplit
      refine ⟨String.ofList (last :: rest).reverse, by simp, String.toList_inj.1 ?_, ?_⟩
      · refine hname.trans ((congrArg List.reverse hsplit).symm.trans ?_)
        simp
      · rw [String.toList_ofList, List.mem_reverse]
        exact fun hmem => absurd (List.mem_takeWhile_imp hmem) (by decide)
    · cases h
  · rintro ⟨stem, hstem, rfl, hextension⟩
    obtain ⟨last, rest, hrest⟩ : ∃ last rest, stem.toList.reverse = last :: rest :=
      List.exists_cons_of_ne_nil (by simpa using hstem)
    have hbackwards : (stem ++ "." ++ extension).toList.reverse =
        extension.toList.reverse ++ '.' :: last :: rest := by
      simp [← hrest]
    have hdots : ∀ c ∈ extension.toList.reverse, (c != '.') = true := by
      intro c hc
      exact bne_iff_ne.2 fun heq => hextension (heq ▸ List.mem_reverse.1 hc)
    unfold extension?
    rw [hbackwards]
    dsimp only
    rw [List.dropWhile_append_of_pos hdots, List.takeWhile_append_of_pos hdots]
    simp

/-- The name has one of the two endings of list files, and something before it. -/
def HasListName (name : String) : Prop :=
  ∃ stem, stem ≠ "" ∧ (name = stem ++ ".yaml" ∨ name = stem ++ ".yml")

theorem isListFile_iff {name : String} : isListFile name = true ↔ HasListName name := by
  have hending : ∀ {extension ending : String}, "." ++ extension = ending →
      ∀ stem : String, stem ++ "." ++ extension = stem ++ ending := by
    rintro _ _ rfl stem
    exact String.append_assoc ..
  have hyaml := hending (show "." ++ "yaml" = ".yaml" from rfl)
  have hyml := hending (show "." ++ "yml" = ".yml" from rfl)
  have hdots : '.' ∉ "yaml".toList ∧ '.' ∉ "yml".toList := by decide
  simp only [isListFile, Bool.or_eq_true, beq_iff_eq, extension?_eq_some_iff, HasListName, hyaml,
    hyml, hdots, not_false_eq_true, and_true, and_or_left, exists_or]

/-! ### What a file gives -/

/-- A file of this name and content gives the lists: it is called a list file, and its content is
the UTF-8 of a text with these lists. -/
inductive Gives : String × Entry → WordLists → Prop
  | file {name text : String} {content : ByteArray} {lists : WordLists} (named : HasListName name)
      (utf8 : String.fromUTF8? content = some text) (parsed : ofText text = .ok lists) :
      Gives (name, .file content) lists

/-- A text has lists if all its documents are well formed. -/
theorem ofText_eq_ok_iff {text : String} {lists : WordLists} :
    ofText text = .ok lists ↔ ∃ documents,
      List.Forall₂ (fun document value => document.value = .ok value)
        (Yaml.Document.ofText text) documents ∧ ofDocuments documents = lists := by
  simp only [ofText, map_eq_ok_iff, Yaml.readAll, mapM_eq_ok_iff]

/-- The lists that an entry of a directory gives, if it gives any. -/
def given? (file : String × Entry) : Option WordLists :=
  if isListFile file.1 then (ofEntry file.1 (some file.2)).toOption else none

theorem addFile_eq (lists : WordLists) (file : String × Entry) :
    lists.addFile file = match given? file with
      | some given => lists.merge given
      | none => lists := by
  rw [addFile, given?]
  split
  · cases ofEntry file.1 (some file.2) <;> rfl
  · rfl

theorem given?_eq_some_iff {file : String × Entry} {lists : WordLists} :
    given? file = some lists ↔ Gives file lists := by
  obtain ⟨name, entry⟩ := file
  constructor
  · intro h
    rw [given?] at h
    split at h
    · rename_i hname
      cases entry with
      | directory => cases h
      | file content =>
        rw [ofEntry, Option.bind_some, Entry.text?] at h
        cases hutf8 : String.fromUTF8? content with
        | none =>
          rw [hutf8] at h
          cases h
        | some text =>
          cases hparsed : ofText text with
          | error fault => simp [hutf8, hparsed, Except.toOption] at h
          | ok given =>
            simp only [hutf8, hparsed, Except.toOption, Option.some.injEq] at h
            exact h ▸ .file (isListFile_iff.1 hname) hutf8 hparsed
    · cases h
  · rintro ⟨named, utf8, parsed⟩
    rw [given?, if_pos (isListFile_iff.2 named), ofEntry, Option.bind_some, Entry.text?, utf8]
    simp only [parsed, Except.toOption]

/-! ### Directories -/

section Files

variable {files others : List (String × Entry)} {name word : String}

theorem ofFiles_eq (files : List (String × Entry)) :
    ofFiles files = mergeAll ∅ (files.filterMap given?) := by
  rw [ofFiles, mergeAll]
  generalize (∅ : WordLists) = lists
  induction files generalizing lists with
  | nil => rfl
  | cons file rest ih =>
    rw [List.foldl_cons, ih, addFile_eq]
    cases h : given? file with
    | none => rw [List.filterMap_cons_none h]
    | some given => rw [List.filterMap_cons_some h, List.foldl_cons]

theorem mem_filterMap_given? {lists : WordLists} :
    lists ∈ files.filterMap given? ↔ ∃ file ∈ files, Gives file lists := by
  simp only [List.mem_filterMap, given?_eq_some_iff]

theorem contains_ofFiles :
    (ofFiles files).contains name = true ↔
      ∃ file ∈ files, ∃ lists, Gives file lists ∧ lists.contains name = true := by
  rw [ofFiles_eq, contains_mergeAll]
  simp only [contains_empty, Bool.false_eq_true, false_or, mem_filterMap_given?]
  constructor
  · rintro ⟨lists, ⟨file, hmem, hgives⟩, hname⟩
    exact ⟨file, hmem, lists, hgives, hname⟩
  · rintro ⟨file, hmem, lists, hgives, hname⟩
    exact ⟨lists, ⟨file, hmem, hgives⟩, hname⟩

theorem mem_lookup_ofFiles :
    word ∈ (ofFiles files).lookup name ↔
      ∃ file ∈ files, ∃ lists, Gives file lists ∧ word ∈ lists.lookup name := by
  rw [ofFiles_eq, mem_lookup_mergeAll]
  simp only [not_mem_lookup_empty, false_or, mem_filterMap_given?]
  constructor
  · rintro ⟨lists, ⟨file, hmem, hgives⟩, hword⟩
    exact ⟨file, hmem, lists, hgives, hword⟩
  · rintro ⟨file, hmem, lists, hgives, hword⟩
    exact ⟨lists, ⟨file, hmem, hgives⟩, hword⟩

/-- Only the lists that are given count, not by which files or in which order. -/
theorem ofFiles_congr
    (h : ∀ lists, (∃ file ∈ files, Gives file lists) ↔ ∃ file ∈ others, Gives file lists) :
    ofFiles files = ofFiles others := by
  refine ext_mem (fun name => ?_) fun name word => ?_
  · rw [ofFiles_eq, ofFiles_eq, contains_mergeAll, contains_mergeAll]
    simp only [mem_filterMap_given?, h]
  · rw [ofFiles_eq, ofFiles_eq, mem_lookup_mergeAll, mem_lookup_mergeAll]
    simp only [mem_filterMap_given?, h]

/-- Files may be called differently and come in another order, as long as the same of them are
called list files. -/
theorem ofFiles_of_renamed {rename : String → String}
    (hnames : ∀ name, HasListName (rename name) ↔ HasListName name)
    (hperm : others.Perm (files.map fun file => (rename file.1, file.2))) :
    ofFiles others = ofFiles files := by
  have hgives : ∀ file lists, Gives (rename file.1, file.2) lists ↔ Gives file lists := by
    rintro ⟨name, entry⟩ lists
    constructor
    · rintro ⟨named, utf8, parsed⟩
      exact .file ((hnames name).1 named) utf8 parsed
    · rintro ⟨named, utf8, parsed⟩
      exact .file ((hnames name).2 named) utf8 parsed
  refine ofFiles_congr fun lists => ?_
  simp only [hperm.mem_iff, List.mem_map, exists_exists_and_eq_and, hgives]

end Files

section Directory

variable {tree other : FileTree} {path elsewhere : List String}

/-- There is a directory at the path. -/
def IsDirectory (tree : FileTree) (path : List String) : Prop := tree.entry? path = some .directory

theorem ofDirectory_eq (h : IsDirectory tree path) :
    ofDirectory tree path = ofFiles (tree.children path) := by
  rw [ofDirectory, h]

theorem ofDirectory_of_not_isDirectory (h : ¬ IsDirectory tree path) :
    ofDirectory tree path = ∅ := by
  rw [ofDirectory]
  split
  · contradiction
  · rfl

/-- An entry that gives nothing, in place of none or of one that gave nothing, changes nothing. -/
theorem ofDirectory_insert {name : String} {entry : Entry} (h : IsDirectory tree path)
    (hnew : ∀ lists, ¬ Gives (name, entry) lists)
    (hold : ∀ file ∈ tree.children path, file.1 = name → ∀ lists, ¬ Gives file lists) :
    ofDirectory (tree.insert (path ++ [name]) entry) path = ofDirectory tree path := by
  have hinsert : IsDirectory (tree.insert (path ++ [name]) entry) path :=
    FileTree.entry?_insert_of_directory h
  rw [ofDirectory_eq h, ofDirectory_eq hinsert]
  refine ofFiles_congr fun lists => ?_
  constructor
  · rintro ⟨file, hmem, hgives⟩
    rcases FileTree.mem_children_insert.1 hmem with rfl | ⟨-, hmem⟩
    · exact absurd hgives (hnew lists)
    · exact ⟨file, hmem, hgives⟩
  · rintro ⟨file, hmem, hgives⟩
    have hname : file.1 ≠ name := fun heq => hold file hmem heq lists hgives
    exact ⟨file, FileTree.mem_children_insert.2 (.inr ⟨hname, hmem⟩), hgives⟩

end Directory

/-- **The lists of a directory are those that its good files give.**  They are united from the files
that are called list files, are UTF-8 and have only well-formed documents, each with all its
documents; where there is no directory there are no lists.  So nothing else counts: directories
whose entries give the same have the same lists, an entry that gives nothing may be put in place of
none or of one that gave nothing, and files may come in any order and under any names that are
those of list files for the same of them. -/
theorem ofDirectory_of_given :
    (∀ tree path, IsDirectory tree path → ∀ name,
      ((ofDirectory tree path).contains name = true ↔
        ∃ file ∈ tree.children path, ∃ lists, Gives file lists ∧ lists.contains name = true) ∧
      ∀ word, word ∈ (ofDirectory tree path).lookup name ↔
        ∃ file ∈ tree.children path, ∃ lists, Gives file lists ∧ word ∈ lists.lookup name) ∧
    (∀ text lists, ofText text = .ok lists ↔ ∃ documents,
      List.Forall₂ (fun document value => document.value = .ok value)
        (Yaml.Document.ofText text) documents ∧ ofDocuments documents = lists) ∧
    (∀ tree path, ¬ IsDirectory tree path → ofDirectory tree path = ∅) ∧
    (∀ tree path other elsewhere, IsDirectory tree path → IsDirectory other elsewhere →
      (∀ lists, (∃ file ∈ tree.children path, Gives file lists) ↔
        ∃ file ∈ other.children elsewhere, Gives file lists) →
      ofDirectory tree path = ofDirectory other elsewhere) ∧
    (∀ tree path name entry, IsDirectory tree path → (∀ lists, ¬ Gives (name, entry) lists) →
      (∀ file ∈ tree.children path, file.1 = name → ∀ lists, ¬ Gives file lists) →
      ofDirectory (tree.insert (path ++ [name]) entry) path = ofDirectory tree path) ∧
    ∀ tree path other elsewhere, IsDirectory tree path → IsDirectory other elsewhere →
      ∀ rename : String → String, (∀ name, HasListName (rename name) ↔ HasListName name) →
      (other.children elsewhere).Perm
        ((tree.children path).map fun file => (rename file.1, file.2)) →
      ofDirectory other elsewhere = ofDirectory tree path := by
  refine ⟨fun tree path h name => ?_, fun text lists => ofText_eq_ok_iff,
    fun tree path => ofDirectory_of_not_isDirectory, fun tree path other elsewhere h hother hsame =>
    ?_, fun tree path name entry => ofDirectory_insert,
    fun tree path other elsewhere h hother rename hnames hperm => ?_⟩
  · rw [ofDirectory_eq h]
    exact ⟨contains_ofFiles, fun word => mem_lookup_ofFiles⟩
  · rw [ofDirectory_eq h, ofDirectory_eq hother, ofFiles_congr hsame]
  · rw [ofDirectory_eq h, ofDirectory_eq hother, ofFiles_of_renamed hnames hperm]

/-- A good file alone, beside files that are not good, and under another name. -/
theorem lists_of_one_good_file :
    let good := Entry.file "A: [x]\n".toUTF8
    let half := ("half.yml", Entry.file "A: [y]\n---\nB: [".toUTF8)
    let bad := [half, ("bytes.yaml", .file ⟨#[0xff]⟩), ("sub.yaml", .directory), ("a.txt", good)]
    let tree (files : List (String × Entry)) : FileTree :=
      ⟨(["l"], .directory) :: files.map fun file => (["l", file.1], file.2)⟩
    let one := tree [("a.yaml", good)]
    (IsDirectory one ["l"] ∧ ∀ file ∈ bad, ∀ lists, ¬ Gives file lists) ∧
    "x" ∈ (ofDirectory one ["l"]).lookup "A" ∧
    ofDirectory one ["l", "a.yaml"] = ∅ ∧
    ofDirectory (tree (("a.yaml", good) :: bad)) ["l"] = ofDirectory one ["l"] ∧
    ofDirectory (one.insert ["l", "half.yml"] half.2) ["l"] = ofDirectory one ["l"] ∧
    ofDirectory (tree [("b.yml", good)]) ["l"] = ofDirectory one ["l"] := by
  intro good half bad tree one
  have hchildren : ∀ files, (tree files).children ["l"] = files := by
    intro files
    simp [tree, FileTree.children, List.filterMap_map]
  have hdirectory : ∀ files, IsDirectory (tree files) ["l"] := by
    intro files
    simp [tree, IsDirectory, FileTree.entry?]
  have hbad : ∀ file ∈ bad, ∀ lists, ¬ Gives file lists := by
    have hnone : bad.all (fun file => (given? file).isNone) = true := by decide +kernel
    intro file hmem lists hgives
    have hfile := List.all_eq_true.1 hnone file hmem
    rw [given?_eq_some_iff.2 hgives] at hfile
    cases hfile
  obtain ⟨hgiven, -, hnone, hsame, hinsert, hrenamed⟩ := ofDirectory_of_given
  refine ⟨⟨hdirectory _, hbad⟩, ?_, hnone _ _ ?_, hsame _ _ _ _ (hdirectory _) (hdirectory _) ?_,
    hinsert one ["l"] "half.yml" half.2 (hdirectory _) (hbad half (by simp [bad])) ?_, ?_⟩
  · have hwords : (given? ("a.yaml", good)).map (fun lists => (lists.lookup "A").words) =
        some ["x"] := by decide +kernel
    obtain ⟨lists, hlists, hwords⟩ := Option.map_eq_some_iff.1 hwords
    refine ((hgiven one ["l"] (hdirectory _) "A").2 "x").2 ?_
    rw [hchildren]
    refine ⟨_, List.mem_singleton_self _, lists, given?_eq_some_iff.1 hlists, ?_⟩
    show "x" ∈ (lists.lookup "A").words
    rw [hwords]
    exact List.mem_singleton_self _
  · have hentry : one.entry? ["l", "a.yaml"] = some good := rfl
    rw [IsDirectory, hentry]
    exact fun h => Entry.noConfusion (Option.some.inj h)
  · intro lists
    have hbad' : ¬ ∃ file ∈ bad, Gives file lists := by
      rintro ⟨file, hmem, hgives⟩
      exact hbad file hmem lists hgives
    rw [hchildren, hchildren, List.exists_mem_cons_iff, or_iff_left hbad']
    simp
  · rw [hchildren]
    simp
  · refine hrenamed one ["l"] _ ["l"] (hdirectory _) (hdirectory _)
      (fun name => if name = "a.yaml" then "b.yml" else name) (fun name => ?_) ?_
    · split
      · rename_i hname
        subst hname
        exact ⟨fun _ => ⟨"a", by decide, .inl rfl⟩, fun _ => ⟨"b", by decide, .inr rfl⟩⟩
      · exact Iff.rfl
    · rw [hchildren, hchildren]
      exact .refl _

end TokenRules.WordLists
