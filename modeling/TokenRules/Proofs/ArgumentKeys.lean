import TokenRules.Proofs.ShapeGrammar
import TokenRules.Proofs.WrittenArguments

/-!
# Keys that read as arguments

Recognition passes over every key that reads as `args`, with a tag or without, but looks the
arguments up under the key without a tag.  What is found there is what the shape has as its
arguments (`Shape.carries_of_recognize`), and each name in it has the value that it is given last
(`heeds_of_decodeArguments`).  What stands under a key with a tag is not found, and the node is
taken for the one without it (`Shape.recognize_of_tagged`), so such arguments are lost
(`tagged_arguments_lost`).

Main statement: `untagged_arguments_heeded`.
-/

namespace TokenRules.Authoring

open Yaml (Value)

/-! ### The arguments of a shape -/

/-- The shape is a call with these arguments, or without any if they are null. -/
inductive Shape.Carries : Shape → Value → Prop
  | null (function : String) : Carries (.call function none) .null
  | mapping (function : String) (args : List (Value × Value)) :
      Carries (.call function (some (.mapping args))) (.mapping args)

namespace Shape

variable {node other : Value} {entries others before after : List (Value × Value)}
  {key value : Value}

theorem carries_of_findArgs {args : Option Value}
    (hlookup : Value.lookup? entries "args" = some value) (h : findArgs entries = .ok args)
    (function : String) : (Shape.call function args).Carries value := by
  rw [findArgs, hlookup] at h
  split at h
  · contradiction
  · rename_i hvalue
    cases hvalue
    cases h
    exact .null function
  · rename_i args hvalue
    cases hvalue
    cases h
    exact .mapping function args
  · cases h

/-- **Arguments under a key without a tag are those of the shape**, which is that of a call. -/
theorem carries_of_recognize {shape : Shape} (hmapping : node.asMapping? = some entries)
    (hnodup : (entries.map Prod.fst).Nodup) (h : recognize node = .ok shape)
    (hmem : (.text "args", value) ∈ entries) : shape.Carries value := by
  have hlookup : Value.lookup? entries "args" = some value := (lookup?_eq_some_iff hnodup).2 hmem
  obtain ⟨others, keyword, given, hothers, -, hargs, hexpresses⟩ := recognize_eq_ok_iff.1 h
  cases hmapping.symm.trans hothers
  by_cases hkeyword : keyword = .function
  · subst hkeyword
    obtain ⟨function, args, -, hfind, rfl⟩ := hexpresses
    exact carries_of_findArgs hlookup hfind function
  · rw [hargs hkeyword] at hlookup
    cases hlookup

/-! ### Keys with tags -/

/-- A key that reads as `args` is no keyword and is passed over. -/
theorem findKeyword_of_args (h : key.asText? = some "args") (found : Option Keyword) :
    findKeyword (before ++ (key, value) :: after) found = findKeyword (before ++ after) found := by
  induction before generalizing found with
  | nil => cases found <;> simp only [List.nil_append, findKeyword, h] <;> rfl
  | cons entry rest ih => simp only [List.cons_append, findKeyword, ih]

theorem lookup?_of_ne {name : String} (h : key ≠ .text name) :
    Value.lookup? (before ++ (key, value) :: after) name =
      Value.lookup? (before ++ after) name := by
  cases key with
  | text key =>
    have hne : key ≠ name := fun heq => h (congrArg _ heq)
    simp [Value.lookup?, hne]
  | _ => simp [Value.lookup?]

/-- Recognition depends on the keyword that is found and on what is looked up. -/
theorem recognize_congr (hnode : node.asMapping? = some entries)
    (hother : other.asMapping? = some others)
    (hkeyword : findKeyword entries none = findKeyword others none)
    (hlookup : ∀ name, Value.lookup? entries name = Value.lookup? others name) :
    recognize node = recognize other := by
  have hshape (value : Value) (keyword : Keyword) :
      ofKeyword entries value keyword = ofKeyword others value keyword := by
    cases keyword <;> simp only [ofKeyword, findArgs, hlookup]
  simp only [recognize, hnode, hother, hkeyword, hlookup, hshape]

/-- Arguments under a key with a tag play no part. -/
theorem recognize_of_tagged (hnode : node.asMapping? = some (before ++ (key, value) :: after))
    (htext : key.asText? = some "args") (hkey : key ≠ .text "args") :
    recognize node = recognize (.mapping (before ++ after)) := by
  refine recognize_congr hnode rfl (findKeyword_of_args htext none) fun name => lookup?_of_ne ?_
  by_cases hname : "args" = name
  · exact hname ▸ hkey
  · exact ne_text_of_asText? htext hname

end Shape

theorem normalize_eq_ok_iff_of_recognize_eq {node other : Value}
    (h : Shape.recognize node = Shape.recognize other) {condition : Condition} :
    normalize node = .ok condition ↔ normalize other = .ok condition := by
  rw [normalize_eq, normalize_eq, h]
  cases Shape.recognize other <;> simp

/-! ### The values of names -/

/-- The value is the argument of the name that the key reads as. -/
def IsArgument (given : Arguments) (entry : Value × Value) : Prop :=
  ∃ name argument, entry.1.asText? = some name ∧
    decodeArgument entry.2 = .ok (some argument) ∧ given.get? name = some argument

/-- All values but nulls are arguments, as long as no later key reads as the same name. -/
def Heeds (args : List (Value × Value)) (given : Arguments) : Prop :=
  ∀ before entry after, args = before ++ entry :: after →
    (∀ later ∈ after, later.1.asText? ≠ entry.1.asText?) → entry.2 ≠ .null → IsArgument given entry

theorem decodeText_eq_ok_iff {key : Value} {name : String} :
    decodeText key = .ok name ↔ key.asText? = some name := by
  rw [decodeText, decodeTextAs]
  cases key.asText? <;> simp

/-- Only a null is read as nothing. -/
theorem exists_of_decodeArgument {value : Value} {result : Option Argument} (hne : value ≠ .null)
    (h : decodeArgument value = .ok result) : ∃ argument, result = some argument := by
  rw [decodeArgument_eq hne] at h
  split at h
  · split at h
    · exact ⟨_, (Except.ok.inj h).symm⟩
    · cases h
  · cases h

section Decoding

variable {args : List (Value × Value)} {given : Arguments}

theorem exists_asText?_of_decodeArguments (h : decodeArguments (.mapping args) = .ok given)
    {entry : Value × Value} (hmem : entry ∈ args) : ∃ name, entry.1.asText? = some name := by
  obtain ⟨results, hresults, -⟩ := decodeArguments_eq_ok_iff.1 h
  obtain ⟨result, -, hreads⟩ := exists_mem_of_forall₂ hresults hmem
  exact ⟨result.1, decodeText_eq_ok_iff.1 hreads.name⟩

/-- **Of the values for a name the last one counts.** -/
theorem heeds_of_decodeArguments (h : decodeArguments (.mapping args) = .ok given) :
    Heeds args given := by
  obtain ⟨results, hresults, rfl⟩ := decodeArguments_eq_ok_iff.1 h
  rintro before entry after rfl hlast hvalue
  obtain ⟨left, ⟨name, result⟩, right, rfl, -, hentry, hright⟩ :=
    exists_append_cons_of_forall₂ hresults
  have hname : entry.1.asText? = some name := decodeText_eq_ok_iff.1 hentry.name
  obtain ⟨argument, rfl⟩ := exists_of_decodeArgument hvalue hentry.value
  refine ⟨name, argument, hname, hentry.value, get?_givenArguments.2 ?_⟩
  refine NameMap.get?_ofList_eq_some_iff_givenLast.2 ⟨left, right, rfl, fun later hlater heq => ?_⟩
  obtain ⟨source, hsource, hreads⟩ := exists_mem_of_forall₂ hright.flip hlater
  have hsourceName : source.1.asText? = some later.1 := decodeText_eq_ok_iff.1 hreads.name
  exact hlast source hsource (by rw [hsourceName, heq, hname])

/-- Keys without tags read as different names, so none of their values gives way to another. -/
theorem isArgument_of_plain (h : decodeArguments (.mapping args) = .ok given)
    (hplain : PlainEntries args) {entry : Value × Value} (hmem : entry ∈ args)
    (hvalue : entry.2 ≠ .null) : IsArgument given entry := by
  obtain ⟨name, hname⟩ := exists_asText?_of_decodeArguments h hmem
  obtain ⟨before, after, rfl⟩ := List.append_of_mem hmem
  refine heeds_of_decodeArguments h before entry after rfl (fun later hlater heq => ?_) hvalue
  have hlaterMem : later ∈ before ++ entry :: after := by simp [hlater]
  have hkey := (asText?_eq_some_iff (hplain.untagged entry hmem)).1 hname
  have hlaterKey := (asText?_eq_some_iff (hplain.untagged later hlaterMem)).1 (heq.trans hname)
  have hnodup := hplain.nodup
  rw [List.map_append, List.map_cons] at hnodup
  refine (List.nodup_cons.1 hnodup.of_append_right).1 (List.mem_map.2 ⟨later, hlater, ?_⟩)
  rw [hlaterKey, hkey]

end Decoding

/-- A node with arguments under a key without a tag is a call with them. -/
theorem exists_of_normalize {node : Value} {entries args : List (Value × Value)}
    {condition : Condition} (hmapping : node.asMapping? = some entries)
    (hnodup : (entries.map Prod.fst).Nodup) (h : normalize node = .ok condition)
    (hmem : (.text "args", .mapping args) ∈ entries) :
    ∃ function given, condition = .atom ⟨⟨function, given⟩, false⟩ ∧
      decodeArguments (.mapping args) = .ok given := by
  rw [normalize_eq] at h
  cases hshape : Shape.recognize node with
  | error reason =>
    rw [hshape] at h
    cases h
  | ok shape =>
    rw [hshape] at h
    cases Shape.carries_of_recognize hmapping hnodup hshape hmem with
    | mapping function args =>
      obtain ⟨given, hgiven, rfl⟩ := map_eq_ok_iff.1 h
      exact ⟨function, given, rfl, mapError_eq_ok_iff.1 hgiven⟩

/-- **Arguments under a key without a tag are heeded.**  A mapping with such a key is refused unless
it is a call, and then the call has these arguments, each name with the value that it is given last;
a null stands for no arguments, and for an argument that is not given.  An entry of which the key
reads as `args` under a tag plays no part in whether the mapping is accepted and in what becomes of
it.  No key comes twice. -/
theorem untagged_arguments_heeded {node : Value} {entries : List (Value × Value)}
    (hmapping : node.asMapping? = some entries) (hnodup : (entries.map Prod.fst).Nodup) :
    (∀ value, (.text "args", value) ∈ entries →
      ∀ shape, Shape.recognize node = .ok shape → shape.Carries value) ∧
    (∀ args, (.text "args", .mapping args) ∈ entries →
      ∀ condition, normalize node = .ok condition → ∃ function given,
        condition = .atom ⟨⟨function, given⟩, false⟩ ∧ Heeds args given ∧
        (PlainEntries args → ∀ entry ∈ args, entry.2 ≠ .null → IsArgument given entry)) ∧
    ∀ before key value after, entries = before ++ (key, value) :: after →
      key.asText? = some "args" → key ≠ .text "args" →
      Shape.recognize node = Shape.recognize (.mapping (before ++ after)) ∧
      ∀ condition, normalize node = .ok condition ↔
        normalize (.mapping (before ++ after)) = .ok condition := by
  refine ⟨fun value hmem shape hshape => Shape.carries_of_recognize hmapping hnodup hshape hmem,
    fun args hmem condition hcondition => ?_, ?_⟩
  · obtain ⟨function, given, rfl, hgiven⟩ := exists_of_normalize hmapping hnodup hcondition hmem
    exact ⟨function, given, rfl, heeds_of_decodeArguments hgiven,
      fun hplain entry => isArgument_of_plain hgiven hplain⟩
  · rintro before key value after rfl htext hkey
    have hshape := Shape.recognize_of_tagged hmapping htext hkey
    exact ⟨hshape, fun _ => normalize_eq_ok_iff_of_recognize_eq hshape⟩

/-- A call with arguments, of which one has two values, and with others under a tag. -/
theorem untagged_arguments_heeded_twice :
    let args : List (Value × Value) := [(.text "x", .text "a"),
      (.tagged "t" (.text "x"), .text "b"), (.text "y", .null)]
    let call : List (Value × Value) := [(.text "function", .text "f"),
      (.text "args", .mapping args)]
    let lost : Value × Value := (.tagged "t" (.text "args"), .mapping [(.text "z", .text "c")])
    let node := Value.mapping (call ++ [lost])
    (node.asMapping? = some (call ++ [lost]) ∧ ((call ++ [lost]).map Prod.fst).Nodup) ∧
    ∃ given, normalize node = .ok (.atom ⟨⟨"f", given⟩, false⟩) ∧
      (Shape.call "f" (some (.mapping args))).Carries (.mapping args) ∧ Heeds args given ∧
      normalize (.mapping call) = .ok (.atom ⟨⟨"f", given⟩, false⟩) := by
  intro args call lost node
  have hnodup : ((call ++ [lost]).map Prod.fst).Nodup := by simp [call, lost]
  have hmapping : node.asMapping? = some (call ++ [lost]) := rfl
  obtain ⟨hcarries, hheeds, htagged⟩ := untagged_arguments_heeded hmapping hnodup
  have hshape : Shape.recognize node = .ok (.call "f" (some (.mapping args))) := rfl
  have hmem : (Value.text "args", Value.mapping args) ∈ call ++ [lost] := by simp [call]
  have hnode : normalize node = .ok (.atom ⟨⟨"f", .ofList [("x", .text "b")]⟩, false⟩) := by
    rw [normalize_eq, hshape]
    rfl
  obtain ⟨_, given, hcondition, hgiven, -⟩ := hheeds args hmem _ hnode
  cases hcondition
  exact ⟨⟨rfl, hnodup⟩, _, hnode, hcarries _ hmem _ hshape, hgiven,
    ((htagged call lost.1 lost.2 [] rfl rfl (by simp [lost])).2 _).1 hnode⟩

/-- Arguments under a key with a tag are lost, also where arguments are refused without the tag. -/
theorem tagged_arguments_lost :
    let key := Value.tagged "t" (.text "args")
    let args := Value.mapping [(.text "x", .text "y")]
    let call := Value.mapping [(.text "function", .text "f"), (key, args)]
    let words (key : Value) := Value.mapping [(.text "words", .sequence [.text "a"]), (key, args)]
    key.asText? = some "args" ∧
    (Shape.recognize call = .ok (.call "f" none) ∧ ¬ (Shape.call "f" none).Carries args ∧
      normalize call = .ok (.call "f")) ∧
    Shape.recognize (words key) = .ok (.words ["a"]) ∧ ¬ (Shape.words ["a"]).Carries args ∧
    Shape.recognize (words (.text "args")) = .error (.reported (.argsWithout .words)) := by
  intro key args call words
  have hcall : Shape.recognize call = .ok (.call "f" none) := rfl
  have hlost : ∀ entries, ¬ (Shape.call "f" none).Carries (.mapping entries) := nofun
  have hnormalize : normalize call = .ok (.call "f") := by
    rw [normalize_eq, hcall]
    rfl
  exact ⟨rfl, ⟨hcall, hlost _, hnormalize⟩, rfl, nofun, rfl⟩

end TokenRules.Authoring
