/-!
# Lines of a text

A text is on one line if none of its characters ends a line (`OneLine`).  Those that do are outside
of printable ASCII, so it is enough to look at the characters there, `specials`, which are had part
by part of a text that is put together.  Main statement: `oneLine_iff_of_specials_eq`.
-/

namespace TokenRules.Text

/-- The characters at which Unicode always ends a line: the controls from the line feed to the
carriage return, the control for a next line, and the separators of lines and of paragraphs. -/
def isLineBreak (c : Char) : Bool :=
  let code := c.toNat
  (0xA ≤ code && code ≤ 0xD) || code == 0x85 || code == 0x2028 || code == 0x2029

def OneLine (text : String) : Prop := ∀ c ∈ text.toList, isLineBreak c = false

instance (text : String) : Decidable (OneLine text) :=
  List.decidableBAll (isLineBreak · = false) text.toList

/-- The characters of printable ASCII. -/
def isBasic (c : Char) : Bool := 0x20 ≤ c.toNat && c.toNat ≤ 0x7E

/-- The characters of a text outside of printable ASCII, in order. -/
def specials (text : String) : List Char := text.toList.filter (!isBasic ·)

/-! ### Parts of a text -/

theorem specials_append (text other : String) :
    specials (text ++ other) = specials text ++ specials other := by
  rw [specials, String.toList_append, List.filter_append, specials, specials]

theorem specials_eq_nil_iff {text : String} :
    specials text = [] ↔ ∀ c ∈ text.toList, isBasic c = true := by
  simp [specials]

/-- Brackets and quotes in printable ASCII add nothing. -/
theorem specials_enclosed {left right : String} (hleft : specials left = [])
    (hright : specials right = []) (text : String) :
    specials (left ++ text ++ right) = specials text := by
  rw [specials_append, specials_append, hleft, hright, List.nil_append, List.append_nil]

theorem specials_join (texts : List String) :
    specials (String.join texts) = texts.flatMap specials := by
  rw [specials, String.toList_join, List.filter_flatMap]
  rfl

/-- A separator in printable ASCII adds nothing. -/
theorem specials_intercalate {separator : String} (h : specials separator = [])
    (texts : List String) :
    specials (separator.intercalate texts) = texts.flatMap specials := by
  induction texts with
  | nil => rfl
  | cons text rest ih =>
    cases rest with
    | nil => rw [String.intercalate_singleton, List.flatMap_singleton]
    | cons next rest =>
      rw [String.intercalate_cons_cons, specials_append, specials_append, h, List.append_nil, ih]
      exact List.flatMap_cons.symm

theorem isBasic_of_isLineBreak {c : Char} (h : isLineBreak c = true) : isBasic c = false := by
  simp only [isLineBreak, isBasic, Bool.or_eq_true, Bool.and_eq_true, decide_eq_true_eq,
    beq_iff_eq, Bool.and_eq_false_iff, decide_eq_false_iff_not] at h ⊢
  omega

/-- **Whether a text is on one line is told by its characters outside of printable ASCII.** -/
theorem oneLine_iff {text : String} :
    OneLine text ↔ ∀ c ∈ specials text, isLineBreak c = false := by
  refine ⟨fun h c hc => h c (List.mem_filter.1 hc).1,
    fun h c hc => Bool.eq_false_iff.2 fun hbreak => ?_⟩
  have hspecial : c ∈ specials text :=
    List.mem_filter.2 ⟨hc, by rw [isBasic_of_isLineBreak hbreak]; rfl⟩
  exact Bool.false_ne_true ((h c hspecial).symm.trans hbreak)

/-- A text is on one line if the characters outside of printable ASCII are those of others that
are. -/
theorem oneLine_iff_of_specials_eq {text : String} {others : List String}
    (h : specials text = others.flatMap specials) :
    OneLine text ↔ ∀ other ∈ others, OneLine other := by
  simp only [oneLine_iff, h, List.mem_flatMap]
  exact ⟨fun hall other hother c hc => hall c ⟨other, hother, hc⟩,
    fun hall c ⟨other, hother, hc⟩ => hall other hother c hc⟩

/-! ### Digits -/

theorem isBasic_of_isDigit {c : Char} (h : c.isDigit = true) : isBasic c = true := by
  have hzero : '0'.toNat = 0x30 := rfl
  have hnine : '9'.toNat = 0x39 := rfl
  have hdigit := Char.isDigit_iff_toNat.1 h
  simp only [isBasic, Bool.and_eq_true, decide_eq_true_eq]
  omega

theorem isBasic_of_mem_toDigits {n : Nat} {c : Char} (h : c ∈ Nat.toDigits 10 n) :
    isBasic c = true :=
  isBasic_of_isDigit (Nat.isDigit_of_mem_toDigits (by decide) (by decide) h)

theorem specials_nat (n : Nat) : specials (toString n) = [] := by
  rw [specials_eq_nil_iff, Nat.toString_eq_repr, Nat.toList_repr]
  exact fun c => isBasic_of_mem_toDigits

theorem specials_int (n : Int) : specials (toString n) = [] := by
  cases n with
  | ofNat n => exact specials_nat n
  | negSucc n =>
    show specials ("-" ++ toString (n + 1)) = []
    rw [specials_append, specials_nat]
    rfl

end TokenRules.Text
