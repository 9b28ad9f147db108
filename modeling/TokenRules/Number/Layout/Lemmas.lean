import TokenRules.Number.Layout
import TokenRules.Text.Lines

/-!
# Characters of written numbers

The digits of a number, the point and the signs around them are in printable ASCII, in every layout
that writes infinities and NaNs so (`specials_text`).
-/

namespace TokenRules

open Text (isBasic specials)

namespace Layout

/-- What a layout may put in front of the digits or behind them. -/
theorem isBasic_of_mem_ite {p : Prop} [Decidable p] {mark other : List Char}
    (hmark : mark.all isBasic = true) (hother : other.all isBasic = true) :
    ∀ c ∈ (if p then mark else other), isBasic c = true := by
  split
  · exact List.all_eq_true.1 hmark
  · exact List.all_eq_true.1 hother

theorem isBasic_of_mem_zeros {n : Int} {c : Char} (h : c ∈ zeros n) : isBasic c = true := by
  obtain rfl := List.eq_of_mem_replicate h
  rfl

variable {layout : Layout}

section Digits

variable {digits : List Char} (hdigits : ∀ c ∈ digits, isBasic c = true)
include hdigits

theorem isBasic_of_mem_positionalText {point : Int} :
    ∀ c ∈ layout.positionalText digits point, isBasic c = true := by
  have hzeros (n : Int) : ∀ c ∈ zeros n, isBasic c = true := fun c => isBasic_of_mem_zeros
  unfold positionalText
  split
  · simp only [List.forall_mem_cons, List.cons_append, List.forall_mem_append]
    exact ⟨rfl, rfl, hzeros _, hdigits⟩
  · split
    · exact List.forall_mem_append.2
        ⟨List.forall_mem_append.2 ⟨hdigits, hzeros _⟩, isBasic_of_mem_ite rfl rfl⟩
    · refine List.forall_mem_append.2 ⟨fun c hc => hdigits c (List.mem_of_mem_take hc), ?_⟩
      exact List.forall_mem_cons.2 ⟨rfl, fun c hc => hdigits c (List.mem_of_mem_drop hc)⟩

theorem isBasic_of_mem_exponentText {point : Int} :
    ∀ c ∈ exponentText digits point, isBasic c = true := by
  unfold exponentText
  simp only [List.forall_mem_cons, List.forall_mem_append]
  refine ⟨⟨⟨fun c hc => hdigits c (List.mem_of_mem_take hc), ?_⟩, rfl,
    isBasic_of_mem_ite rfl rfl⟩, fun c => Text.isBasic_of_mem_toDigits⟩
  split
  · exact fun c hc => absurd hc List.not_mem_nil
  · exact List.forall_mem_cons.2 ⟨rfl, fun c hc => hdigits c (List.mem_of_mem_drop hc)⟩

end Digits

theorem isBasic_of_mem_magnitudeText {magnitude : Nat} :
    ∀ c ∈ layout.magnitudeText magnitude, isBasic c = true := by
  have hdigits (n : Nat) : ∀ c ∈ Decimal.digitChars n, isBasic c = true :=
    fun c => Text.isBasic_of_mem_toDigits
  unfold magnitudeText
  split
  · exact isBasic_of_mem_ite rfl rfl
  · dsimp only
    split
    · exact isBasic_of_mem_positionalText (hdigits _)
    · split
      · exact isBasic_of_mem_positionalText (hdigits _)
      · exact isBasic_of_mem_exponentText (hdigits _)

/-- A number is written in printable ASCII if infinities and NaNs are. -/
theorem specials_text (hinfinity : specials layout.infinity = []) (hnan : specials layout.nan = [])
    (x : Binary64) : specials (layout.text x) = [] := by
  unfold text
  split
  · exact hnan
  · rw [Text.specials_append, List.append_eq_nil_iff]
    constructor
    · split <;> rfl
    · split
      · exact hinfinity
      · rw [Text.specials_eq_nil_iff, String.toList_ofList]
        exact isBasic_of_mem_magnitudeText

end Layout

end TokenRules
