import FormDesk.Proofs.Text.Cut
import FormDesk.Text.Basic

/-! The words of a text: its parts between blanks, without the empty ones. -/
namespace FormDesk.Text

theorem mem_or_of_mem_intercalate {α : Type} {sep : List α} {parts : List (List α)} {c : α}
    (h : c ∈ sep.intercalate parts) : c ∈ sep ∨ ∃ part ∈ parts, c ∈ part := by
  induction parts with
  | nil => exact absurd h List.not_mem_nil
  | cons part parts ih =>
    cases parts with
    | nil => exact Or.inr ⟨part, by simp, by simpa using h⟩
    | cons next parts =>
      rw [List.intercalate_cons_cons, List.append_assoc, List.mem_append, List.mem_append] at h
      rcases h with h | h | h
      · exact Or.inr ⟨part, by simp, h⟩
      · exact Or.inl h
      · rcases ih h with hsep | ⟨p, hp, hc⟩
        · exact Or.inl hsep
        · exact Or.inr ⟨p, List.mem_cons_of_mem part hp, hc⟩

theorem mem_intercalate_of_mem {α : Type} {sep : List α} {parts : List (List α)} {part : List α}
    (hpart : part ∈ parts) {c : α} (hc : c ∈ part) : c ∈ sep.intercalate parts := by
  induction parts with
  | nil => exact absurd hpart List.not_mem_nil
  | cons first parts ih =>
    cases parts with
    | nil =>
      rw [List.intercalate_singleton, ← List.mem_singleton.mp hpart]
      exact hc
    | cons next parts =>
      rw [List.intercalate_cons_cons, List.append_assoc, List.mem_append, List.mem_append]
      rcases List.mem_cons.mp hpart with rfl | hpart
      · exact Or.inl hc
      · exact Or.inr (Or.inr (ih hpart))

section
variable {s w : List Char} {c : Char}

theorem mem_words : w ∈ words s ↔ w ∈ s.splitOnP isBlank ∧ w ≠ [] := by
  simp [words]

theorem ne_nil_of_mem_words (h : w ∈ words s) : w ≠ [] := (mem_words.mp h).2

theorem isBlank_of_mem_words (h : w ∈ words s) : ∀ c ∈ w, isBlank c = false :=
  eq_false_of_mem_splitOnP (mem_words.mp h).1

theorem mem_of_mem_words (h : w ∈ words s) (hc : c ∈ w) : c ∈ s :=
  mem_of_mem_splitOnP (mem_words.mp h).1 hc

theorem exists_mem_words (hc : c ∈ s) (hblank : isBlank c = false) : ∃ w ∈ words s, c ∈ w := by
  rcases exists_mem_splitOnP_or (p := isBlank) hc with ⟨w, hw, hcw⟩ | hb
  · exact ⟨w, mem_words.mpr ⟨hw, List.ne_nil_of_mem hcw⟩, hcw⟩
  · rw [hblank] at hb
    cases hb

theorem exists_notBlank_of_words_ne_nil (h : words s ≠ []) : ∃ c ∈ s, isBlank c = false := by
  obtain ⟨w, hw⟩ := List.exists_mem_of_ne_nil _ h
  obtain ⟨c, hc⟩ := List.exists_mem_of_ne_nil _ (ne_nil_of_mem_words hw)
  exact ⟨c, mem_of_mem_words hw hc, isBlank_of_mem_words hw c hc⟩

end

end FormDesk.Text
