import FormDesk.Proofs.FullName.Format
import FormDesk.Proofs.Text.CaseTwice
import FormDesk.Proofs.Text.Spaced

/-! Tidy parts that are tidied again. The words stay the same, and all of a capitalized word is in
place but the further capitals that the upper case of some characters brings along. -/
namespace FormDesk
open Text NameRule

namespace FullName
variable {s w : List Char}

theorem capitalize_ne_nil (h : w ≠ []) : capitalize w ≠ [] := by
  obtain ⟨c, w, rfl⟩ := List.exists_cons_of_ne_nil h
  exact List.append_ne_nil_of_left_ne_nil (upper_ne_nil c) _

theorem isBlank_of_mem_capitalize (hw : ∀ c ∈ w, isBlank c = false) :
    ∀ d ∈ capitalize w, isBlank d = false := by
  intro d hd
  obtain ⟨c, hc, hcase⟩ := exists_of_mem_capitalize hd
  by_contra hblank
  rw [Bool.not_eq_false] at hblank
  rw [eq_of_mem_case hcase (isSeparator_of_isBlank hblank), hw c hc] at hblank
  cases hblank

/-- The words of a tidy part are the words of the part, capitalized. -/
theorem words_tidyPart (s : List Char) : words (tidyPart s) = (words s).map capitalize := by
  apply words_unwords
  intro v hv
  obtain ⟨w, hw, rfl⟩ := List.mem_map.mp hv
  exact ⟨capitalize_ne_nil (ne_nil_of_mem_words hw),
    isBlank_of_mem_capitalize (isBlank_of_mem_words hw)⟩

theorem tidyPart_eq_iff {t : List Char} :
    tidyPart s = tidyPart t ↔ (words s).map capitalize = (words t).map capitalize := by
  constructor
  · intro h
    rw [← words_tidyPart, ← words_tidyPart, h]
  · exact congrArg unwords

/-- The second time, only what the upper case holds behind its first character is mapped. -/
theorem capitalize_capitalize {c d : Char} {u : List Char} (h : upper c = d :: u) :
    capitalize (capitalize (c :: w)) = d :: (u.flatMap lower ++ w.flatMap lower) := by
  have hfirst : upper d = [d] := upper_of_head?_upper (by rw [h, List.head?_cons])
  have hword : capitalize (c :: w) = d :: (u ++ w.flatMap lower) := by
    rw [capitalize, h, List.cons_append]
  rw [hword, capitalize, hfirst, List.flatMap_append, flatMap_lower_lower, List.singleton_append]

theorem capitalize_capitalize_eq_iff : capitalize (capitalize w) = capitalize w ↔
    ∀ c ∈ w.head?, inRanges doubleCapitalRanges c.toNat = false := by
  cases w with
  | nil => simp [capitalize]
  | cons c w =>
    obtain ⟨d, u, hupper⟩ := List.exists_cons_of_ne_nil (upper_ne_nil c)
    have hword : capitalize (c :: w) = d :: (u ++ w.flatMap lower) := by
      rw [capitalize, hupper, List.cons_append]
    have htail := lower_tail_upper_iff (c := c)
    rw [hupper, List.tail_cons, ← flatMap_eq_self_iff lower_ne_nil] at htail
    rw [capitalize_capitalize hupper, hword, List.cons_inj_right, List.append_cancel_right_eq,
      htail]
    simp

theorem capitalize_capitalize_capitalize (w : List Char) :
    capitalize (capitalize (capitalize w)) = capitalize (capitalize w) := by
  cases w with
  | nil => rfl
  | cons c w =>
    obtain ⟨d, u, hupper⟩ := List.exists_cons_of_ne_nil (upper_ne_nil c)
    have hfirst : upper d = [d] := upper_of_head?_upper (by rw [hupper, List.head?_cons])
    rw [capitalize_capitalize hupper, capitalize, hfirst, List.flatMap_append, flatMap_lower_lower,
      flatMap_lower_lower, List.singleton_append]

/-- Tidying again changes a part exactly if a word begins with a double capital, and then no
further time. -/
theorem tidyPart_tidyPart_eq_iff (s : List Char) :
    (tidyPart (tidyPart s) = tidyPart s ↔
      ∀ w ∈ words s, ∀ c ∈ w.head?, inRanges doubleCapitalRanges c.toNat = false) ∧
    tidyPart (tidyPart (tidyPart s)) = tidyPart (tidyPart s) := by
  constructor
  · rw [tidyPart_eq_iff, words_tidyPart, List.map_map, List.map_inj_left]
    simp only [Function.comp_apply, capitalize_capitalize_eq_iff]
  · rw [tidyPart_eq_iff, words_tidyPart, words_tidyPart, List.map_map, List.map_map,
      List.map_map, List.map_inj_left]
    intro w _
    exact capitalize_capitalize_capitalize w

/-- The upper case of `ß` is `SS`, and the second `S` is put in lower case by the next tidying. -/
theorem not_forall_tidyPart_tidyPart : ¬ ∀ s, tidyPart (tidyPart s) = tidyPart s := by
  intro h
  have hsharp : tidyPart (tidyPart ['ß']) = "Ss".toList := by decide
  have hfirst : tidyPart ['ß'] = "SS".toList := by decide
  rw [h, hfirst] at hsharp
  exact absurd hsharp (by decide)

end FullName

end FormDesk
