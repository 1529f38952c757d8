import FormDesk.FullName.Format
import FormDesk.Proofs.FullName.Letters
import FormDesk.Proofs.FullName.Rules
import FormDesk.Proofs.Text.Trim
import FormDesk.Proofs.Text.Words

/-! Names that are written. The tidy spelling of each part complies with every rule, and this tells
what stood in the part before. -/
namespace FormDesk
open Text NameRule

namespace FullName
variable {n : FullName}

theorem format_eq_missingRequired_iff :
    n.format = .error .missingRequired ↔ trim n.surname = [] ∨ trim n.firstName = [] := by
  unfold format
  split
  · next h => simpa using h
  · next h =>
    have hnot : ¬ (trim n.surname = [] ∨ trim n.firstName = []) := by simpa using h
    refine iff_of_false ?_ hnot
    cases hcheck : n.tidy.check with
    | error fault =>
      obtain ⟨rule, part, rfl⟩ := exists_of_check_eq_error hcheck
      intro hbroken
      cases hbroken
    | ok _ =>
      intro hok
      cases hok

theorem check_tidy_of_format {t : List Char} (h : n.format = .ok t) :
    n.tidy.check = .ok () ∧ t = n.tidy.initials := by
  unfold format at h
  split at h
  · cases h
  · cases hcheck : n.tidy.check with
    | error fault =>
      rw [hcheck] at h
      cases h
    | ok _ =>
      rw [hcheck] at h
      cases h
      exact ⟨rfl, rfl⟩

theorem exists_of_mem_capitalize {w : List Char} {d : Char} (h : d ∈ capitalize w) :
    ∃ c ∈ w, d ∈ upper c ∨ d ∈ lower c := by
  cases w with
  | nil => exact absurd h List.not_mem_nil
  | cons c w =>
    rw [capitalize, List.mem_append, List.mem_flatMap] at h
    rcases h with h | ⟨e, he, h⟩
    · exact ⟨c, List.mem_cons_self, Or.inl h⟩
    · exact ⟨e, List.mem_cons_of_mem c he, Or.inr h⟩

theorem exists_mem_capitalize {w : List Char} {c : Char} (h : c ∈ w) :
    ∃ d ∈ capitalize w, d ∈ upper c ∨ d ∈ lower c := by
  cases w with
  | nil => exact absurd h List.not_mem_nil
  | cons first w =>
    rw [capitalize]
    rcases List.mem_cons.mp h with rfl | h
    · obtain ⟨d, hd⟩ := List.exists_mem_of_ne_nil _ (upper_ne_nil c)
      exact ⟨d, List.mem_append_left _ hd, Or.inl hd⟩
    · obtain ⟨d, hd⟩ := List.exists_mem_of_ne_nil _ (lower_ne_nil c)
      exact ⟨d, List.mem_append_right _ (List.mem_flatMap.mpr ⟨c, h, hd⟩), Or.inr hd⟩

/-- What stands in a tidy part is a space, or comes from a character of a word. -/
theorem exists_of_mem_tidyPart {s : List Char} {d : Char} (h : d ∈ tidyPart s) :
    d = ' ' ∨ ∃ c ∈ s, isBlank c = false ∧ (d ∈ upper c ∨ d ∈ lower c) := by
  rcases mem_or_of_mem_intercalate h with hspace | ⟨part, hpart, hd⟩
  · exact Or.inl (List.mem_singleton.mp hspace)
  · obtain ⟨w, hw, rfl⟩ := List.mem_map.mp hpart
    obtain ⟨c, hc, hcase⟩ := exists_of_mem_capitalize hd
    exact Or.inr ⟨c, mem_of_mem_words hw hc, isBlank_of_mem_words hw c hc, hcase⟩

theorem eq_space_of_mem_tidyPart {s : List Char} {d : Char} (h : d ∈ tidyPart s)
    (hblank : isBlank d = true) : d = ' ' := by
  rcases exists_of_mem_tidyPart h with hspace | ⟨c, -, hc, hcase⟩
  · exact hspace
  · rw [← eq_of_mem_case hcase (isSeparator_of_isBlank hblank), hblank] at hc
    cases hc

/-- No character of a word is lost in a tidy part. -/
theorem exists_mem_tidyPart {s : List Char} {c : Char} (h : c ∈ s) (hblank : isBlank c = false) :
    ∃ d ∈ tidyPart s, d ∈ upper c ∨ d ∈ lower c := by
  obtain ⟨w, hw, hc⟩ := exists_mem_words h hblank
  obtain ⟨d, hd, hcase⟩ := exists_mem_capitalize hc
  exact ⟨d, mem_intercalate_of_mem (List.mem_map_of_mem hw) hd, hcase⟩

theorem mem_parts_tidy {p : NamePart × List Char} (h : p ∈ n.parts) (hne : tidyPart p.2 ≠ []) :
    (p.1, tidyPart p.2) ∈ n.tidy.parts := by
  simp only [parts, List.cons_append, List.nil_append, List.mem_cons, List.mem_map,
    Option.mem_toList] at h ⊢
  rcases h with rfl | rfl | ⟨patronymic, hsome, rfl⟩
  · exact Or.inl rfl
  · exact Or.inr (Or.inl rfl)
  · refine Or.inr (Or.inr ⟨tidyPart patronymic, ?_, rfl⟩)
    rw [tidy, hsome]
    simpa [Option.filter] using hne

theorem exists_of_mem_parts_tidy {p : NamePart × List Char} (h : p ∈ n.tidy.parts) :
    ∃ q ∈ n.parts, p = (q.1, tidyPart q.2) := by
  simp only [parts, tidy, List.cons_append, List.nil_append, List.mem_cons, List.mem_map,
    Option.mem_toList] at h ⊢
  rcases h with rfl | rfl | ⟨patronymic, hsome, rfl⟩
  · exact ⟨_, Or.inl rfl, rfl⟩
  · exact ⟨_, Or.inr (Or.inl rfl), rfl⟩
  · obtain ⟨hmap, -⟩ := Option.filter_eq_some_iff.mp hsome
    obtain ⟨given, hgiven, rfl⟩ := Option.map_eq_some_iff.mp hmap
    exact ⟨_, Or.inr (Or.inr ⟨given, hgiven, rfl⟩), rfl⟩

/-- Letters, hyphens and blanks make up the parts of a name that is written. -/
theorem isLetter_or_isSeparator_of_format {t : List Char} (h : n.format = .ok t)
    {p : NamePart × List Char} (hp : p ∈ n.parts) {c : Char} (hc : c ∈ p.2) :
    isLetter c = true ∨ isSeparator c = true := by
  by_cases hblank : isBlank c = true
  · exact Or.inr (isSeparator_of_isBlank hblank)
  · obtain ⟨d, hd, hcase⟩ := exists_mem_tidyPart hc (by simpa using hblank)
    have hpart := mem_parts_tidy hp (List.ne_nil_of_mem hd)
    have hrule := check_eq_ok_iff.mp (check_tidy_of_format h).1 .characterSet _ hpart
    rcases Bool.or_eq_true_iff.mp (isBroken_characterSet_iff.mp hrule d hd) with hletter | hd
    · exact Or.inl (isLetter_of_mem_case hcase hletter)
    · exact Or.inr (eq_of_mem_case hcase hd ▸ hd)

theorem exists_isLetter_of_format {t : List Char} (h : n.format = .ok t) :
    ∃ c ∈ n.surname, isLetter c = true := by
  have hpart : (.surname, tidyPart n.surname) ∈ n.tidy.parts := by simp [parts, tidy]
  have hrule := check_eq_ok_iff.mp (check_tidy_of_format h).1 .lettersOnly _ hpart
  obtain ⟨⟨d, hd, hseparator⟩, hletters⟩ := isBroken_lettersOnly_iff.mp hrule
  have hname := hletters d hd hseparator
  rcases exists_of_mem_tidyPart hd with rfl | ⟨c, hc, -, hcase⟩
  · cases hname
  · exact ⟨c, hc, isLetter_of_mem_case hcase hname⟩

theorem mem_of_mem_initial {s : List Char} {c : Char} (h : c ∈ initial s) : c ∈ s ∨ c = '.' := by
  cases s with
  | nil => cases h
  | cons d s =>
    rcases List.mem_cons.mp h with rfl | h
    · exact Or.inl List.mem_cons_self
    · exact Or.inr (List.mem_singleton.mp h)

/-- Initials add spaces and points to the characters of the parts. -/
theorem exists_part_of_mem_initials {c : Char} (h : c ∈ n.initials) :
    (∃ p ∈ n.parts, c ∈ p.2) ∨ c = ' ' ∨ c = '.' := by
  have hmem := (isCore_trimBy isBlank _).mem h
  simp only [parts, List.cons_append, List.nil_append, List.exists_mem_cons_iff]
  rcases List.mem_append.mp hmem with hsurname | hrest
  · exact Or.inl (Or.inl hsurname)
  · rcases List.mem_cons.mp hrest with hspace | hrest
    · exact Or.inr (Or.inl hspace)
    · rcases List.mem_append.mp hrest with hfirst | hpatronymic
      · rcases mem_of_mem_initial hfirst with hc | hpoint
        · exact Or.inl (Or.inr (Or.inl hc))
        · exact Or.inr (Or.inr hpoint)
      · cases hsome : n.patronymic with
        | none =>
          rw [hsome] at hpatronymic
          cases hpatronymic
        | some patronymic =>
          rw [hsome] at hpatronymic
          rcases mem_of_mem_initial hpatronymic with hc | hpoint
          · exact Or.inl (Or.inr (Or.inr (by simp [hc])))
          · exact Or.inr (Or.inr hpoint)

theorem newline_notMem_of_format {t : List Char} (h : n.format = .ok t) : '\n' ∉ t := by
  rw [(check_tidy_of_format h).2]
  intro hmem
  rcases exists_part_of_mem_initials hmem with ⟨p, hp, hc⟩ | hspace | hpoint
  · obtain ⟨q, -, rfl⟩ := exists_of_mem_parts_tidy hp
    exact absurd (eq_space_of_mem_tidyPart hc (by decide)) (by decide)
  · exact absurd hspace (by decide)
  · exact absurd hpoint (by decide)

end FullName

end FormDesk
