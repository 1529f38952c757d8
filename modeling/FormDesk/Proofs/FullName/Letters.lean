import FormDesk.FullName.Format
import FormDesk.Proofs.Text.Case
import FormDesk.Text.Letter

/-! The characters of names in upper and in lower case. Only letters are mapped to letters of names,
and no other character is mapped to a separator. -/
namespace FormDesk.NameRule
open Text

def nameLetterRanges : List (Nat × Nat) :=
  [(0x41, 0x5A), (0x61, 0x7A), (0x401, 0x401), (0x410, 0x44F), (0x451, 0x451)]

def separatorRanges : List (Nat × Nat) :=
  [(0x9, 0xD), (0x20, 0x20), (0x2D, 0x2D), (0x85, 0x85), (0xA0, 0xA0), (0x1680, 0x1680),
    (0x2000, 0x200A), (0x2028, 0x2029), (0x202F, 0x202F), (0x205F, 0x205F), (0x3000, 0x3000)]

theorem isNameLetter_iff {c : Char} :
    isNameLetter c = true ↔ inRanges nameLetterRanges c.toNat = true := by
  unfold isNameLetter inRanges nameLetterRanges
  simp only [Bool.or_eq_true, Bool.and_eq_true, decide_eq_true_eq, beq_iff_eq, Char.le_def,
    UInt32.le_iff_toNat_le, List.any_cons, List.any_nil, ← Char.toNat_inj, Char.toNat_val,
    Char.reduceToNat, Bool.false_eq_true, or_false]
  omega

theorem isSeparator_iff {c : Char} :
    isSeparator c = true ↔ inRanges separatorRanges c.toNat = true := by
  unfold isSeparator isBlank inRanges separatorRanges
  simp only [Bool.or_eq_true, Bool.and_eq_true, decide_eq_true_eq, beq_iff_eq, List.any_cons,
    List.any_nil, ← Char.toNat_inj, Char.reduceToNat, Bool.false_eq_true, or_false]
  omega

theorem isSeparator_of_isBlank {c : Char} (h : isBlank c = true) : isSeparator c = true := by
  rw [isSeparator, h, Bool.or_true]

theorem isLetter_of_isNameLetter {c : Char} (h : isNameLetter c = true) : isLetter c = true := by
  have hwithin : nameLetterRanges.all (fun r => letterRanges.any fun l => l.1 ≤ r.1 && r.2 ≤ l.2)
      = true := by decide +kernel
  rw [isNameLetter_iff, inRanges, List.any_eq_true] at h
  obtain ⟨r, hr, hc⟩ := h
  obtain ⟨l, hl, hle⟩ := List.any_eq_true.mp (List.all_eq_true.mp hwithin r hr)
  simp only [Bool.and_eq_true, decide_eq_true_eq] at hc hle
  refine List.any_eq_true.mpr ⟨l, hl, ?_⟩
  simp only [Bool.and_eq_true, decide_eq_true_eq]
  omega

theorem isLetter_of_isSeparator {c : Char} (h : isSeparator c = true) : isLetter c = false := by
  have hapart : separatorRanges.all (fun r => letterRanges.all fun l => l.2 < r.1 || r.2 < l.1)
      = true := by decide +kernel
  rw [isSeparator_iff, inRanges, List.any_eq_true] at h
  obtain ⟨r, hr, hc⟩ := h
  refine List.any_eq_false.mpr fun l hl => ?_
  have hlr := List.all_eq_true.mp (List.all_eq_true.mp hapart r hr) l hl
  simp only [Bool.and_eq_true, Bool.or_eq_true, decide_eq_true_eq] at hc hlr ⊢
  omega

theorem upper_entersOnlyFrom_letters :
    entersOnlyFrom letterRanges nameLetterRanges upperRuns upperSequences = true := by
  decide +kernel

theorem lower_entersOnlyFrom_letters :
    entersOnlyFrom letterRanges nameLetterRanges lowerRuns lowerSequences = true := by
  decide +kernel

theorem upper_entersOnlyFrom_nil :
    entersOnlyFrom [] separatorRanges upperRuns upperSequences = true := by decide

theorem lower_entersOnlyFrom_nil :
    entersOnlyFrom [] separatorRanges lowerRuns lowerSequences = true := by decide

/-- Letters of names come from letters alone. -/
theorem isLetter_of_mem_case {c d : Char} (h : d ∈ upper c ∨ d ∈ lower c)
    (hd : isNameLetter d = true) : isLetter c = true := by
  have hrange := isNameLetter_iff.mp hd
  have hfrom : d = c ∨ inRanges letterRanges c.toNat = true := by
    rcases h with h | h
    · exact eq_or_of_mem_mapCase upper_entersOnlyFrom_letters rfl h hrange
    · exact eq_or_of_mem_mapCase lower_entersOnlyFrom_letters rfl h hrange
  rcases hfrom with rfl | hletter
  · exact isLetter_of_isNameLetter hd
  · exact hletter

/-- A separator comes from itself alone. -/
theorem eq_of_mem_case {c d : Char} (h : d ∈ upper c ∨ d ∈ lower c) (hd : isSeparator d = true) :
    d = c := by
  have hrange := isSeparator_iff.mp hd
  have hnone : inRanges [] c.toNat ≠ true := by simp [inRanges]
  rcases h with h | h
  · exact (eq_or_of_mem_mapCase upper_entersOnlyFrom_nil rfl h hrange).resolve_right hnone
  · exact (eq_or_of_mem_mapCase lower_entersOnlyFrom_nil rfl h hrange).resolve_right hnone

end FormDesk.NameRule
