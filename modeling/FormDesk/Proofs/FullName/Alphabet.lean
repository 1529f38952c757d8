import FormDesk.Proofs.FullName.Letters

/-! The letters of names in pairs of a capital and a small letter. The case mappings take the two to
each other, and leave a hyphen as it is. -/
namespace FormDesk.NameRule
open Text

/-- The upper-case letters of the Latin and the Russian alphabet. -/
def isCapital (c : Char) : Bool :=
  ('A' ≤ c && c ≤ 'Z') || ('А' ≤ c && c ≤ 'Я') || c == 'Ё'

def smallLetterRanges : List (Nat × Nat) := [(0x61, 0x7A), (0x430, 0x44F), (0x451, 0x451)]

/-- Capitals with code points in a row, and how far behind them their small letters are. -/
structure CapitalRow where
  first : Nat
  last : Nat
  shift : Nat

namespace CapitalRow

def holds (row : CapitalRow) (c : Char) : Bool := row.first ≤ c.toNat && c.toNat ≤ row.last

/-- The tables map the capitals to their small letters and these to the capitals. -/
def isPaired (row : CapitalRow) : Bool :=
  shiftsRange lowerRuns lowerSequences (row.first, row.last) row.shift &&
    shiftsRange upperRuns upperSequences (row.first + row.shift, row.last + row.shift)
      (-row.shift) && 0 < row.shift && row.last + row.shift < 0xD800

end CapitalRow

/-- The Latin capitals, `Ё`, and the other Russian capitals. -/
def capitalRows : List CapitalRow := [⟨0x41, 0x5A, 32⟩, ⟨0x401, 0x401, 80⟩, ⟨0x410, 0x42F, 32⟩]

/-- The small letter of a capital. Other characters stay. -/
def small (c : Char) : Char :=
  match capitalRows.find? (·.holds c) with
  | some row => Char.ofNat (c.toNat + row.shift)
  | none => c

theorem isPaired_capitalRows : capitalRows.all CapitalRow.isPaired = true := by decide

theorem upper_keeps : keepsRanges upperRuns upperSequences
    [(0x2D, 0x2D), (0x41, 0x5A), (0x401, 0x401), (0x410, 0x42F)] = true := by
  decide

theorem lower_keeps : keepsRanges lowerRuns lowerSequences
    ((0x2D, 0x2D) :: smallLetterRanges) = true := by
  decide

theorem upper_entersOnlyFrom_nil_small :
    entersOnlyFrom [] smallLetterRanges upperRuns upperSequences = true := by decide

section
variable {c d : Char}

theorem isCapital_iff : isCapital c = true ↔ ∃ row ∈ capitalRows, row.holds c = true := by
  rw [← List.any_eq_true]
  unfold isCapital capitalRows CapitalRow.holds
  simp only [List.any_cons, List.any_nil, Bool.or_eq_true, Bool.and_eq_true, decide_eq_true_eq,
    beq_iff_eq, Char.le_def, UInt32.le_iff_toNat_le, ← Char.toNat_inj, Char.toNat_val,
    Char.reduceToNat, Bool.false_eq_true, or_false]
  omega

theorem isCapital_or_small (h : isNameLetter c = true) :
    isCapital c = true ∨ inRanges smallLetterRanges c.toNat = true := by
  rw [isNameLetter_iff] at h
  unfold inRanges nameLetterRanges at h
  unfold isCapital inRanges smallLetterRanges
  simp only [Bool.or_eq_true, Bool.and_eq_true, decide_eq_true_eq, beq_iff_eq, Char.le_def,
    UInt32.le_iff_toNat_le, List.any_cons, List.any_nil, ← Char.toNat_inj, Char.toNat_val,
    Char.reduceToNat, Bool.false_eq_true, or_false] at h ⊢
  omega

theorem exists_row_of_small (h : inRanges smallLetterRanges c.toNat = true) :
    ∃ row ∈ capitalRows, row.first + row.shift ≤ c.toNat ∧ c.toNat ≤ row.last + row.shift := by
  have hrow : capitalRows.any (fun row =>
      row.first + row.shift ≤ c.toNat && c.toNat ≤ row.last + row.shift) = true := by
    unfold inRanges smallLetterRanges at h
    unfold capitalRows
    simp only [List.any_cons, List.any_nil, Bool.or_eq_true, Bool.and_eq_true, decide_eq_true_eq,
      Bool.false_eq_true, or_false] at h ⊢
    omega
  simpa using hrow

theorem small_of_not_isCapital (h : isCapital c = false) : small c = c := by
  have hnone : capitalRows.find? (·.holds c) = none := by
    apply List.find?_eq_none.mpr
    intro row hrow hc
    rw [isCapital_iff.mpr ⟨row, hrow, hc⟩] at h
    cases h
  rw [small, hnone]

/-- A capital is taken to its small letter, and back again. -/
theorem case_of_isCapital (h : isCapital c = true) :
    lower c = [small c] ∧ upper (small c) = [c] := by
  obtain ⟨row, hfind⟩ := Option.isSome_iff_exists.mp (List.find?_isSome.mpr (isCapital_iff.mp h))
  have hsmall : small c = Char.ofNat (c.toNat + row.shift) := by rw [small, hfind]
  have hc := List.find?_some hfind
  have hpaired := List.all_eq_true.mp isPaired_capitalRows row (List.mem_of_find?_eq_some hfind)
  simp only [CapitalRow.holds, CapitalRow.isPaired, Bool.and_eq_true, decide_eq_true_eq]
    at hc hpaired
  obtain ⟨⟨⟨hlower, hupper⟩, -⟩, hbound⟩ := hpaired
  have hcode : (small c).toNat = c.toNat + row.shift := by
    rw [hsmall]
    exact toNat_ofNat_of_lt (by omega)
  constructor
  · have hshift : ((c.toNat : Int) + (row.shift : Nat)).toNat = c.toNat + row.shift := by omega
    rw [hsmall, ← hshift]
    exact mapCase_of_shiftsRange hlower hc.1 hc.2
  · have hback : (((small c).toNat : Int) + -(row.shift : Nat)).toNat = c.toNat := by omega
    have himage : upper (small c) = [Char.ofNat (((small c).toNat : Int) + -row.shift).toNat] :=
      mapCase_of_shiftsRange hupper (by dsimp only; omega) (by dsimp only; omega)
    rw [himage, hback, Char.ofNat_toNat]

theorem upper_of_keeps (h : isCapital c = true ∨ c = '-') : upper c = [c] := by
  apply mapCase_of_keepsRanges upper_keeps
  unfold isCapital at h
  unfold inRanges
  simp only [List.any_cons, List.any_nil, Bool.or_eq_true, Bool.and_eq_true, decide_eq_true_eq,
    beq_iff_eq, Char.le_def, UInt32.le_iff_toNat_le, ← Char.toNat_inj, Char.toNat_val,
    Char.reduceToNat, Bool.false_eq_true, or_false] at h ⊢
  omega

theorem lower_of_keeps (h : inRanges smallLetterRanges c.toNat = true ∨ c = '-') :
    lower c = [c] := by
  apply mapCase_of_keepsRanges lower_keeps
  rw [inRanges, List.any_cons, Bool.or_eq_true]
  rcases h with h | rfl
  · exact Or.inr h
  · exact Or.inl rfl

/-- In lower case a letter is the small one of its pair. -/
theorem lower_eq_small (h : isNameLetter c = true ∨ c = '-') : lower c = [small c] := by
  by_cases hcapital : isCapital c = true
  · exact (case_of_isCapital hcapital).1
  · have hsmall : inRanges smallLetterRanges c.toNat = true ∨ c = '-' :=
      h.imp_left fun hletter => (isCapital_or_small hletter).resolve_left hcapital
    rw [small_of_not_isCapital (by simpa using hcapital)]
    exact lower_of_keeps hsmall

/-- In upper case the letters of a pair are the same. -/
theorem upper_small (c : Char) : upper (small c) = upper c := by
  by_cases hcapital : isCapital c = true
  · rw [(case_of_isCapital hcapital).2, upper_of_keeps (Or.inl hcapital)]
  · rw [small_of_not_isCapital (by simpa using hcapital)]

/-- A small letter is not in upper case, and no other character is mapped to one. -/
theorem isCapital_of_mem_upper (h : d ∈ upper c) (hd : isNameLetter d = true) :
    isCapital d = true := by
  rcases isCapital_or_small hd with hcapital | hsmall
  · exact hcapital
  · exfalso
    have hnone : inRanges [] c.toNat ≠ true := by simp [inRanges]
    have hsame : d = c :=
      (eq_or_of_mem_mapCase upper_entersOnlyFrom_nil_small rfl h hsmall).resolve_right hnone
    subst hsame
    obtain ⟨row, hrow, hlo, hhi⟩ := exists_row_of_small hsmall
    have hpaired := List.all_eq_true.mp isPaired_capitalRows row hrow
    simp only [CapitalRow.isPaired, Bool.and_eq_true, decide_eq_true_eq] at hpaired
    obtain ⟨⟨⟨-, hupper⟩, hpos⟩, hbound⟩ := hpaired
    have himage : upper d = [Char.ofNat ((d.toNat : Int) + -row.shift).toNat] :=
      mapCase_of_shiftsRange hupper hlo hhi
    rw [himage, List.mem_singleton] at h
    have hcode := congrArg Char.toNat h
    rw [toNat_ofNat_of_lt (by omega)] at hcode
    omega

end

end FormDesk.NameRule
