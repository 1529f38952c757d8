import FormDesk.Proofs.ValueText.Decimal

/-! Values are written unless the precision is too large, and their texts are single lines. -/
namespace FormDesk.ValueText
open Binary64

/-- A finite value that is not written as an integer: it has a fraction, or it is too large. -/
inductive NeedsPlaces : Binary64 → Prop
  | fraction (negative : Bool) (m : Magnitude) (h : ¬ one ∣ m.units) :
      NeedsPlaces (.finite negative m)
  | large (negative : Bool) (m : Magnitude) (h : integerLimit * one ≤ m.units) :
      NeedsPlaces (.finite negative m)

theorem needsPlaces_finite_iff {negative : Bool} {m : Magnitude} :
    NeedsPlaces (.finite negative m) ↔
      (m.isWhole && decide (m.whole < integerLimit)) = false := by
  have hwhole : m.isWhole = true ↔ one ∣ m.units := by
    rw [Magnitude.isWhole, beq_iff_eq, Nat.dvd_iff_mod_eq_zero]
  have hlarge : integerLimit ≤ m.whole ↔ integerLimit * one ≤ m.units := by
    rw [Magnitude.whole, Nat.le_div_iff_mul_le Binary64.one_pos]
  rw [Bool.and_eq_false_iff, decide_eq_false_iff_not, Nat.not_lt, hlarge, ← Bool.not_eq_true,
    hwhole]
  constructor
  · intro h
    cases h with
    | fraction _ _ h => exact Or.inl h
    | large _ _ h => exact Or.inr h
  · intro h
    rcases h with h | h
    · exact .fraction negative m h
    · exact .large negative m h

/-- The precision is at fault only where places are needed. -/
theorem plain_eq_error_iff {v : Binary64} {p : Nat} {e : PrecisionTooLarge} :
    plain v p = .error e ↔ e = ⟨p⟩ ∧ maxPrecision < p ∧ NeedsPlaces v := by
  cases v with
  | nan => exact ⟨nofun, fun h => nomatch h.2.2⟩
  | infinity negative => exact ⟨nofun, fun h => nomatch h.2.2⟩
  | finite negative m =>
    rw [needsPlaces_finite_iff]
    unfold plain
    dsimp only
    split_ifs with hint hlarge
    · simp [hint]
    · simp [hint, hlarge, eq_comm]
    · simp [hlarge]

theorem exists_plain (v : Binary64) {p : Nat} (hp : p ≤ maxPrecision) :
    ∃ t, plain v p = .ok t := by
  cases h : plain v p with
  | ok t => exact ⟨t, rfl⟩
  | error e =>
    have hlarge : maxPrecision < p := (plain_eq_error_iff.mp h).2.1
    omega

theorem displayed_eq_error_iff {v : Binary64} {settings : DisplaySettings}
    {e : PrecisionTooLarge} : displayed v settings = .error e ↔
      e = ⟨settings.precision.toNat⟩ ∧ maxPrecision < settings.precision.toNat ∧
        NeedsPlaces v := by
  rw [← plain_eq_error_iff, displayed]
  cases plain v settings.precision.toNat with
  | ok s => exact ⟨nofun, nofun⟩
  | error e' => exact Iff.rfl

theorem exists_displayed (v : Binary64) {settings : DisplaySettings}
    (hp : settings.precision.toNat ≤ maxPrecision) : ∃ t, displayed v settings = .ok t := by
  obtain ⟨t, ht⟩ := exists_plain v hp
  rw [displayed, ht]
  exact ⟨_, rfl⟩

theorem mem_of_mem_trimFraction {s : List Char} {c : Char} (h : c ∈ trimFraction s) : c ∈ s := by
  unfold trimFraction at h
  split_ifs at h
  · have hzeros := (List.dropWhile_sublist _).mem (List.mem_reverse.mp h)
    exact List.mem_reverse.mp ((List.dropWhile_sublist _).mem hzeros)
  · exact h

theorem newline_notMem_toDigits (n : Nat) : '\n' ∉ Nat.toDigits 10 n :=
  Numeral.notMem_of_all_isDigit (Numeral.all_isDigit_toDigits n) rfl

theorem newline_notMem_signText (negative : Bool) : '\n' ∉ signText negative := by
  cases negative <;> decide

theorem newline_notMem_placedText (n places : Nat) : '\n' ∉ placedText n places := by
  have hwhole := newline_notMem_toDigits (n / 10 ^ places)
  have hfraction := Numeral.notMem_of_all_isDigit
    (Numeral.all_isDigit_paddedDigits places (n % 10 ^ places)) (rfl : '\n'.isDigit = false)
  unfold placedText
  split_ifs
  · simp [hwhole]
  · simp [hwhole, hfraction]

theorem newline_notMem_plain {v : Binary64} {p : Nat} {t : List Char} (h : plain v p = .ok t) :
    '\n' ∉ t := by
  cases v with
  | nan =>
    cases h
    decide
  | infinity negative =>
    cases h
    decide
  | finite negative m =>
    unfold plain at h
    dsimp only at h
    split_ifs at h with hint hlarge
    · cases h
      rw [List.mem_append, not_or]
      exact ⟨newline_notMem_signText _, newline_notMem_toDigits _⟩
    · cases h
      intro hmem
      rcases List.mem_append.mp (mem_of_mem_trimFraction hmem) with hsign | hplaced
      · exact newline_notMem_signText _ hsign
      · exact newline_notMem_placedText _ _ hplaced

theorem newline_notMem_group {s : List Char} (h : '\n' ∉ s) : '\n' ∉ group s := by
  intro hmem
  have hfilter : '\n' ∈ (group s).filter (· != ',') := List.mem_filter.mpr ⟨hmem, rfl⟩
  rw [filter_group] at hfilter
  exact h (List.mem_of_mem_filter hfilter)

theorem newline_notMem_groupWhole {s : List Char} (h : '\n' ∉ s) : '\n' ∉ groupWhole s := by
  have hwhole : '\n' ∉ s.takeWhile (· != '.') := fun hmem => h (List.takeWhile_subset _ hmem)
  have hrest : '\n' ∉ s.dropWhile (· != '.') := fun hmem => h (List.dropWhile_subset _ hmem)
  rw [groupWhole, List.mem_append, not_or]
  exact ⟨newline_notMem_group hwhole, hrest⟩

theorem newline_notMem_displayed {v : Binary64} {settings : DisplaySettings} {t : List Char}
    (h : displayed v settings = .ok t) : '\n' ∉ t := by
  unfold displayed at h
  cases hplain : plain v settings.precision.toNat with
  | error e =>
    rw [hplain] at h
    cases h
  | ok s =>
    have hs := newline_notMem_plain hplain
    rw [hplain] at h
    cases h
    split_ifs
    · exact newline_notMem_groupWhole hs
    · exact hs

end FormDesk.ValueText
