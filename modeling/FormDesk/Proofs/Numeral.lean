import FormDesk.Numeral
import Mathlib.Data.List.Basic

/-! The texts that are read as a numeral. -/
namespace FormDesk.Numeral

/-- The text writes the digits of a numeral. The point may be left out before no digits. -/
structure Spells (n : Numeral) (s : List Char) : Prop where
  whole_isDigit : n.whole.all Char.isDigit = true
  fraction_isDigit : n.fraction.all Char.isDigit = true
  ne_nil : n.whole ++ n.fraction ≠ []
  spelling : (s = n.whole ∧ n.fraction = []) ∨ s = n.whole ++ '.' :: n.fraction

private theorem beq_point_of_all_isDigit {s : List Char} (h : s.all Char.isDigit = true) :
    ∀ c ∈ s, (c == '.') = false := by
  intro c hc
  have hd : c.isDigit = true := List.all_eq_true.mp h c hc
  by_contra hp
  simp only [Bool.not_eq_false, beq_iff_eq] at hp
  subst hp
  exact absurd hd (by decide)

theorem Spells.ofText?_eq {n : Numeral} {s : List Char} (h : n.Spells s) : ofText? s = some n := by
  obtain ⟨whole, fraction⟩ := n
  obtain ⟨hw, hf, hne, hs⟩ := h
  dsimp only at hw hf hne hs
  rcases hs with ⟨rfl, rfl⟩ | rfl
  · have hcut : s.splitOnP (· == '.') = [s] :=
      List.splitOnP_eq_singleton (beq_point_of_all_isDigit hw)
    have hs : s.isEmpty = false := by simpa using hne
    simp only [ofText?, hcut, hw, hs, Bool.not_false, Bool.and_self, if_true]
  · have hcut : (whole ++ '.' :: fraction).splitOnP (· == '.') = [whole, fraction] := by
      rw [List.splitOnP_append_cons_of_forall_mem (beq_point_of_all_isDigit hw) '.' (by decide),
        List.splitOnP_eq_singleton (beq_point_of_all_isDigit hf)]
    have hs : (whole ++ fraction).isEmpty = false := by rwa [List.isEmpty_eq_false_iff]
    simp only [ofText?, hcut, List.all_append, hw, hf, hs, Bool.not_false, Bool.and_self, if_true]

/-- Numerals are read from their spellings and from nothing else. -/
theorem ofText?_eq_some_iff {s : List Char} {n : Numeral} : ofText? s = some n ↔ n.Spells s := by
  refine ⟨fun h => ?_, Spells.ofText?_eq⟩
  have hs : ['.'].intercalate (s.splitOnP (· == '.')) = s := List.intercalate_splitOn '.'
  unfold ofText? at h
  split at h
  · next whole hcut =>
    obtain rfl : whole = s := by simpa [hcut] using hs
    split_ifs at h with hw
    cases h
    simp only [Bool.and_eq_true, Bool.not_eq_true', List.isEmpty_eq_false_iff] at hw
    exact ⟨hw.1, rfl, by simpa using hw.2, Or.inl ⟨rfl, rfl⟩⟩
  · next whole fraction hcut =>
    obtain rfl : whole ++ '.' :: fraction = s := by simpa [hcut] using hs
    split_ifs at h with hw
    cases h
    simp only [List.all_append, Bool.and_eq_true, Bool.not_eq_true',
      List.isEmpty_eq_false_iff] at hw
    exact ⟨hw.1.1, hw.1.2, hw.2, Or.inr rfl⟩
  · exact absurd h (by simp)

theorem Spells.count_point_le {n : Numeral} {s : List Char} (h : n.Spells s) :
    s.count '.' ≤ 1 := by
  have hzero : ∀ t : List Char, t.all Char.isDigit = true → t.count '.' = 0 := by
    intro t ht
    refine List.count_eq_zero.mpr fun hm => ?_
    simpa using beq_point_of_all_isDigit ht '.' hm
  have hw := hzero _ h.whole_isDigit
  have hf := hzero _ h.fraction_isDigit
  rcases h.spelling with ⟨rfl, -⟩ | rfl
  · omega
  · rw [List.count_append, List.count_cons_self]
    omega

end FormDesk.Numeral
