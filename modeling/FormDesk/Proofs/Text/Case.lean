import FormDesk.Text.Case
import Mathlib.Data.List.Basic

/-! Which characters a case mapping takes into a class of characters. The class is given by ranges
of code points, so that a table of runs is searched run by run. -/
namespace FormDesk.Text

def inRanges (ranges : List (Nat × Nat)) (n : Nat) : Bool :=
  ranges.any fun (first, last) => first ≤ n && n ≤ last

/-- The code points in ranges, one by one. -/
def members (ranges : List (Nat × Nat)) : List Nat :=
  ranges.flatMap fun (first, last) => List.range' first (last + 1 - first)

theorem mem_members {ranges : List (Nat × Nat)} {n : Nat} (h : inRanges ranges n = true) :
    n ∈ members ranges := by
  unfold inRanges at h
  obtain ⟨r, hr, hn⟩ := List.any_eq_true.mp h
  simp only [Bool.and_eq_true, decide_eq_true_eq] at hn
  apply List.mem_flatMap.mpr
  refine ⟨r, hr, ?_⟩
  rw [List.mem_range'_1]
  omega

namespace CaseRun

/-- No member of a run has its image in the range. -/
def avoids (r : CaseRun) (range : Nat × Nat) : Bool :=
  r.image r.last < range.1 || range.2 < r.image r.first

def isWithin (r : CaseRun) (range : Nat × Nat) : Bool :=
  range.1 ≤ r.first && r.last ≤ range.2

theorem le_of_contains {r : CaseRun} {n : Nat} (h : r.contains n = true) :
    r.first ≤ n ∧ n ≤ r.last := by
  unfold contains at h
  simp only [Bool.and_eq_true, decide_eq_true_eq] at h
  exact h.1

theorem not_mem_range_of_avoids {r : CaseRun} {range : Nat × Nat} (h : r.avoids range = true)
    {n : Nat} (hn : r.contains n = true) : ¬ (range.1 ≤ r.image n ∧ r.image n ≤ range.2) := by
  have hle := le_of_contains hn
  unfold avoids image at h
  simp only [Bool.or_eq_true, decide_eq_true_eq] at h
  unfold image
  omega

end CaseRun

/-- The tables take every code point of the range as far along as `shift` says. -/
def shiftsRange (runs : List CaseRun) (sequences : List (Nat × List Nat)) (range : Nat × Nat)
    (shift : Int) : Bool :=
  (sequences.all fun e => e.1 < range.1 || range.2 < e.1) &&
    (runs.all fun r => r.last < range.1 || range.2 < r.first || r.shift == shift) &&
      runs.any fun r => r.first ≤ range.1 && range.2 ≤ r.last && r.stride == 1

/-- The tables have nothing in the ranges. -/
def keepsRanges (runs : List CaseRun) (sequences : List (Nat × List Nat))
    (ranges : List (Nat × Nat)) : Bool :=
  (sequences.all fun e => !inRanges ranges e.1) &&
    runs.all fun r => ranges.all fun range => r.last < range.1 || range.2 < r.first

/-- Nothing in the tables is taken into `target` but what comes from `source`. -/
def entersOnlyFrom (source target : List (Nat × Nat)) (runs : List CaseRun)
    (sequences : List (Nat × List Nat)) : Bool :=
  (sequences.all fun (n, s) => s.all (!inRanges target ·) || inRanges source n) &&
    runs.all fun r => target.all r.avoids || source.any r.isWithin

section
variable {runs : List CaseRun} {sequences : List (Nat × List Nat)} {c d : Char}

theorem mem_sequences_of_lookup {n : Nat} {s : List Nat} (h : sequences.lookup n = some s) :
    (n, s) ∈ sequences := by
  obtain ⟨l, r, hl, -⟩ := List.lookup_eq_some_iff.mp h
  simp [hl]

/-- A character is mapped by a sequence or by a run, or stays. -/
theorem mapCase_cases (runs : List CaseRun) (sequences : List (Nat × List Nat)) (c : Char) :
    (∃ s, (c.toNat, s) ∈ sequences ∧ mapCase runs sequences c = s.map Char.ofNat) ∨
    (∃ r ∈ runs, r.contains c.toNat = true ∧
      mapCase runs sequences c = [Char.ofNat (r.image c.toNat)]) ∨
    ((∀ r ∈ runs, r.contains c.toNat = false) ∧ mapCase runs sequences c = [c]) := by
  unfold mapCase
  split
  · next s hs => exact Or.inl ⟨s, mem_sequences_of_lookup hs, rfl⟩
  · split
    · next r hr =>
      have hcontains := List.find?_some hr
      exact Or.inr (Or.inl ⟨r, List.mem_of_find?_eq_some hr, hcontains, rfl⟩)
    · next hnone => exact Or.inr (Or.inr ⟨by simpa using hnone, rfl⟩)

theorem exists_sequence_of_mem (runs : List CaseRun) (h : c.toNat ∈ sequences.map Prod.fst) :
    ∃ s, (c.toNat, s) ∈ sequences ∧ mapCase runs sequences c = s.map Char.ofNat := by
  obtain ⟨e, he, hcode⟩ := List.mem_map.mp h
  cases hlookup : sequences.lookup c.toNat with
  | none =>
    have hnone := List.lookup_eq_none_iff.mp hlookup e he
    rw [hcode, bne_self_eq_false] at hnone
    cases hnone
  | some s =>
    refine ⟨s, mem_sequences_of_lookup hlookup, ?_⟩
    unfold mapCase
    rw [hlookup]

/-- A character of the image comes from a sequence, from a run, or stays. -/
theorem mem_mapCase_cases (h : d ∈ mapCase runs sequences c) :
    (∃ s k, (c.toNat, s) ∈ sequences ∧ k ∈ s ∧ d = Char.ofNat k) ∨
      (∃ r ∈ runs, r.contains c.toNat = true ∧ d = Char.ofNat (r.image c.toNat)) ∨ d = c := by
  rcases mapCase_cases runs sequences c with
    ⟨s, hs, hmap⟩ | ⟨r, hr, hc, hmap⟩ | ⟨-, hmap⟩
  · rw [hmap] at h
    obtain ⟨k, hk, hd⟩ := List.mem_map.mp h
    exact Or.inl ⟨s, k, hs, hk, hd.symm⟩
  · rw [hmap, List.mem_singleton] at h
    exact Or.inr (Or.inl ⟨r, hr, hc, h⟩)
  · rw [hmap, List.mem_singleton] at h
    exact Or.inr (Or.inr h)

/-- A code point that is no character stands for the character zero. -/
theorem toNat_ofNat_eq_or (n : Nat) : (Char.ofNat n).toNat = n ∨ (Char.ofNat n).toNat = 0 := by
  by_cases h : n.isValidChar
  · exact Or.inl (congrArg Char.toNat (dif_pos h))
  · exact Or.inr (congrArg Char.toNat (dif_neg h))

theorem toNat_ofNat_of_lt {n : Nat} (h : n < 0xD800) : (Char.ofNat n).toNat = n :=
  congrArg Char.toNat (dif_pos (Or.inl h))

theorem mapCase_of_shiftsRange {range : Nat × Nat} {shift : Int}
    (htable : shiftsRange runs sequences range shift = true) (hlo : range.1 ≤ c.toNat)
    (hhi : c.toNat ≤ range.2) :
    mapCase runs sequences c = [Char.ofNat (c.toNat + shift).toNat] := by
  unfold shiftsRange at htable
  simp only [Bool.and_eq_true, List.all_eq_true, List.any_eq_true] at htable
  obtain ⟨⟨hsequences, hruns⟩, cover, hcover, hcovers⟩ := htable
  rcases mapCase_cases runs sequences c with
    ⟨s, hs, -⟩ | ⟨r, hr, hc, hmap⟩ | ⟨hnone, -⟩
  · have hapart := hsequences _ hs
    simp only [Bool.or_eq_true, decide_eq_true_eq] at hapart
    omega
  · have hle := CaseRun.le_of_contains hc
    have hshift := hruns r hr
    simp only [Bool.or_eq_true, decide_eq_true_eq, beq_iff_eq] at hshift
    have hshift : r.shift = shift := hshift.resolve_left (by omega)
    rw [hmap, CaseRun.image, hshift]
  · have hout := hnone cover hcover
    simp only [decide_eq_true_eq, beq_iff_eq] at hcovers
    unfold CaseRun.contains at hout
    rw [hcovers.2, Nat.mod_one, beq_self_eq_true, Bool.and_true, Bool.and_eq_false_iff,
      decide_eq_false_iff_not, decide_eq_false_iff_not] at hout
    omega

theorem mapCase_of_keepsRanges {ranges : List (Nat × Nat)}
    (htable : keepsRanges runs sequences ranges = true) (hc : inRanges ranges c.toNat = true) :
    mapCase runs sequences c = [c] := by
  unfold keepsRanges at htable
  simp only [Bool.and_eq_true, List.all_eq_true] at htable
  obtain ⟨hsequences, hruns⟩ := htable
  rcases mapCase_cases runs sequences c with
    ⟨s, hs, -⟩ | ⟨r, hr, hcontains, -⟩ | ⟨-, hmap⟩
  · have hout := hsequences _ hs
    rw [hc] at hout
    cases hout
  · have hle := CaseRun.le_of_contains hcontains
    unfold inRanges at hc
    obtain ⟨range, hrange, hin⟩ := List.any_eq_true.mp hc
    have hapart := hruns r hr range hrange
    simp only [Bool.and_eq_true, Bool.or_eq_true, decide_eq_true_eq] at hin hapart
    omega
  · exact hmap

theorem eq_or_of_mem_mapCase {source target : List (Nat × Nat)}
    (htable : entersOnlyFrom source target runs sequences = true)
    (hzero : inRanges target 0 = false) (h : d ∈ mapCase runs sequences c)
    (hd : inRanges target d.toNat = true) : d = c ∨ inRanges source c.toNat = true := by
  have hcode : ∀ n, d = Char.ofNat n → inRanges target n = true := by
    intro n hn
    rcases toNat_ofNat_eq_or n with htoNat | htoNat
    · rwa [hn, htoNat] at hd
    · rw [hn, htoNat, hzero] at hd
      cases hd
  unfold entersOnlyFrom at htable
  rw [Bool.and_eq_true, List.all_eq_true, List.all_eq_true] at htable
  obtain ⟨hsequences, hruns⟩ := htable
  rcases mem_mapCase_cases h with ⟨s, k, hs, hk, hd⟩ | ⟨r, hr, hc, hd⟩ | hd
  · have hentry := hsequences _ hs
    dsimp only at hentry
    rw [Bool.or_eq_true, List.all_eq_true] at hentry
    refine Or.inr (hentry.resolve_left fun hall => ?_)
    have hout := hall k hk
    rw [hcode k hd] at hout
    cases hout
  · have hrun := hruns r hr
    rw [Bool.or_eq_true, List.all_eq_true, List.any_eq_true] at hrun
    rcases hrun with havoids | ⟨range, hrange, hwithin⟩
    · have himage := hcode _ hd
      unfold inRanges at himage
      rw [List.any_eq_true] at himage
      obtain ⟨range, hrange, hin⟩ := himage
      exact absurd (by simpa using hin) (r.not_mem_range_of_avoids (havoids range hrange) hc)
    · have hle := CaseRun.le_of_contains hc
      unfold CaseRun.isWithin at hwithin
      simp only [Bool.and_eq_true, decide_eq_true_eq] at hwithin
      right
      unfold inRanges
      rw [List.any_eq_true]
      refine ⟨range, hrange, ?_⟩
      simp only [Bool.and_eq_true, decide_eq_true_eq]
      omega
  · exact Or.inl hd

theorem mapCase_ne_nil (hsequences : sequences.all (!·.2.isEmpty) = true) (c : Char) :
    mapCase runs sequences c ≠ [] := by
  unfold mapCase
  split
  · next s hs =>
    have hne := List.all_eq_true.mp hsequences _ (mem_sequences_of_lookup hs)
    simpa using hne
  · split
    · exact List.cons_ne_nil _ _
    · exact List.cons_ne_nil _ _

end

theorem upper_ne_nil (c : Char) : upper c ≠ [] := mapCase_ne_nil (by decide) c

theorem lower_ne_nil (c : Char) : lower c ≠ [] := mapCase_ne_nil (by decide) c

end FormDesk.Text
