import FormDesk.Proofs.Text.Case
import Mathlib.Algebra.BigOperators.Group.List.Basic

/-! Case mappings applied to their own images. No image of the lower case is mapped again, and no
first character of an upper case. A table has some thousand code points, so that its images and what
it maps are compared as sets in the bits of a number. -/
namespace FormDesk.Text

/-- Code points as the bits of a number. -/
def codeSet (ns : List Nat) : Nat := ns.foldr (fun n set => (1 <<< n) ||| set) 0

theorem testBit_codeSet {ns : List Nat} {n : Nat} : (codeSet ns).testBit n = true ↔ n ∈ ns := by
  induction ns with
  | nil => simp [codeSet]
  | cons m ns ih =>
    have hcons : codeSet (m :: ns) = (1 <<< m) ||| codeSet ns := rfl
    rw [hcons, Nat.testBit_or, Bool.or_eq_true, ih, Nat.one_shiftLeft, Nat.testBit_two_pow,
      decide_eq_true_eq, List.mem_cons, eq_comm]

theorem notMem_of_codeSet_and {ns ms : List Nat} (h : codeSet ns &&& codeSet ms = 0) {n : Nat}
    (hn : n ∈ ns) : n ∉ ms := by
  intro hm
  have hbit : (codeSet ns &&& codeSet ms).testBit n = true := by
    rw [Nat.testBit_and, testBit_codeSet.mpr hn, testBit_codeSet.mpr hm, Bool.and_self]
  rw [h, Nat.zero_testBit] at hbit
  cases hbit

namespace CaseRun

def codes (r : CaseRun) : List Nat :=
  List.range' r.first ((r.last - r.first) / r.stride + 1) r.stride

theorem mem_codes_of_contains {r : CaseRun} {n : Nat} (h : r.contains n = true) : n ∈ r.codes := by
  have hle := le_of_contains h
  have hstride : r.stride ∣ n - r.first := by
    unfold contains at h
    simp only [Bool.and_eq_true, beq_iff_eq] at h
    exact Nat.dvd_of_mod_eq_zero h.2
  apply List.mem_range'.mpr
  refine ⟨(n - r.first) / r.stride, ?_, ?_⟩
  · have hdiv : (n - r.first) / r.stride ≤ (r.last - r.first) / r.stride :=
      Nat.div_le_div_right (by omega)
    omega
  · rw [Nat.mul_div_cancel' hstride]
    omega

end CaseRun

/-- The code points that the tables map. -/
def mappedCodes (runs : List CaseRun) (sequences : List (Nat × List Nat)) : List Nat :=
  runs.flatMap CaseRun.codes ++ sequences.map Prod.fst

/-- What the tables map to, as lists of code points. -/
def imageCodes (runs : List CaseRun) (sequences : List (Nat × List Nat)) : List (List Nat) :=
  (runs.flatMap fun r => r.codes.map fun n => [r.image n]) ++ sequences.map Prod.snd

section
variable {runs : List CaseRun} {sequences : List (Nat × List Nat)} {c : Char} {n : Nat}

theorem mapCase_of_notMem (h : c.toNat ∉ mappedCodes runs sequences) :
    mapCase runs sequences c = [c] := by
  rcases mapCase_cases runs sequences c with
    ⟨s, hs, -⟩ | ⟨r, hr, hc, -⟩ | ⟨-, hsame⟩
  · exact absurd (List.mem_append_right _ (List.mem_map_of_mem hs)) h
  · have hcode := List.mem_flatMap.mpr ⟨r, hr, CaseRun.mem_codes_of_contains hc⟩
    exact absurd (List.mem_append_left _ hcode) h
  · exact hsame

theorem mapCase_eq_or_mem_imageCodes (runs : List CaseRun) (sequences : List (Nat × List Nat))
    (c : Char) : mapCase runs sequences c = [c] ∨
      ∃ s ∈ imageCodes runs sequences, mapCase runs sequences c = s.map Char.ofNat := by
  rcases mapCase_cases runs sequences c with
    ⟨s, hs, hmap⟩ | ⟨r, hr, hc, hmap⟩ | ⟨-, hsame⟩
  · exact Or.inr ⟨s, List.mem_append_right _ (List.mem_map_of_mem hs), hmap⟩
  · refine Or.inr ⟨[r.image c.toNat], List.mem_append_left _ ?_, hmap⟩
    have hcode := CaseRun.mem_codes_of_contains hc
    exact List.mem_flatMap.mpr ⟨r, hr, List.mem_map_of_mem hcode⟩
  · exact Or.inl hsame

/-- Code points that are no characters stand for the character zero, so zero is among the images. -/
theorem mapCase_ofNat_of_codeSet {images : List Nat}
    (htable : codeSet (0 :: images) &&& codeSet (mappedCodes runs sequences) = 0)
    (hn : n ∈ images) : mapCase runs sequences (Char.ofNat n) = [Char.ofNat n] := by
  apply mapCase_of_notMem
  apply notMem_of_codeSet_and htable
  rcases toNat_ofNat_eq_or n with hcode | hcode
  · rw [hcode]
    exact List.mem_cons_of_mem 0 hn
  · rw [hcode]
    exact List.mem_cons_self

end

theorem lower_codeSet :
    codeSet (0 :: (imageCodes lowerRuns lowerSequences).flatten) &&&
      codeSet (mappedCodes lowerRuns lowerSequences) = 0 := by
  decide +kernel

theorem upper_codeSet :
    codeSet (0 :: (imageCodes upperRuns upperSequences).flatMap (List.take 1)) &&&
      codeSet (mappedCodes upperRuns upperSequences) = 0 := by
  decide +kernel

theorem lower_of_mem_lower {c d : Char} (h : d ∈ lower c) : lower d = [d] := by
  unfold lower at h
  rcases mapCase_eq_or_mem_imageCodes lowerRuns lowerSequences c with hsame | ⟨s, hs, hlower⟩
  · rw [hsame, List.mem_singleton] at h
    rw [h]
    exact hsame
  · rw [hlower] at h
    obtain ⟨k, hk, rfl⟩ := List.mem_map.mp h
    exact mapCase_ofNat_of_codeSet lower_codeSet (List.mem_flatten.mpr ⟨s, hs, hk⟩)

theorem upper_of_head?_upper {c d : Char} (h : (upper c).head? = some d) : upper d = [d] := by
  unfold upper at h
  rcases mapCase_eq_or_mem_imageCodes upperRuns upperSequences c with hsame | ⟨s, hs, hupper⟩
  · rw [hsame, List.head?_singleton, Option.some_inj] at h
    rw [← h]
    exact hsame
  · rw [hupper, List.head?_map] at h
    obtain ⟨k, hk, rfl⟩ := Option.map_eq_some_iff.mp h
    obtain ⟨rest, rfl⟩ := List.head?_eq_some_iff.mp hk
    have hfirst : k ∈ (imageCodes upperRuns upperSequences).flatMap (List.take 1) :=
      List.mem_flatMap.mpr ⟨k :: rest, hs, List.mem_cons_self⟩
    exact mapCase_ofNat_of_codeSet upper_codeSet hfirst

/-- A map to non-empty lists keeps a list only if it keeps every element. -/
theorem flatMap_eq_self_iff {α : Type} {f : α → List α} (hne : ∀ a, f a ≠ []) {l : List α} :
    l.flatMap f = l ↔ ∀ a ∈ l, f a = [a] := by
  induction l with
  | nil => simp
  | cons a l ih =>
    rw [List.forall_mem_cons, ← ih, List.flatMap_cons]
    constructor
    · intro h
      obtain ⟨b, rest, hb⟩ := List.exists_cons_of_ne_nil (hne a)
      rw [hb, List.cons_append, List.cons.injEq] at h
      obtain ⟨rfl, h⟩ := h
      have hlength := congrArg List.length h
      rw [List.length_append, List.length_flatMap] at hlength
      have hle : (l.map fun b => (f b).length).length ≤ (l.map fun b => (f b).length).sum := by
        apply List.length_le_sum_of_one_le
        rw [List.forall_mem_map]
        exact fun b _ => List.length_pos_iff.mpr (hne b)
      rw [List.length_map] at hle
      have hrest : rest = [] := List.eq_nil_of_length_eq_zero (by omega)
      rw [hrest, List.nil_append] at h
      exact ⟨by rw [hb, hrest], h⟩
    · rintro ⟨ha, hl⟩
      rw [ha, hl, List.singleton_append]

/-- The characters whose upper case holds another capital behind the first one, as in `SS`. -/
def doubleCapitalRanges : List (Nat × Nat) :=
  [(0xDF, 0xDF), (0x149, 0x149), (0x587, 0x587), (0x1F80, 0x1FAF), (0x1FB2, 0x1FB4),
    (0x1FB7, 0x1FB7), (0x1FBC, 0x1FBC), (0x1FC2, 0x1FC4), (0x1FC7, 0x1FC7), (0x1FCC, 0x1FCC),
    (0x1FF2, 0x1FF4), (0x1FF7, 0x1FF7), (0x1FFC, 0x1FFC), (0xFB00, 0xFB06), (0xFB13, 0xFB17)]

theorem upperSequences_doubleCapital : (upperSequences.map Prod.fst).filter
    (inRanges doubleCapitalRanges) = members doubleCapitalRanges := by
  decide

theorem upperSequences_tail : upperSequences.all (fun (n, s) =>
    (s.tail.all fun k => lower (Char.ofNat k) == [Char.ofNat k]) ==
      !inRanges doubleCapitalRanges n) = true := by
  decide

/-- Behind its first character an upper case is in lower case but for the double capitals. -/
theorem lower_tail_upper_iff {c : Char} : (∀ d ∈ (upper c).tail, lower d = [d]) ↔
    inRanges doubleCapitalRanges c.toNat = false := by
  have hsequence : ∀ s, (c.toNat, s) ∈ upperSequences → upper c = s.map Char.ofNat →
      ((∀ d ∈ (upper c).tail, lower d = [d]) ↔ inRanges doubleCapitalRanges c.toNat = false) := by
    intro s hs hupper
    have hrow := List.all_eq_true.mp upperSequences_tail _ hs
    simp only [beq_iff_eq] at hrow
    rw [← Bool.not_eq_true', ← hrow, hupper, ← List.map_tail, List.forall_mem_map,
      List.all_eq_true]
    simp only [beq_iff_eq]
  have hsingle : ∀ d, upper c = [d] → inRanges doubleCapitalRanges c.toNat = false →
      ((∀ d ∈ (upper c).tail, lower d = [d]) ↔ inRanges doubleCapitalRanges c.toNat = false) := by
    intro d hupper hrange
    rw [hupper]
    exact iff_of_true (List.forall_mem_nil _) hrange
  by_cases hrange : inRanges doubleCapitalRanges c.toNat = true
  · have hkey : c.toNat ∈ upperSequences.map Prod.fst := by
      have hmem := mem_members hrange
      rw [← upperSequences_doubleCapital] at hmem
      exact (List.mem_filter.mp hmem).1
    obtain ⟨s, hs, hupper⟩ := exists_sequence_of_mem upperRuns hkey
    exact hsequence s hs hupper
  · have hrange : inRanges doubleCapitalRanges c.toNat = false := by simpa using hrange
    rcases mapCase_cases upperRuns upperSequences c with
      ⟨s, hs, hupper⟩ | ⟨r, -, -, hupper⟩ | ⟨-, hupper⟩
    · exact hsequence s hs hupper
    · exact hsingle _ hupper hrange
    · exact hsingle _ hupper hrange

theorem flatMap_lower_lower (s : List Char) :
    (s.flatMap lower).flatMap lower = s.flatMap lower := by
  apply (flatMap_eq_self_iff lower_ne_nil).mpr
  intro d hd
  obtain ⟨c, -, hc⟩ := List.mem_flatMap.mp hd
  exact lower_of_mem_lower hc

end FormDesk.Text
