import FormDesk.Proofs.Numeral
import FormDesk.ValueText
import Mathlib.Data.List.DropRight
import Mathlib.Tactic.Ring

/-! The decimal text of a number of fixed places, without the zeros at its end, as a numeral. -/
namespace FormDesk
open Binary64

namespace Numeral

/-- A point is written before digits alone. -/
def text (n : Numeral) : List Char :=
  n.whole ++ if n.fraction = [] then [] else '.' :: n.fraction

/-- The numeral of `k / 10 ^ places` without zeros at the end of its fraction. -/
def ofScaled (k places : Nat) : Numeral where
  whole := Nat.toDigits 10 (k / 10 ^ places)
  fraction := (paddedDigits places (k % 10 ^ places)).rdropWhile (· == '0')

theorem all_isDigit_toDigits (n : Nat) : (Nat.toDigits 10 n).all Char.isDigit = true :=
  List.all_eq_true.mpr fun _ hc => Nat.isDigit_of_mem_toDigits (by decide) (by decide) hc

theorem all_isDigit_paddedDigits (width n : Nat) :
    (paddedDigits width n).all Char.isDigit = true := by
  unfold paddedDigits
  rw [List.all_append, all_isDigit_toDigits, Bool.and_true, List.all_eq_true]
  intro c hc
  rw [List.eq_of_mem_replicate hc]
  rfl

theorem notMem_of_all_isDigit {s : List Char} (h : s.all Char.isDigit = true) {c : Char}
    (hc : c.isDigit = false) : c ∉ s := by
  intro hmem
  rw [List.all_eq_true.mp h c hmem] at hc
  cases hc

/-- Digits that do not begin with zero, so that they are a whole number. -/
structure Significant (digits : List Char) : Prop where
  isDigit : digits.all Char.isDigit = true
  ne_nil : digits ≠ []
  head_ne : digits.head? ≠ some '0'

theorem Significant.append {s t : List Char} (hs : Significant s)
    (ht : t.all Char.isDigit = true) : Significant (s ++ t) where
  isDigit := by rw [List.all_append, hs.isDigit, ht, Bool.and_self]
  ne_nil := List.append_ne_nil_of_left_ne_nil hs.ne_nil t
  head_ne := by
    obtain ⟨c, s', rfl⟩ := List.exists_cons_of_ne_nil hs.ne_nil
    exact hs.head_ne

theorem Significant.of_prefix {s t : List Char} (ht : Significant t) (h : s <+: t)
    (hne : s ≠ []) : Significant s where
  isDigit := List.all_eq_true.mpr fun c hc => List.all_eq_true.mp ht.isDigit c (h.mem hc)
  ne_nil := hne
  head_ne := by
    obtain ⟨u, rfl⟩ := h
    obtain ⟨c, s', rfl⟩ := List.exists_cons_of_ne_nil hne
    exact ht.head_ne

theorem Significant.all_isDigit_drop {s : List Char} (h : Significant s) (n : Nat) :
    (s.drop n).all Char.isDigit = true :=
  List.all_eq_true.mpr fun c hc =>
    List.all_eq_true.mp h.isDigit c ((List.drop_suffix n s).mem hc)

theorem significant_toDigits {n : Nat} (h : n ≠ 0) : Significant (Nat.toDigits 10 n) := by
  induction n using Nat.strongRecOn with
  | ind n ih =>
    rcases Nat.lt_or_ge n 10 with hlt | hge
    · refine ⟨all_isDigit_toDigits n, Nat.toDigits_ne_nil, ?_⟩
      rw [Nat.toDigits_of_lt_base hlt, List.head?_cons, ne_eq, Option.some.injEq,
        Nat.digitChar_eq_zero]
      exact h
    · have hdigit := all_isDigit_toDigits n
      rw [Nat.toDigits_of_base_le (by decide) hge] at hdigit ⊢
      rw [List.all_append, Bool.and_eq_true] at hdigit
      exact (ih (n / 10) (by omega) (by omega)).append hdigit.2

theorem length_paddedDigits {width n : Nat} (hwidth : 0 < width) (h : n < 10 ^ width) :
    (paddedDigits width n).length = width := by
  have hlen := (Nat.length_toDigits_le_iff (by decide : 1 < 10) hwidth).mpr h
  unfold paddedDigits
  simp only [List.length_append, List.length_replicate]
  omega

theorem ofDigitChars_paddedDigits (width n : Nat) :
    Nat.ofDigitChars 10 (paddedDigits width n) 0 = n := by
  unfold paddedDigits
  rw [Nat.ofDigitChars_append, Nat.ofDigitChars_replicate_zero, Nat.mul_zero,
    Nat.ofDigitChars_ten_toDigits]

theorem all_isDigit_ofScaled (k places : Nat) :
    (ofScaled k places).whole.all Char.isDigit = true ∧
      (ofScaled k places).fraction.all Char.isDigit = true := by
  refine ⟨all_isDigit_toDigits _, List.all_eq_true.mpr fun c hc => ?_⟩
  exact List.all_eq_true.mp (all_isDigit_paddedDigits _ _) c ((List.rdropWhile_prefix _ _).mem hc)

theorem spells_text {n : Numeral} (hw : n.whole.all Char.isDigit = true)
    (hf : n.fraction.all Char.isDigit = true) (hne : n.whole ≠ []) : n.Spells n.text := by
  refine ⟨hw, hf, List.append_ne_nil_of_left_ne_nil hne _, ?_⟩
  unfold text
  split_ifs with hempty
  · exact Or.inl ⟨List.append_nil _, hempty⟩
  · exact Or.inr rfl

theorem spells_ofScaled (k places : Nat) : (ofScaled k places).Spells (ofScaled k places).text := by
  obtain ⟨hw, hf⟩ := all_isDigit_ofScaled k places
  exact spells_text hw hf Nat.toDigits_ne_nil

theorem fraction_ofScaled_mul (a places : Nat) :
    (ofScaled (a * 10 ^ places) places).fraction = [] := by
  rw [ofScaled, Nat.mul_mod_left, List.rdropWhile_eq_nil_iff]
  intro c hc
  rcases List.mem_append.mp hc with hpad | hzero
  · rw [List.eq_of_mem_replicate hpad]
    rfl
  · rw [List.mem_singleton.mp hzero]
    rfl

theorem text_ofScaled_mul (a places : Nat) :
    (ofScaled (a * 10 ^ places) places).text = Nat.toDigits 10 a := by
  rw [text, if_pos (fraction_ofScaled_mul a places), List.append_nil, ofScaled,
    Nat.mul_div_cancel a (Nat.pow_pos (by decide))]

theorem fraction_ofScaled_zero (k : Nat) : (ofScaled k 0).fraction = [] := by
  simpa using fraction_ofScaled_mul k 0

theorem exists_zeros (s : List Char) :
    ∃ z, s.rdropWhile (· == '0') ++ List.replicate z '0' = s := by
  have hzeros : ∀ c ∈ s.rtakeWhile (· == '0'), c = '0' := by
    intro c hc
    simpa using List.mem_rtakeWhile_imp hc
  refine ⟨(s.rtakeWhile (· == '0')).length, ?_⟩
  rw [← List.eq_replicate_of_mem hzeros, List.rdropWhile_append_rtakeWhile]

/-- The zeros left out at the end do not count. -/
theorem scaled_ofScaled (k places : Nat) :
    (ofScaled k places).scaled * 10 ^ places = k * 10 ^ (ofScaled k places).places := by
  rcases Nat.eq_zero_or_pos places with hzero | hpos
  · subst hzero
    have hwhole : (ofScaled k 0).whole = Nat.toDigits 10 k := by
      rw [ofScaled, Nat.pow_zero, Nat.div_one]
    rw [scaled, Numeral.places, fraction_ofScaled_zero, hwhole, List.append_nil,
      Nat.ofDigitChars_ten_toDigits, List.length_nil]
  · obtain ⟨z, hz⟩ := exists_zeros (paddedDigits places (k % 10 ^ places))
    have hlength : (ofScaled k places).places + z = places := by
      have hlen := length_paddedDigits hpos (Nat.mod_lt k (Nat.pow_pos (by decide : 0 < 10)))
      rw [← hz, List.length_append, List.length_replicate] at hlen
      exact hlen
    have hdigits : 10 ^ z * (ofScaled k places).scaled = k :=
      calc 10 ^ z * (ofScaled k places).scaled
          = Nat.ofDigitChars 10 (Nat.toDigits 10 (k / 10 ^ places) ++
              paddedDigits places (k % 10 ^ places)) 0 := by
            conv_rhs => rw [← hz, ← List.append_assoc, Nat.ofDigitChars_append]
            exact Nat.ofDigitChars_replicate_zero.symm
        _ = 10 ^ places * (k / 10 ^ places) + k % 10 ^ places := by
            rw [Nat.ofDigitChars_append, Nat.ofDigitChars_ten_toDigits,
              Nat.ofDigitChars_eq_ofDigitChars_zero,
              length_paddedDigits hpos (Nat.mod_lt k (Nat.pow_pos (by decide : 0 < 10))),
              ofDigitChars_paddedDigits]
        _ = k := Nat.div_add_mod k (10 ^ places)
    have hpow : 10 ^ (ofScaled k places).places * 10 ^ z = 10 ^ places := by
      rw [← Nat.pow_add, hlength]
    calc (ofScaled k places).scaled * 10 ^ places
        = 10 ^ z * (ofScaled k places).scaled * 10 ^ (ofScaled k places).places := by
          rw [← hpow]
          ring
      _ = k * 10 ^ (ofScaled k places).places := by rw [hdigits]

end Numeral

namespace ValueText

private theorem rdropWhile_append_point {whole s : List Char} (hwhole : '.' ∉ whole)
    (hs : '.' ∉ s) : (whole ++ '.' :: s).rdropWhile (· == '.') =
      whole ++ if s = [] then [] else '.' :: s := by
  have hlast : ∀ t : List Char, '.' ∉ t → t.rdropWhile (· == '.') = t := by
    intro t ht
    refine List.rdropWhile_eq_self_iff.mpr fun hne hpoint => ht ?_
    rw [← eq_of_beq hpoint]
    exact List.getLast_mem hne
  split_ifs with hnil
  · rw [hnil, List.rdropWhile_concat_pos _ _ _ (by decide), hlast whole hwhole, List.append_nil]
  · refine List.rdropWhile_eq_self_iff.mpr fun hne hpoint => hs ?_
    rw [List.getLast_append_of_ne_nil _ (List.cons_ne_nil _ _), List.getLast_cons hnil] at hpoint
    rw [← eq_of_beq hpoint]
    exact List.getLast_mem hnil

private theorem rdropWhile_zeros (whole s : List Char) : (whole ++ '.' :: s).rdropWhile (· == '0') =
    whole ++ '.' :: s.rdropWhile (· == '0') := by
  have hpoint : ('.' :: whole.reverse).dropWhile (· == '0') = '.' :: whole.reverse := rfl
  simp only [List.rdropWhile, List.reverse_append, List.reverse_cons, List.append_assoc,
    List.singleton_append, List.dropWhile_append, hpoint, List.isEmpty_iff]
  split_ifs with hempty
  · simp [hempty]
  · simp

theorem trimFraction_of_notMem {s : List Char} (h : '.' ∉ s) : trimFraction s = s := by
  rw [trimFraction, List.contains_eq_mem, decide_eq_false h]
  rfl

/-- The zeros at the end of the fraction go first, then a point with nothing behind it. -/
theorem trimFraction_append_point {whole s : List Char} (hwhole : '.' ∉ whole) (hs : '.' ∉ s) :
    trimFraction (whole ++ '.' :: s) = whole ++
      if s.rdropWhile (· == '0') = [] then [] else '.' :: s.rdropWhile (· == '0') := by
  have hrest : '.' ∉ s.rdropWhile (· == '0') := fun h => hs ((List.rdropWhile_prefix _ s).mem h)
  have hmem : (whole ++ '.' :: s).contains '.' = true := by simp
  rw [← rdropWhile_append_point hwhole hrest, ← rdropWhile_zeros, trimFraction, if_pos hmem]
  simp only [List.rdropWhile, List.reverse_reverse]

/-- A number of fixed places loses its last zeros, and the point behind them. What stands before
the number, such as a sign, stays. -/
theorem trimFraction_append_placedText {sign : List Char} (hsign : '.' ∉ sign) (k places : Nat) :
    trimFraction (sign ++ placedText k places) = sign ++ (Numeral.ofScaled k places).text := by
  have hdigits := Numeral.notMem_of_all_isDigit (Numeral.all_isDigit_toDigits (k / 10 ^ places))
    (rfl : '.'.isDigit = false)
  have hwhole : '.' ∉ sign ++ Nat.toDigits 10 (k / 10 ^ places) :=
    List.not_mem_append hsign hdigits
  unfold placedText
  split_ifs with hzero
  · subst hzero
    rw [List.append_nil, trimFraction_of_notMem hwhole, Numeral.text,
      if_pos (Numeral.fraction_ofScaled_zero k), List.append_nil]
    rfl
  · rw [← List.append_assoc, trimFraction_append_point hwhole
      (Numeral.notMem_of_all_isDigit (Numeral.all_isDigit_paddedDigits places _) rfl),
      List.append_assoc]
    rfl

end ValueText

end FormDesk
