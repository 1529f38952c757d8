import FormDesk.Proofs.Binary64.HalfEven
import FormDesk.Proofs.ValueText.ReadBack

/-! The text of a finite value is read as a number: it is the exact value rounded half to even,
and it is written without a superfluous sign, digit or point. -/
namespace FormDesk
open Binary64

namespace Numeral

/-- The number that a numeral writes. -/
def toRat (n : Numeral) : ℚ := n.scaled / 10 ^ n.places

/-- No zero is superfluous, neither before the whole digits nor behind the decimal places, of
which there is a greatest number. -/
structure IsCanonical (n : Numeral) (places : Nat) : Prop where
  whole_isDigit : n.whole.all Char.isDigit = true
  whole_ne_nil : n.whole ≠ []
  whole_start : n.whole = ['0'] ∨ n.whole.head? ≠ some '0'
  fraction_isDigit : n.fraction.all Char.isDigit = true
  length_fraction : n.fraction.length ≤ places
  fraction_end : n.fraction.getLast? ≠ some '0'

theorem IsCanonical.mono {n : Numeral} {a b : Nat} (h : n.IsCanonical a) (hab : a ≤ b) :
    n.IsCanonical b :=
  { h with length_fraction := h.length_fraction.trans hab }

theorem IsCanonical.spells {n : Numeral} {places : Nat} (h : n.IsCanonical places) :
    n.Spells n.text :=
  spells_text h.whole_isDigit h.fraction_isDigit h.whole_ne_nil

theorem length_fraction_ofScaled (k places : Nat) :
    (ofScaled k places).fraction.length ≤ places := by
  rcases Nat.eq_zero_or_pos places with rfl | hpos
  · rw [fraction_ofScaled_zero]
    exact Nat.le_refl 0
  · have hpadded : (paddedDigits places (k % 10 ^ places)).length = places :=
      length_paddedDigits hpos (Nat.mod_lt k (Nat.pow_pos (by decide)))
    have hkept : (ofScaled k places).fraction <+: paddedDigits places (k % 10 ^ places) :=
      List.rdropWhile_prefix (· == '0') _
    have hle := hkept.length_le
    rwa [hpadded] at hle

theorem getLast?_rdropWhile_zeros (s : List Char) :
    (s.rdropWhile (· == '0')).getLast? ≠ some '0' := by
  intro hlast
  obtain ⟨hne, hzero⟩ := List.mem_getLast?_eq_getLast (Option.mem_def.mpr hlast)
  have hkept := List.rdropWhile_last_not (· == '0') s hne
  rw [← hzero] at hkept
  exact hkept rfl

theorem isCanonical_ofScaled (k places : Nat) : (ofScaled k places).IsCanonical places where
  whole_isDigit := (all_isDigit_ofScaled k places).1
  whole_ne_nil := Nat.toDigits_ne_nil
  whole_start := by
    show Nat.toDigits 10 (k / 10 ^ places) = ['0'] ∨ _
    by_cases hzero : k / 10 ^ places = 0
    · left
      rw [hzero, Nat.toDigits_zero]
    · right
      exact (significant_toDigits hzero).head_ne
  fraction_isDigit := (all_isDigit_ofScaled k places).2
  length_fraction := length_fraction_ofScaled k places
  fraction_end := getLast?_rdropWhile_zeros _

/-- The number of a numeral of fixed places does not change with the zeros left out. -/
theorem toRat_ofScaled (k places : Nat) : (ofScaled k places).toRat = (k : ℚ) / 10 ^ places := by
  have hscaled : ((ofScaled k places).scaled : ℚ) * 10 ^ places =
      k * 10 ^ (ofScaled k places).places := by
    exact_mod_cast scaled_ofScaled k places
  rw [toRat, div_eq_div_iff (by positivity) (by positivity), hscaled]

end Numeral

/-- The number that a decimal text writes, with or without a minus sign. -/
def decimal? : List Char → Option ℚ
  | '-' :: s => (Numeral.ofText? s).map fun n => -n.toRat
  | s => (Numeral.ofText? s).map Numeral.toRat

theorem Numeral.IsCanonical.decimal?_text {n : Numeral} {places : Nat} (h : n.IsCanonical places)
    (negative : Bool) : decimal? (signText negative ++ n.text) =
      some (if negative then -n.toRat else n.toRat) := by
  have hread : Numeral.ofText? n.text = some n := h.spells.ofText?_eq
  cases negative with
  | true =>
    show (Numeral.ofText? n.text).map _ = _
    rw [hread]
    rfl
  | false =>
    obtain ⟨c, s, hcs⟩ := List.exists_cons_of_ne_nil h.whole_ne_nil
    have hdigit : c.isDigit = true := by
      have hall := h.whole_isDigit
      rw [hcs, List.all_cons, Bool.and_eq_true] at hall
      exact hall.1
    have hsign : c ≠ '-' := by
      rintro rfl
      cases hdigit
    have htext : n.text = c :: (s ++ if n.fraction = [] then [] else '.' :: n.fraction) := by
      rw [Numeral.text, hcs, List.cons_append]
    have hunsigned : decimal? n.text = (Numeral.ofText? n.text).map Numeral.toRat := by
      rw [htext]
      unfold decimal?
      split
      · next heq => exact absurd (List.cons.inj heq).1 hsign
      · rfl
    show decimal? n.text = _
    rw [hunsigned, hread]
    rfl

namespace ValueText

/-- The fixed places of a whole magnitude are all left out again. -/
theorem trimFraction_fixedText {m : Magnitude} (h : m.isWhole = true) (places : Nat) :
    trimFraction (m.fixedText places) = Nat.toDigits 10 m.whole := by
  have htrim := trimFraction_append_placedText List.not_mem_nil (m.rounded places) places
  rw [Magnitude.fixedText, ← List.nil_append (placedText _ _), htrim,
    Magnitude.rounded_of_isWhole h, Numeral.text_ofScaled_mul, List.nil_append]

/-- A finite value is copied as its exact value, rounded half to even to the decimal places asked
for, in canonical form. For a whole magnitude it is the same whether it is written as an integer
or with places. -/
theorem plain_rounds_half_even {v : Binary64} {x : ℚ} {p : Nat} (hv : v.toRat? = some x)
    (hp : p ≤ maxPrecision) :
    (∃ (t : List Char) (n : Numeral), plain v p = .ok t ∧
      (∀ q, decimal? t = some q ↔ RoundsToPlaces x p q) ∧
      t = signText (decide (x < 0)) ++ n.text ∧ n.IsCanonical p) ∧
    ∀ m : Magnitude, v = .finite false m → m.isWhole = true →
      ∀ places, Nat.toDigits 10 m.whole = trimFraction (m.fixedText places) := by
  constructor
  · cases v with
    | nan => cases hv
    | infinity negative => cases hv
    | finite negative m =>
      let n := Numeral.ofScaled (m.rounded (min p unitPlaces)) (min p unitPlaces)
      have hcanonical : n.IsCanonical p :=
        (Numeral.isCanonical_ofScaled _ _).mono (Nat.min_le_left p unitPlaces)
      have hround : RoundsToPlaces m.toRat p n.toRat := by
        rw [Numeral.toRat_ofScaled]
        exact m.roundsToPlaces_rounded_min p
      have hplain : plain (.finite negative m) p = .ok (signText (decide (x < 0)) ++ n.text) := by
        rw [plain_finite_of_sign negative m hp, decide_neg_of_toRat? hv]
      have hvalue : RoundsToPlaces x p (if decide (x < 0) then -n.toRat else n.toRat) := by
        have hx := eq_of_toRat? hv
        generalize decide (x < 0) = sign at hx ⊢
        rw [hx]
        cases sign with
        | false => exact hround
        | true => exact hround.neg
      refine ⟨_, n, hplain, ?_, rfl, hcanonical⟩
      intro q
      rw [hcanonical.decimal?_text, Option.some.injEq]
      constructor
      · rintro rfl
        exact hvalue
      · intro hq
        exact hvalue.unique hq
  · intro m _ hwhole places
    rw [trimFraction_fixedText hwhole]

/-- One eighth lies between two numbers of hundredths, and the even one of them is taken. -/
theorem plain_rounds_half_even_eighth : ∃ v : Binary64, v.toRat? = some (-1 / 8) ∧
    2 ≤ maxPrecision ∧ plain v 2 = .ok "-0.12".toList ∧
    (∃ (t : List Char) (n : Numeral), plain v 2 = .ok t ∧
      (∀ q, decimal? t = some q ↔ RoundsToPlaces (-1 / 8) 2 q) ∧
      t = signText (decide ((-1 / 8 : ℚ) < 0)) ++ n.text ∧ n.IsCanonical 2) ∧
    ∀ m : Magnitude, v = .finite false m → m.isWhole = true →
      ∀ places, Nat.toDigits 10 m.whole = trimFraction (m.fixedText places) := by
  obtain ⟨m, hpos, hunits, htext⟩ : ∃ m : Magnitude, 0 < m.units ∧ one = 8 * m.units ∧
      plain (.finite true m) 2 = .ok "-0.12".toList :=
    ⟨.ofSignificand 1 1071 (by decide) (by decide), by decide +kernel, by decide +kernel,
      by decide +kernel⟩
  have hne : (m.units : ℚ) ≠ 0 := by exact_mod_cast hpos.ne'
  have heighth : -m.toRat = -1 / 8 := by
    rw [Magnitude.toRat, hunits, Nat.cast_mul]
    field_simp
    norm_num
  have hvalue : (Binary64.finite true m).toRat? = some (-1 / 8) := congrArg some heighth
  exact ⟨_, hvalue, by decide, htext, plain_rounds_half_even hvalue (by decide)⟩

end ValueText

end FormDesk
