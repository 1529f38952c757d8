import FormDesk.Proofs.Answer
import FormDesk.Proofs.ValueText.Rounded

/-! The text that is shown: the digits before the point in groups of three. A text is grouped from
its end, so a minus sign counts as one more character before the first group. -/
namespace FormDesk
open Binary64

namespace ValueText

/-- Digits in groups of three with commas between them. The first group may be shorter. -/
def IsGrouped (s : List Char) : Prop :=
  ∃ (first : List Char) (rest : List (List Char)), s = [','].intercalate (first :: rest) ∧
    (1 ≤ first.length ∧ first.length ≤ 3) ∧ (∀ g ∈ rest, g.length = 3) ∧
      ∀ g ∈ first :: rest, g.all Char.isDigit = true

theorem intercalate_cons_head (sep : List Char) (c : Char) (first : List Char)
    (rest : List (List Char)) :
    sep.intercalate ((c :: first) :: rest) = c :: sep.intercalate (first :: rest) := by
  cases rest with
  | nil => rw [List.intercalate_singleton, List.intercalate_singleton]
  | cons next rest => rw [List.intercalate_cons_cons, List.intercalate_cons_cons]; rfl

/-- One more character in front lengthens the first group, unless that one is full. -/
theorem exists_groups (c : Char) (s : List Char) : ∃ first rest,
    group (c :: s) = [','].intercalate (first :: rest) ∧ c :: s = (first :: rest).flatten ∧
      (1 ≤ first.length ∧ first.length ≤ 3) ∧ ∀ g ∈ rest, g.length = 3 := by
  induction s generalizing c with
  | nil => exact ⟨[c], [], rfl, rfl, by simp, List.forall_mem_nil _⟩
  | cons d s ih =>
    obtain ⟨first, rest, hgroup, hflat, hfirst, hrest⟩ := ih d
    have hlength : (d :: s).length = first.length + 3 * rest.length := by
      have hsum : (rest.map List.length).sum = 3 * rest.length := by
        rw [List.map_congr_left hrest, List.map_const', List.sum_replicate_nat, Nat.mul_comm]
      rw [hflat, List.length_flatten, List.map_cons, List.sum_cons, hsum]
    rw [group]
    -- What follows fills its groups, and a group begins, or there is room in its first group.
    split_ifs with hfull
    · have hthree : first.length = 3 := by
        have hmod : (d :: s).length % 3 = 0 := by simpa using hfull
        omega
      refine ⟨[c], first :: rest, ?_, ?_, by simp, ?_⟩
      · rw [hgroup, List.intercalate_cons_cons]
        rfl
      · rw [hflat]
        rfl
      · exact List.forall_mem_cons.mpr ⟨hthree, hrest⟩
    · have hroom : first.length < 3 := by
        have hmod : (d :: s).length % 3 ≠ 0 := by simpa using hfull
        omega
      refine ⟨c :: first, rest, ?_, ?_, ?_, hrest⟩
      · rw [hgroup, intercalate_cons_head]
      · rw [hflat]
        rfl
      · rw [List.length_cons]
        omega

theorem isGrouped_group {s : List Char} (hdigits : s.all Char.isDigit = true) (hne : s ≠ []) :
    IsGrouped (group s) := by
  obtain ⟨c, t, rfl⟩ := List.exists_cons_of_ne_nil hne
  obtain ⟨first, rest, hgroup, hflat, hfirst, hrest⟩ := exists_groups c t
  refine ⟨first, rest, hgroup, hfirst, hrest, ?_⟩
  intro g hg
  rw [List.all_eq_true] at hdigits ⊢
  intro x hx
  apply hdigits x
  rw [hflat]
  exact List.mem_flatten_of_mem hg hx

theorem filter_groupWhole (s : List Char) :
    (groupWhole s).filter (· != ',') = s.filter (· != ',') := by
  rw [groupWhole, List.filter_append, filter_group, ← List.filter_append,
    List.takeWhile_append_dropWhile]

section
variable {n : Numeral} {places : Nat}

/-- The point of a text parts the sign and the whole digits from the decimal places. -/
theorem cut_text {sign : List Char} (hsign : '.' ∉ sign) (hn : n.IsCanonical places) :
    (sign ++ n.text).takeWhile (· != '.') = sign ++ n.whole ∧
      (sign ++ n.text).dropWhile (· != '.') =
        if n.fraction = [] then [] else '.' :: n.fraction := by
  have hwhole : ∀ c ∈ sign ++ n.whole, (c != '.') = true := by
    have hpoint := List.not_mem_append hsign
      (Numeral.notMem_of_all_isDigit hn.whole_isDigit (rfl : '.'.isDigit = false))
    intro c hc
    exact bne_iff_ne.mpr (ne_of_mem_of_not_mem hc hpoint)
  rw [Numeral.text, ← List.append_assoc, List.takeWhile_append_of_pos hwhole,
    List.dropWhile_append_of_pos hwhole]
  split_ifs with hempty
  · simp
  · simp

/-- Only what stands before the point is grouped, with the sign. -/
theorem groupWhole_text {sign : List Char} (hsign : '.' ∉ sign) (hn : n.IsCanonical places) :
    groupWhole (sign ++ n.text) =
      group (sign ++ n.whole) ++ if n.fraction = [] then [] else '.' :: n.fraction := by
  obtain ⟨hbefore, hbehind⟩ := cut_text hsign hn
  rw [groupWhole, hbefore, hbehind]

theorem groupWhole_text_unsigned (hn : n.IsCanonical places) : groupWhole n.text =
    group n.whole ++ if n.fraction = [] then [] else '.' :: n.fraction := by
  have h := groupWhole_text List.not_mem_nil hn
  rwa [List.nil_append, List.nil_append] at h

theorem group_minus {s : List Char} (hne : s ≠ []) :
    group ('-' :: s) = '-' :: if 3 ∣ s.length then ',' :: group s else group s := by
  have hfull : (s.length % 3 = 0 && !s.isEmpty) = true ↔ 3 ∣ s.length := by
    have hempty : s.isEmpty = false := List.isEmpty_eq_false_iff.mpr hne
    rw [hempty, Bool.not_false, Bool.and_true, decide_eq_true_iff, Nat.dvd_iff_mod_eq_zero]
  rw [group]
  by_cases h : 3 ∣ s.length
  · rw [if_pos (hfull.mpr h), if_pos h]
  · rw [if_neg (mt hfull.mp h), if_neg h]

/-- A minus sign before full groups has a comma behind it. -/
theorem groupWhole_minus (hn : n.IsCanonical places) : groupWhole ('-' :: n.text) =
    '-' :: if 3 ∣ n.whole.length then ',' :: groupWhole n.text else groupWhole n.text := by
  have hpoint : '.' ∉ ['-'] := by decide
  have hsigned := groupWhole_text hpoint hn
  rw [List.singleton_append, List.singleton_append, group_minus hn.whole_ne_nil] at hsigned
  rw [hsigned, groupWhole_text_unsigned hn]
  by_cases h : 3 ∣ n.whole.length
  · rw [if_pos h, if_pos h]
    rfl
  · rw [if_neg h, if_neg h]
    rfl

end

theorem displayed_of_plain {v : Binary64} {settings : DisplaySettings} {t : List Char}
    (h : plain v settings.precision.toNat = .ok t) (hfinite : v.isFinite = true) :
    displayed v settings = .ok (if settings.thousandsSeparators then groupWhole t else t) := by
  rw [displayed, h, hfinite, Bool.and_true]
  rfl

theorem comma_notMem_text {n : Numeral} {places : Nat} (hn : n.IsCanonical places) :
    ',' ∉ n.text := by
  have hwhole := Numeral.notMem_of_all_isDigit hn.whole_isDigit (rfl : ','.isDigit = false)
  have hfraction := Numeral.notMem_of_all_isDigit hn.fraction_isDigit (rfl : ','.isDigit = false)
  unfold Numeral.text
  split_ifs
  · simpa using hwhole
  · simpa using ⟨hwhole, hfraction⟩

theorem point_mem_text_iff {n : Numeral} {places : Nat} (hn : n.IsCanonical places) :
    '.' ∈ n.text ↔ n.fraction ≠ [] := by
  have hwhole := Numeral.notMem_of_all_isDigit hn.whole_isDigit (rfl : '.'.isDigit = false)
  unfold Numeral.text
  split_ifs with hempty
  · simpa [hempty] using hwhole
  · simpa using hempty

end ValueText

namespace Calculation
open ValueText

/-- What is shown of a finite value is what is copied of it, with commas between groups of three
digits before the point if the settings ask for them. -/
theorem ofText_groups {settings : DisplaySettings} {s : List Char} {v : Binary64}
    (hp : settings.precision.toNat ≤ maxPrecision) (hv : Expression.evaluate s = .ok v)
    (hfinite : v.isFinite = true) : ∃ shown copied,
      ofText settings s = .ok (.computed (Text.trim s) v shown copied) ∧
      displayed v settings = .ok shown ∧ plain v settings.precision.toNat = .ok copied ∧
      shown.filter (· != ',') = copied ∧
      (settings.thousandsSeparators = false → shown = copied) ∧
      (settings.thousandsSeparators = true → ∃ whole rest, shown = whole ++ rest ∧
        IsGrouped whole ∧ (('.' ∉ copied ∧ rest = []) ∨
          ('.' ∈ copied ∧ ∃ fraction, rest = '.' :: fraction ∧ fraction ≠ [] ∧
            fraction.all Char.isDigit = true))) := by
  -- No value of an expression has a sign, so the digits alone are grouped.
  obtain ⟨m, rfl⟩ : ∃ m : Magnitude, v = .finite false m := by
    cases Expression.unsigned_of_evaluate hv with
    | nan => cases hfinite
    | infinity => cases hfinite
    | finite m => exact ⟨m, rfl⟩
  let places := min settings.precision.toNat unitPlaces
  let n := Numeral.ofScaled (m.rounded places) places
  have hn : n.IsCanonical places := Numeral.isCanonical_ofScaled _ _
  have hcopied : plain (.finite false m) settings.precision.toNat = .ok n.text := plain_finite m hp
  have hshown := displayed_of_plain hcopied hfinite
  refine ⟨_, n.text, ofText_of_evaluate hv hshown hcopied, hshown, hcopied, ?_, ?_, ?_⟩
  · have hcommas : n.text.filter (· != ',') = n.text := by
      rw [List.filter_eq_self]
      intro c hc
      exact bne_iff_ne.mpr (ne_of_mem_of_not_mem hc (comma_notMem_text hn))
    split_ifs
    · rw [filter_groupWhole, hcommas]
    · exact hcommas
  · intro hplain
    rw [hplain, if_neg Bool.false_ne_true]
  · intro hgrouped
    rw [hgrouped, if_pos rfl, groupWhole_text_unsigned hn]
    refine ⟨_, _, rfl, isGrouped_group hn.whole_isDigit hn.whole_ne_nil, ?_⟩
    rw [point_mem_text_iff hn]
    split_ifs with hempty
    · exact Or.inl ⟨not_not.mpr hempty, rfl⟩
    · exact Or.inr ⟨hempty, _, rfl, hempty, hn.fraction_isDigit⟩

/-- Three groups, of which the first is short, and two decimal places. -/
theorem ofText_groups_million : ∃ v, ({} : DisplaySettings).precision.toNat ≤ maxPrecision ∧
    Expression.evaluate "1000*1000+0.25".toList = .ok v ∧ v.isFinite = true ∧ ∃ shown copied,
      ofText {} "1000*1000+0.25".toList =
        .ok (.computed (Text.trim "1000*1000+0.25".toList) v shown copied) ∧
      displayed v {} = .ok shown ∧ plain v ({} : DisplaySettings).precision.toNat = .ok copied ∧
      shown.filter (· != ',') = copied ∧
      (({} : DisplaySettings).thousandsSeparators = false → shown = copied) ∧
      (({} : DisplaySettings).thousandsSeparators = true → ∃ whole rest, shown = whole ++ rest ∧
        IsGrouped whole ∧ (('.' ∉ copied ∧ rest = []) ∨
          ('.' ∈ copied ∧ ∃ fraction, rest = '.' :: fraction ∧ fraction ≠ [] ∧
            fraction.all Char.isDigit = true))) := by
  let million : Binary64 :=
    .finite false (.ofSignificand 8589936739483648 1041 (by decide) (by decide))
  have hmillion : Expression.evaluate "1000*1000+0.25".toList = .ok million := by decide +kernel
  exact ⟨million, by decide, hmillion, rfl, ofText_groups (by decide) hmillion rfl⟩

/-- The text that is shown of it. -/
example : (ofText {} "1000*1000+0.25".toList).map line = .ok "1,000,000.25".toList := by
  decide +kernel

end Calculation

namespace ValueText

/-- A negative value is copied with a minus sign before the text of the positive one. When groups
are shown and the digits before the point fill their groups, the sign is taken for one more digit
and a comma follows it. -/
theorem texts_of_neg {v : Binary64} {x : ℚ} (hv : v.toRat? = some x) (hx : 0 < x) :
    (∀ p ≤ maxPrecision, ∃ t, plain v p = .ok t ∧ plain (-v) p = .ok ('-' :: t)) ∧
    ∀ settings : DisplaySettings, settings.precision.toNat ≤ maxPrecision →
      ∃ copied shown, plain v settings.precision.toNat = .ok copied ∧
        displayed v settings = .ok shown ∧
        displayed (-v) settings = .ok ('-' ::
          if settings.thousandsSeparators = true ∧ 3 ∣ (copied.takeWhile (· != '.')).length
          then ',' :: shown else shown) := by
  obtain ⟨m, rfl, hpos⟩ := exists_of_toRat?_pos hv hx
  have hunits : (m.units != 0) = true := bne_iff_ne.mpr hpos.ne'
  -- One numeral is written of both values, with and without the sign.
  have hplain : ∀ p ≤ maxPrecision, ∃ n : Numeral, n.IsCanonical p ∧
      plain (.finite false m) p = .ok n.text ∧
      plain (-.finite false m) p = .ok ('-' :: n.text) := by
    intro p hp
    refine ⟨_, (Numeral.isCanonical_ofScaled _ _).mono (Nat.min_le_left p unitPlaces),
      plain_finite m hp, ?_⟩
    show plain (.finite true m) p = _
    rw [plain_finite_of_sign true m hp, hunits]
    rfl
  constructor
  · intro p hp
    obtain ⟨n, -, hpositive, hnegative⟩ := hplain p hp
    exact ⟨n.text, hpositive, hnegative⟩
  · intro settings hp
    obtain ⟨n, hn, hpositive, hnegative⟩ := hplain _ hp
    refine ⟨n.text, _, hpositive, displayed_of_plain hpositive rfl, ?_⟩
    obtain ⟨hwhole, -⟩ := cut_text List.not_mem_nil hn
    rw [List.nil_append, List.nil_append] at hwhole
    rw [displayed_of_plain hnegative rfl, hwhole]
    cases settings.thousandsSeparators with
    | false => simp
    | true => simp [groupWhole_minus hn]

/-- The digits of 123 fill their group. -/
theorem texts_of_neg_full_group : ∃ v : Binary64, v.toRat? = some 123 ∧ (0 : ℚ) < 123 ∧
    (∀ p ≤ maxPrecision, ∃ t, plain v p = .ok t ∧ plain (-v) p = .ok ('-' :: t)) ∧
    ∀ settings : DisplaySettings, settings.precision.toNat ≤ maxPrecision →
      ∃ copied shown, plain v settings.precision.toNat = .ok copied ∧
        displayed v settings = .ok shown ∧
        displayed (-v) settings = .ok ('-' ::
          if settings.thousandsSeparators = true ∧ 3 ∣ (copied.takeWhile (· != '.')).length
          then ',' :: shown else shown) := by
  have hlimit : 123 ≤ exactLimit := by decide
  have hvalue : (Binary64.finite false (.ofNat 123 hlimit)).toRat? = some 123 :=
    congrArg some (Magnitude.toRat_ofNat hlimit)
  have hpos : (0 : ℚ) < 123 := by norm_num
  exact ⟨_, hvalue, hpos, texts_of_neg hvalue hpos⟩

/-- The text of -123 is not that of 123 behind a minus sign: a comma stands between them. -/
theorem not_forall_displayed_neg : ¬ ∀ (v : Binary64) (x : ℚ) (settings : DisplaySettings),
    v.toRat? = some x → 0 < x → settings.precision.toNat ≤ maxPrecision →
      ∀ shown, displayed v settings = .ok shown → displayed (-v) settings = .ok ('-' :: shown) := by
  intro h
  obtain ⟨m, hvalue, hpositive, hnegative⟩ : ∃ m : Magnitude,
      (Binary64.finite false m).toRat? = some 123 ∧
      displayed (.finite false m) {} = .ok "123".toList ∧
      displayed (-.finite false m) {} = .ok "-,123".toList :=
    ⟨.ofNat 123 (by decide), congrArg some (Magnitude.toRat_ofNat _), by decide +kernel,
      by decide +kernel⟩
  have hclaim := h _ _ {} hvalue (by norm_num) (by decide) _ hpositive
  rw [hnegative] at hclaim
  exact absurd hclaim (by decide)

end ValueText

end FormDesk
