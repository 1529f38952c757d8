import FormDesk.Proofs.FullName.Initials
import FormDesk.Proofs.FullName.Tidy

/-! Names in other spellings. A name in letters, hyphens and blanks is written from its words up to
letter case, so that it does not matter how it was typed. -/
namespace FormDesk
open Text NameRule

namespace FullName
variable {n m : FullName} {s w : List Char}

/-- Only letters of names, hyphens and blanks stand in the text. -/
def IsPlain (s : List Char) : Prop := ∀ c ∈ s, isNameLetter c = true ∨ c = '-' ∨ isBlank c = true

/-- The words of a part, in small letters. -/
def smallWords (s : List Char) : List (List Char) := (words s).map (List.map small)

/-- Corresponding parts have the same words up to letter case. A patronymic that is absent has no
words. -/
structure SameWords (n m : FullName) : Prop where
  surname : smallWords n.surname = smallWords m.surname
  firstName : smallWords n.firstName = smallWords m.firstName
  patronymic : smallWords (n.patronymic.getD []) = smallWords (m.patronymic.getD [])

/-- The name with each part in tidy spelling. -/
def tidyParts (n : FullName) : FullName :=
  ⟨tidyPart n.surname, tidyPart n.firstName, n.patronymic.map tidyPart⟩

/-- The first character in upper case, and the others as they are. -/
def headUpper : List Char → List Char
  | [] => []
  | c :: w => upper c ++ w

theorem capitalize_eq_headUpper (hw : ∀ c ∈ w, isNameLetter c = true ∨ c = '-') :
    capitalize w = headUpper (w.map small) := by
  cases w with
  | nil => rfl
  | cons c w =>
    have hlower : w.flatMap lower = w.map small := by
      rw [List.map_eq_flatMap]
      apply List.flatMap_congr
      intro d hd
      exact lower_eq_small (hw d (List.mem_cons_of_mem c hd))
    rw [capitalize, hlower, List.map_cons, headUpper, upper_small]

theorem IsPlain.letter_or_hyphen (hs : IsPlain s) (hw : w ∈ words s) :
    ∀ c ∈ w, isNameLetter c = true ∨ c = '-' := by
  intro c hc
  rcases hs c (mem_of_mem_words hw hc) with hletter | hhyphen | hblank
  · exact Or.inl hletter
  · exact Or.inr hhyphen
  · rw [isBlank_of_mem_words hw c hc] at hblank
    cases hblank

theorem IsPlain.tidyPart_eq (hs : IsPlain s) :
    tidyPart s = unwords ((smallWords s).map headUpper) := by
  rw [tidyPart, smallWords, List.map_map]
  congr 1
  apply List.map_congr_left
  intro w hw
  exact capitalize_eq_headUpper (hs.letter_or_hyphen hw)

theorem not_doubleCapital {c : Char} (h : isNameLetter c = true ∨ c = '-') :
    inRanges doubleCapitalRanges c.toNat = false := by
  rw [isNameLetter_iff] at h
  unfold inRanges nameLetterRanges at h
  rw [← Bool.not_eq_true]
  unfold inRanges doubleCapitalRanges
  simp only [List.any_cons, List.any_nil, Bool.or_eq_true, Bool.and_eq_true, decide_eq_true_eq,
    ← Char.toNat_inj, Char.reduceToNat, Bool.false_eq_true, or_false] at h ⊢
  omega

theorem IsPlain.tidyPart_tidyPart (hs : IsPlain s) : tidyPart (tidyPart s) = tidyPart s := by
  rw [tidyPart_eq_iff, words_tidyPart, List.map_map]
  apply List.map_congr_left
  intro w hw
  apply capitalize_capitalize_eq_iff.mpr
  intro c hc
  exact not_doubleCapital (hs.letter_or_hyphen hw c (List.mem_of_mem_head? hc))

theorem isPlain_of_parts (hn : ∀ p ∈ n.parts, IsPlain p.2) :
    IsPlain n.surname ∧ IsPlain n.firstName ∧ IsPlain (n.patronymic.getD []) := by
  have hsurname := hn (.surname, n.surname) (by simp [parts])
  have hfirstName := hn (.firstName, n.firstName) (by simp [parts])
  refine ⟨hsurname, hfirstName, ?_⟩
  cases hpatronymic : n.patronymic with
  | none => exact List.forall_mem_nil _
  | some given => exact hn (.patronymic, given) (by simp [parts, hpatronymic])

/-- A name in tidy spelling, with the patronymic that is absent as one without words. -/
theorem tidy_eq (n : FullName) : n.tidy = ⟨tidyPart n.surname, tidyPart n.firstName,
    (some (tidyPart (n.patronymic.getD []))).filter (!·.isEmpty)⟩ := by
  rw [tidy]
  cases n.patronymic <;> rfl

/-- The tidy parts are all that counts. -/
theorem format_congr (hsurname : tidyPart n.surname = tidyPart m.surname)
    (hfirstName : tidyPart n.firstName = tidyPart m.firstName)
    (hpatronymic : tidyPart (n.patronymic.getD []) = tidyPart (m.patronymic.getD [])) :
    n.format = m.format := by
  have htidy : n.tidy = m.tidy := by rw [tidy_eq, tidy_eq, hsurname, hfirstName, hpatronymic]
  have hempty : ∀ s, (trim s).isEmpty = (tidyPart s).isEmpty := by
    intro s
    rw [Bool.eq_iff_iff, List.isEmpty_iff, List.isEmpty_iff, tidyPart_eq_nil_iff]
  rw [format, format, hempty, hempty, hempty, hempty, hsurname, hfirstName, htidy]

/-- Names with the same words up to letter case are written alike or refused alike, and it is the
same with the tidy parts of a name. -/
theorem format_of_sameWords (hn : ∀ p ∈ n.parts, IsPlain p.2) (hm : ∀ p ∈ m.parts, IsPlain p.2)
    (h : SameWords n m) : n.format = m.format ∧ n.tidyParts.format = n.format := by
  obtain ⟨hsurname, hfirstName, hpatronymic⟩ := isPlain_of_parts hn
  obtain ⟨hsurname', hfirstName', hpatronymic'⟩ := isPlain_of_parts hm
  constructor
  · apply format_congr
    · rw [hsurname.tidyPart_eq, hsurname'.tidyPart_eq, h.surname]
    · rw [hfirstName.tidyPart_eq, hfirstName'.tidyPart_eq, h.firstName]
    · rw [hpatronymic.tidyPart_eq, hpatronymic'.tidyPart_eq, h.patronymic]
  · apply format_congr
    · exact hsurname.tidyPart_tidyPart
    · exact hfirstName.tidyPart_tidyPart
    · have htidy : (n.patronymic.map tidyPart).getD [] = tidyPart (n.patronymic.getD []) := by
        cases n.patronymic <;> rfl
      rw [tidyParts, htidy, hpatronymic.tidyPart_tidyPart]

theorem isPlain_of_all (h : (n.parts.all fun p =>
    p.2.all fun c => isNameLetter c || c == '-' || isBlank c) = true) :
    ∀ p ∈ n.parts, IsPlain p.2 := by
  intro p hp c hc
  have hchar := List.all_eq_true.mp (List.all_eq_true.mp h p hp) c hc
  simpa [or_assoc] using hchar

/-- A name in mixed case between blanks, with a blank patronymic, and the same name without. -/
theorem format_of_sameWords_mixed :
    let n : FullName := ⟨" vAn dYCK\t".toList, "\u00A0ЯН".toList, some " \n".toList⟩
    let m : FullName := ⟨"Van Dyck".toList, "ян".toList, none⟩
    (∀ p ∈ n.parts, IsPlain p.2) ∧ (∀ p ∈ m.parts, IsPlain p.2) ∧ SameWords n m ∧
      m.format = .ok "Van Dyck Я.".toList ∧ n.format = m.format ∧
        n.tidyParts.format = n.format := by
  intro n m
  have hn : ∀ p ∈ n.parts, IsPlain p.2 := isPlain_of_all (by decide)
  have hm : ∀ p ∈ m.parts, IsPlain p.2 := isPlain_of_all (by decide)
  have hwords : SameWords n m := ⟨by decide, by decide, by decide⟩
  exact ⟨hn, hm, hwords, by decide, format_of_sameWords hn hm hwords⟩

end FullName

end FormDesk
