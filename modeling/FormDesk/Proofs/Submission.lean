import FormDesk.Proofs.Expression.Diagnosis
import FormDesk.Proofs.FullName.Format
import FormDesk.Submission

/-! Where a line goes. Expressions, names and the test for names go by three classes of characters;
a letter is no symbol of expressions, and a name that is written holds letters and separators
alone. -/
namespace FormDesk.Submission
open Expression NameRule Text
variable {s : List Char}

/-- The line holds a name that is written: surname and first name, and the other words as
patronymic. -/
def IsWrittenName (s : List Char) : Prop :=
  ∃ surname firstName rest text, words s = surname :: firstName :: rest ∧
    FullName.format ⟨surname, firstName, some (unwords rest)⟩ = .ok text

theorem isNameLike_iff : isNameLike s = true ↔
    (∀ c ∈ s, isLetter c = true ∨ isSeparator c = true) ∧ ∃ c ∈ s, isLetter c = true := by
  simp only [isNameLike, isSeparator, Bool.and_eq_true, List.all_eq_true, List.any_eq_true,
    Bool.or_eq_true, or_assoc]

theorem ofLine_eq_name_iff :
    ofLine s = .name ↔ isNameLike s = true ∧ 2 ≤ (words s).length := by
  unfold ofLine
  split
  · next hblank =>
    refine iff_of_false (by simp) fun h => ?_
    have hwords : words s ≠ [] := List.ne_nil_of_length_pos (by omega)
    obtain ⟨c, hc, hcblank⟩ := exists_notBlank_of_words_ne_nil hwords
    rw [List.all_eq_true.mp hblank c hc] at hcblank
    cases hcblank
  · split
    · next h => simpa using h
    · next h => simpa using h

theorem ofLine_eq_expression_iff :
    ofLine s = .expression ↔ unblank s ≠ [] ∧ ofLine s ≠ .name := by
  have hblank : s.all isBlank = true ↔ unblank s = [] := by simp [unblank]
  rw [ne_eq (unblank s), ← hblank]
  unfold ofLine
  split
  · next h => simp [h]
  · next h => split <;> simp [h]

theorem not_nameLike_of_mem_symbols {c : Char} (h : c ∈ symbols) :
    isLetter c = false ∧ isSeparator c = false := by
  have hall : symbols.all (fun c => !isLetter c && !isSeparator c) = true := by decide +kernel
  simpa using List.all_eq_true.mp hall c h

theorem unblank_ne_nil_of_evaluate {v : Binary64} (h : evaluate s = .ok v) : unblank s ≠ [] := by
  intro hnil
  rw [evaluate_eq_error_iff_diagnosis.mpr (.emptyExpression hnil)] at h
  cases h

theorem not_isNameLike_of_evaluate {v : Binary64} (h : evaluate s = .ok v) :
    isNameLike s = false := by
  by_contra hlike
  obtain ⟨-, c, hc, hletter⟩ := isNameLike_iff.mp (by simpa using hlike)
  have hblank : isBlank c = false := by
    by_contra hblank
    have hseparator := isSeparator_of_isBlank (by simpa using hblank)
    rw [isLetter_of_isSeparator hseparator] at hletter
    cases hletter
  have hmem : c ∈ unblank s := List.mem_filter.mpr ⟨hc, by simp [hblank]⟩
  rw [(not_nameLike_of_mem_symbols (mem_symbols_of_evaluate h c hmem)).1] at hletter
  cases hletter

theorem ofLine_of_evaluate {v : Binary64} (h : evaluate s = .ok v) : ofLine s = .expression := by
  refine ofLine_eq_expression_iff.mpr ⟨unblank_ne_nil_of_evaluate h, fun hname => ?_⟩
  rw [ofLine_eq_name_iff, not_isNameLike_of_evaluate h] at hname
  cases hname.1

/-- Every word of a line stands in a part of its name. -/
theorem exists_part_of_mem_words {surname firstName w : List Char} {rest : List (List Char)}
    (hw : w ∈ surname :: firstName :: rest) {c : Char} (hc : c ∈ w) :
    ∃ p ∈ FullName.parts ⟨surname, firstName, some (unwords rest)⟩, c ∈ p.2 := by
  simp only [FullName.parts, List.cons_append, List.nil_append, List.exists_mem_cons_iff,
    Option.toList_some, List.map_cons, List.map_nil]
  rcases List.mem_cons.mp hw with rfl | hw
  · exact Or.inl hc
  · rcases List.mem_cons.mp hw with rfl | hw
    · exact Or.inr (Or.inl hc)
    · exact Or.inr (Or.inr (Or.inl (mem_intercalate_of_mem hw hc)))

theorem ofLine_of_isWrittenName (h : IsWrittenName s) : ofLine s = .name := by
  obtain ⟨surname, firstName, rest, text, hwords, hformat⟩ := h
  rw [ofLine_eq_name_iff, isNameLike_iff, hwords]
  refine ⟨⟨fun c hc => ?_, ?_⟩, by simp⟩
  · by_cases hblank : isBlank c = true
    · exact Or.inr (isSeparator_of_isBlank hblank)
    · obtain ⟨w, hw, hcw⟩ := exists_mem_words hc (by simpa using hblank)
      obtain ⟨p, hp, hcp⟩ := exists_part_of_mem_words (hwords ▸ hw) hcw
      exact FullName.isLetter_or_isSeparator_of_format hformat hp hcp
  · obtain ⟨c, hc, hletter⟩ := FullName.exists_isLetter_of_format hformat
    have hsurname : surname ∈ words s := by simp [hwords]
    exact ⟨c, mem_of_mem_words hsurname hc, hletter⟩

/-- A line with letters among separators stops an expression at its first character. -/
theorem evaluate_of_name (h : ofLine s = .name) :
    ∃ c, s.find? (!isBlank ·) = some c ∧ evaluate s = .error (.invalidCharacter c) := by
  obtain ⟨hlike, hlength⟩ := ofLine_eq_name_iff.mp h
  obtain ⟨d, hd, hdblank⟩ :=
    exists_notBlank_of_words_ne_nil (List.ne_nil_of_length_pos (l := words s) (by omega))
  have hmem : d ∈ unblank s := List.mem_filter.mpr ⟨hd, by simp [hdblank]⟩
  obtain ⟨c, t, ht⟩ := List.exists_cons_of_ne_nil (List.ne_nil_of_mem hmem)
  have hc : c ∈ s := List.mem_of_mem_filter (ht ▸ List.mem_cons_self : c ∈ unblank s)
  have hsymbol : c ∉ symbols := by
    intro hsymbol
    obtain ⟨hletter, hseparator⟩ := not_nameLike_of_mem_symbols hsymbol
    have hclass := (isNameLike_iff.mp hlike).1 c hc
    simp [hletter, hseparator] at hclass
  refine ⟨c, ?_, evaluate_eq_error_iff_diagnosis.mpr ?_⟩
  · rw [← List.head?_filter]
    exact List.head?_eq_some_iff.mpr ⟨t, ht⟩
  · exact .invalidCharacter (u := []) ht (by simp) hsymbol

theorem trim_of_mem_words {w : List Char} (h : w ∈ words s) : trim w ≠ [] := by
  rw [trim, trimBy_eq_self (isBlank_of_mem_words h)]
  exact ne_nil_of_mem_words h

theorem format_nameOfLine_ne_missingRequired (h : 2 ≤ (words s).length) :
    (nameOfLine s).format ≠ .error .missingRequired := by
  rw [ne_eq, FullName.format_eq_missingRequired_iff, not_or]
  unfold nameOfLine
  split
  · next surname firstName rest hwords =>
    exact ⟨trim_of_mem_words (s := s) (by simp [hwords]),
      trim_of_mem_words (s := s) (by simp [hwords])⟩
  · next hwords => simp [hwords] at h
  · next hwords => simp [hwords] at h

theorem isWrittenName_iff :
    IsWrittenName s ↔ 2 ≤ (words s).length ∧ ∃ text, (nameOfLine s).format = .ok text := by
  unfold IsWrittenName nameOfLine
  split
  · next surname firstName rest hwords => simp [hwords]
  · next hwords => simp [hwords]
  · next hwords => simp [hwords]

/-- A line goes where it is accepted, so that no line is accepted as both. A name is no expression
from its first character on and lacks no required part, and an expression is not empty. -/
theorem ofLine_routes (s : List Char) :
    (∀ v, evaluate s = .ok v → ofLine s = .expression) ∧
      (IsWrittenName s → ofLine s = .name) ∧
      ¬ ((∃ v, evaluate s = .ok v) ∧ IsWrittenName s) ∧
      (ofLine s = .name →
        (∃ c, s.find? (!isBlank ·) = some c ∧ evaluate s = .error (.invalidCharacter c)) ∧
          (nameOfLine s).format ≠ .error .missingRequired) ∧
      (ofLine s = .expression → evaluate s ≠ .error .emptyExpression) := by
  refine ⟨fun v => ofLine_of_evaluate, ofLine_of_isWrittenName, ?_, fun hname => ?_,
    fun hexpression => ?_⟩
  · intro ⟨⟨v, hv⟩, hname⟩
    have hexpression := ofLine_of_evaluate hv
    rw [ofLine_of_isWrittenName hname] at hexpression
    cases hexpression
  · have hlength := (ofLine_eq_name_iff.mp hname).2
    exact ⟨evaluate_of_name hname, format_nameOfLine_ne_missingRequired hlength⟩
  · intro hempty
    cases evaluate_eq_error_iff_diagnosis.mp hempty with
    | emptyExpression hnil => exact (ofLine_eq_expression_iff.mp hexpression).1 hnil

/-- The long s is no letter of names, but its upper case is one. -/
example : ofLine "ſokol ivan".toList = .name ∧
    (nameOfLine "ſokol ivan".toList).format = .ok "Sokol I.".toList := by decide +kernel

end FormDesk.Submission
