import FormDesk.Proofs.Json.Text
import FormDesk.Proofs.Submission
import FormDesk.Proofs.ValueText.Written
import FormDesk.Run

/-! The answer to a line. There is one while the precision is within its limit; it is a single line,
and it accepts expressions with a value and names that are written. -/
namespace FormDesk
open Text

namespace Expression

theorem LeftmostMalformed.mem_pieces {w n : List Char} (h : LeftmostMalformed w n) :
    n ∈ pieces w := by
  obtain ⟨ps, qs, hcut, -⟩ := h
  simp [hcut]

theorem evaluate_ne_ok_of_trim {s : List Char} (h : (trim s).isEmpty = true) (v : Binary64) :
    evaluate s ≠ .ok v := by
  intro hv
  rw [← evaluate_trim, List.isEmpty_iff.mp h] at hv
  cases hv

theorem newline_notMem_message {s : List Char} {fault : Fault} (h : evaluate s = .error fault) :
    '\n' ∉ fault.message := by
  have hline : '\n' ∉ unblank s := by
    intro hmem
    exact absurd (List.mem_filter.mp hmem).2 (by decide)
  cases evaluate_eq_error_iff_diagnosis.mp h with
  | @invalidCharacter u v c hw _ _ =>
    have hc : '\n' ≠ c := fun hc => hline (by rw [hw, hc]; simp)
    unfold Fault.message
    simp [hc]
  | emptyExpression => decide
  | operatorAtEnd => decide
  | adjacentOperators => decide
  | @tooManyPoints n _ hleft =>
    have hn : '\n' ∉ n := fun hmem => hline (mem_of_mem_pieces hleft.mem_pieces hmem)
    unfold Fault.message NumberFault.remark
    simp [hn]
  | lonePoint => decide

end Expression

theorem NameFault.newline_notMem_message (fault : NameFault) : '\n' ∉ fault.message := by
  cases fault with
  | missingRequired => decide
  | broken rule part => cases rule <;> cases part <;> decide

namespace Calculation
variable {settings : DisplaySettings} {s : List Char} {c : Calculation}

theorem ofText_eq_ok (h : ofText settings s = .ok c) :
    (∃ fault, Expression.evaluate s = .error fault ∧ c = .refused (trim s) fault) ∨
      ∃ v displayed copied, Expression.evaluate s = .ok v ∧
        ValueText.displayed v settings = .ok displayed ∧
        c = .computed (trim s) v displayed copied := by
  unfold ofText at h
  cases hv : Expression.evaluate s with
  | error fault =>
    rw [hv] at h
    cases h
    exact Or.inl ⟨fault, rfl, rfl⟩
  | ok v =>
    rw [hv] at h
    cases hdisplayed : ValueText.displayed v settings with
    | error e =>
      simp only [hdisplayed] at h
      cases h
    | ok displayed =>
      cases hcopied : ValueText.plain v settings.precision.toNat with
      | error e =>
        simp only [hdisplayed, hcopied] at h
        cases h
      | ok copied =>
        simp only [hdisplayed, hcopied] at h
        cases h
        exact Or.inr ⟨v, displayed, copied, rfl, hdisplayed, rfl⟩

theorem ofText_of_evaluate {v : Binary64} {displayed copied : List Char}
    (hv : Expression.evaluate s = .ok v) (hdisplayed : ValueText.displayed v settings = .ok displayed)
    (hcopied : ValueText.plain v settings.precision.toNat = .ok copied) :
    ofText settings s = .ok (.computed (trim s) v displayed copied) := by
  unfold ofText
  rw [hv]
  simp only [hdisplayed, hcopied]
  rfl

theorem exists_ofText (hp : settings.precision.toNat ≤ ValueText.maxPrecision) (s : List Char) :
    ∃ c, ofText settings s = .ok c := by
  unfold ofText
  cases Expression.evaluate s with
  | error fault => exact ⟨_, rfl⟩
  | ok v =>
    obtain ⟨displayed, hdisplayed⟩ := ValueText.exists_displayed v hp
    obtain ⟨copied, hcopied⟩ := ValueText.exists_plain v hp
    simp only [hdisplayed, hcopied]
    exact ⟨_, rfl⟩

theorem newline_notMem_line (h : ofText settings s = .ok c) : '\n' ∉ c.line := by
  rcases ofText_eq_ok h with ⟨fault, hfault, rfl⟩ | ⟨v, displayed, copied, -, hdisplayed, rfl⟩
  · exact Expression.newline_notMem_message hfault
  · exact ValueText.newline_notMem_displayed hdisplayed

theorem isSuccess_iff (h : ofText settings s = .ok c) :
    c.isSuccess = true ↔ ∃ v, Expression.evaluate s = .ok v := by
  rcases ofText_eq_ok h with ⟨fault, hfault, rfl⟩ | ⟨v, displayed, copied, hv, -, rfl⟩
  · simp [isSuccess, hfault]
  · simp [isSuccess, hv]

end Calculation

namespace Outcome

@[simp] theorem text_ofCalculation (c : Calculation) : (ofCalculation c).text = c.line := by
  cases c <;> rfl

@[simp] theorem isSuccess_ofCalculation (c : Calculation) :
    (ofCalculation c).isSuccess = c.isSuccess := by
  cases c <;> rfl

theorem newline_notMem_line {o : Outcome} (h : '\n' ∉ o.text) : '\n' ∉ o.line := by
  unfold text at h
  unfold line
  split at h
  · simpa using h
  · simpa using h

theorem newline_notMem_ofName (n : FullName) : '\n' ∉ (ofName n).text := by
  unfold ofName
  split
  · next hformat => exact FullName.newline_notMem_of_format hformat
  · next fault _ => exact fault.newline_notMem_message

theorem isSuccess_ofName_iff {n : FullName} :
    (ofName n).isSuccess = true ↔ ∃ t, n.format = .ok t := by
  unfold ofName
  split
  · next hformat => simp [isSuccess, hformat]
  · next hformat => simp [isSuccess, hformat]

end Outcome

namespace Answer
variable {settings : DisplaySettings} {json : Bool} {s : List Char} {a : Answer}

theorem newline_notMem_ofOutcome {o : Outcome} (h : '\n' ∉ o.text) :
    '\n' ∉ (ofOutcome json o).line := by
  cases json with
  | false => exact Outcome.newline_notMem_line h
  | true => exact Json.newline_notMem_text _

/-- The answer that a calculation gives, as an object or as a line. -/
def ofCalculation (json : Bool) (c : Calculation) : Answer :=
  if json then ⟨c.toJson.text, c.isSuccess⟩ else ofOutcome false (.ofCalculation c)

theorem newline_notMem_ofCalculation {c : Calculation} (h : '\n' ∉ c.line) :
    '\n' ∉ (ofCalculation json c).line := by
  cases json with
  | false => exact newline_notMem_ofOutcome (by rwa [Outcome.text_ofCalculation])
  | true => exact Json.newline_notMem_text _

@[simp] theorem isAccepted_ofCalculation (c : Calculation) :
    (ofCalculation json c).isAccepted = c.isSuccess := by
  cases json with
  | false => exact Outcome.isSuccess_ofCalculation c
  | true => rfl

theorem isAccepted_ofExpression (h : ofExpression settings json s = .ok a) :
    a.isAccepted = true ↔ ∃ v, Expression.evaluate s = .ok v := by
  unfold ofExpression at h
  by_cases hempty : (trim s).isEmpty = true
  · rw [if_pos hempty] at h
    cases h
    exact iff_of_false nofun fun ⟨v, hv⟩ => Expression.evaluate_ne_ok_of_trim hempty v hv
  · rw [if_neg hempty] at h
    cases hc : Calculation.ofText settings (trim s) with
    | error e =>
      rw [hc] at h
      cases h
    | ok c =>
      rw [hc] at h
      obtain rfl : ofCalculation json c = a := Except.ok.inj h
      rw [isAccepted_ofCalculation, Calculation.isSuccess_iff hc, Expression.evaluate_trim]

/-- A line is accepted when it is an expression with a value or a name that is written. -/
theorem isAccepted_ofLine (h : ofLine settings json s = .ok a) : a.isAccepted = true ↔
    (∃ v, Expression.evaluate s = .ok v) ∨ Submission.IsWrittenName s := by
  have hvalue : Submission.ofLine s ≠ .expression → ¬ ∃ v, Expression.evaluate s = .ok v :=
    fun hne ⟨v, hv⟩ => hne (Submission.ofLine_of_evaluate hv)
  have hname : Submission.ofLine s ≠ .name → ¬ Submission.IsWrittenName s :=
    fun hne hname => hne (Submission.ofLine_of_isWrittenName hname)
  unfold ofLine at h
  cases hkind : Submission.ofLine s with
  | nothing =>
    rw [hkind] at h hvalue hname
    cases h
    exact iff_of_false nofun (not_or.mpr ⟨hvalue (by decide), hname (by decide)⟩)
  | expression =>
    rw [hkind] at h hname
    rw [or_iff_left (hname (by decide))]
    exact isAccepted_ofExpression h
  | name =>
    rw [hkind] at h hvalue
    cases h
    have hlength := (Submission.ofLine_eq_name_iff.mp hkind).2
    rw [or_iff_right (hvalue (by decide)), Submission.isWrittenName_iff, and_iff_right hlength]
    exact Outcome.isSuccess_ofName_iff

/-- Every text that is taken for an expression has an answer of one line. -/
theorem exists_ofExpression (json : Bool) (hp : settings.precision.toNat ≤ ValueText.maxPrecision)
    (s : List Char) : ∃ a, ofExpression settings json s = .ok a ∧ '\n' ∉ a.line := by
  unfold ofExpression
  by_cases hempty : (trim s).isEmpty = true
  · rw [if_pos hempty]
    exact ⟨_, rfl, newline_notMem_ofOutcome (by decide)⟩
  · obtain ⟨c, hc⟩ := Calculation.exists_ofText hp (trim s)
    rw [if_neg hempty, hc]
    exact ⟨ofCalculation json c, rfl,
      newline_notMem_ofCalculation (Calculation.newline_notMem_line hc)⟩

/-- Every line has an answer of one line, and what it accepts is an expression with a value or a
name that is written. -/
theorem exists_ofLine (json : Bool) (hp : settings.precision.toNat ≤ ValueText.maxPrecision)
    (s : List Char) : ∃ a, ofLine settings json s = .ok a ∧ '\n' ∉ a.line ∧
      (a.isAccepted = true ↔
        (∃ v, Expression.evaluate s = .ok v) ∨ Submission.IsWrittenName s) := by
  suffices ∃ a, ofLine settings json s = .ok a ∧ '\n' ∉ a.line by
    obtain ⟨a, ha, hline⟩ := this
    exact ⟨a, ha, hline, isAccepted_ofLine ha⟩
  cases hkind : Submission.ofLine s with
  | nothing =>
    refine ⟨ofOutcome json .ofNothing, by rw [ofLine, hkind], newline_notMem_ofOutcome ?_⟩
    decide
  | expression =>
    obtain ⟨a, ha, hline⟩ := exists_ofExpression json hp s
    exact ⟨a, by rw [ofLine, hkind, ha], hline⟩
  | name =>
    exact ⟨ofName json (Submission.nameOfLine s), by rw [ofLine, hkind],
      newline_notMem_ofOutcome (Outcome.newline_notMem_ofName _)⟩

end Answer

end FormDesk
