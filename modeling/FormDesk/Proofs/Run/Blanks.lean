import FormDesk.Proofs.Run
import FormDesk.Proofs.Text.Spaced
import FormDesk.Proofs.Text.Utf8

/-! Blanks do not count in a dialogue. A line goes where its words send it and is answered by them,
so that other blanks between and around the words, or other line ends, leave every answer as it
is. -/
namespace FormDesk
open Text

namespace Expression
variable {s t : List Char}

theorem unblank_append (s t : List Char) : unblank (s ++ t) = unblank s ++ unblank t :=
  List.filter_append s t

theorem unblank_of_spaced {ws : List (List Char)} (h : Spaced s ws) :
    unblank s = ws.flatten := by
  have hblanks : ∀ g : List Char, Blanks g → unblank g = [] := fun g hg =>
    List.filter_eq_nil_iff.mpr fun c hc => by simp [hg c hc]
  induction h with
  | nil hg => exact hblanks _ hg
  | @cons g w s ws hg _ hw _ _ ih =>
    have hword : unblank w = w := List.filter_eq_self.mpr fun c hc => by simp [hw c hc]
    calc unblank (g ++ (w ++ s)) = unblank g ++ (unblank w ++ unblank s) := by
          rw [unblank_append, unblank_append]
      _ = (w :: ws).flatten := by
          rw [hblanks g hg, hword, ih, List.nil_append, List.flatten_cons]

theorem unblank_congr (h : words s = words t) : unblank s = unblank t := by
  rw [unblank_of_spaced (spaced_words s), unblank_of_spaced (spaced_words t), h]

theorem trim_eq_nil_iff : trim s = [] ↔ unblank s = [] := by
  rw [← List.head?_eq_none_iff, ← List.head?_eq_none_iff (l := unblank s), trim, head?_trimBy,
    unblank, List.head?_filter]

end Expression

namespace Submission
variable {s t : List Char}

theorem isNameLike_unblank (s : List Char) :
    isNameLike (Expression.unblank s) = isNameLike s := by
  have hmem : ∀ c, c ∈ Expression.unblank s ↔ c ∈ s ∧ isBlank c = false := by
    simp [Expression.unblank]
  rw [Bool.eq_iff_iff, isNameLike_iff, isNameLike_iff]
  refine and_congr ⟨fun h c hc => ?_, fun h c hc => h c ((hmem c).mp hc).1⟩
    (exists_congr fun c => and_congr_left fun hletter => ?_)
  · cases hblank : isBlank c with
    | true => exact Or.inr (NameRule.isSeparator_of_isBlank hblank)
    | false => exact h c ((hmem c).mpr ⟨hc, hblank⟩)
  · refine (hmem c).trans (and_iff_left ?_)
    by_contra hblank
    have hseparator := NameRule.isSeparator_of_isBlank (by simpa using hblank)
    rw [NameRule.isLetter_of_isSeparator hseparator] at hletter
    cases hletter

theorem ofLine_congr (h : words s = words t) : ofLine s = ofLine t := by
  have hunblank := Expression.unblank_congr h
  have hall : ∀ r : List Char, r.all isBlank = true ↔ Expression.unblank r = [] := by
    simp [Expression.unblank]
  have hblank : s.all isBlank = t.all isBlank := by
    rw [Bool.eq_iff_iff, hall, hall, hunblank]
  have hname : isNameLike s = isNameLike t := by
    rw [← isNameLike_unblank, hunblank, isNameLike_unblank]
  unfold ofLine
  rw [hblank, hname, h]

theorem nameOfLine_congr (h : words s = words t) : nameOfLine s = nameOfLine t := by
  simp only [nameOfLine, h]

end Submission

namespace Answer
variable {settings : DisplaySettings} {json : Bool} {s t : List Char}

theorem map_ofCalculation_congr (h : Expression.evaluate s = Expression.evaluate t) :
    (Calculation.ofText settings s).map (ofCalculation json) =
      (Calculation.ofText settings t).map (ofCalculation json) := by
  unfold Calculation.ofText
  rw [h]
  cases Expression.evaluate t with
  | error fault => cases json <;> rfl
  | ok v =>
    simp only
    cases ValueText.displayed v settings with
    | error e => rfl
    | ok displayed =>
      cases ValueText.plain v settings.precision.toNat with
      | error e => rfl
      | ok copied => cases json <;> rfl

/-- The answer to an expression depends on its symbols alone. -/
theorem ofExpression_congr (h : Expression.unblank s = Expression.unblank t) :
    ofExpression settings json s = ofExpression settings json t := by
  have hvalue : Expression.evaluate (trim s) = Expression.evaluate (trim t) :=
    Expression.evaluate_congr (by rw [Expression.unblank_trim, h, Expression.unblank_trim])
  have hempty : (trim s).isEmpty = (trim t).isEmpty := by
    rw [Bool.eq_iff_iff, List.isEmpty_iff, List.isEmpty_iff, Expression.trim_eq_nil_iff, h,
      Expression.trim_eq_nil_iff]
  unfold ofExpression
  rw [hempty]
  split
  · rfl
  · exact map_ofCalculation_congr hvalue

theorem ofLine_congr (h : words s = words t) :
    ofLine settings json s = ofLine settings json t := by
  unfold ofLine
  rw [Submission.ofLine_congr h, Submission.nameOfLine_congr h,
    ofExpression_congr (Expression.unblank_congr h)]

end Answer

namespace Run
variable {settings : DisplaySettings} {json : Bool}

/-- A dialogue depends on the words of its lines alone. -/
theorem ofLines_congr {lines lines' : List (List UInt8)}
    (h : lines.map words? = lines'.map words?) :
    ofLines settings json lines = ofLines settings json lines' := by
  induction lines generalizing lines' with
  | nil => rw [List.map_eq_nil_iff.mp h.symm]
  | cons line lines ih =>
    obtain ⟨line', lines', rfl, hline, hlines⟩ := List.map_eq_cons_iff.mp h.symm
    unfold ofLines
    rw [words?] at hline
    cases hs : ofUtf8? line with
    | none =>
      rw [words?, hs, Option.map_none, Option.map_eq_none_iff] at hline
      rw [hline]
    | some s =>
      rw [words?, hs] at hline
      obtain ⟨t, ht, hwords⟩ := Option.map_eq_some_iff.mp hline
      simp only [ht, Answer.ofLine_congr hwords, ih hlines.symm]

theorem ofInvocation_repl {settings : Settings} {i : CommandLine.Invocation}
    (hrepl : i.command = .repl) (input : List UInt8) :
    ofInvocation settings i input = ofLines settings.display i.json (byteLines input) := by
  simp only [ofInvocation, hrepl]

/-- A dialogue of one line is the answer to it. -/
theorem ofInvocation_line {settings : Settings} {i : CommandLine.Invocation}
    (hrepl : i.command = .repl) {s : List Char} (hs : '\n' ∉ s) :
    ofInvocation settings i (utf8 s ++ [lineFeed]) =
      ofAnswer? (Answer.ofLine settings.display i.json s) := by
  have hread : ofLines settings.display i.json (byteLines (utf8 s ++ [lineFeed])) =
      ofLines settings.display i.json [utf8 s] :=
    ofLines_congr (by rw [byteLines_utf8 hs, List.map_singleton, words?_dropReturn,
      List.map_singleton])
  have hline : ofLines settings.display i.json [utf8 s] =
      ofAnswer? (Answer.ofLine settings.display i.json s) := by
    simp only [ofLines, ofUtf8?_utf8]
    cases Answer.ofLine settings.display i.json s with
    | error e => rfl
    | ok a => exact (ofAnswer_eq_cons a).symm
  rw [ofInvocation_repl hrepl, hread, hline]

theorem ReadAs.map_words? {lines : List (List UInt8)} {texts : List (List Char)}
    (h : ReadAs lines texts) : lines.map words? = (texts.map words).map some := by
  calc lines.map words? = (lines.map ofUtf8?).map (Option.map words) := by
        rw [List.map_map]
        rfl
    _ = (texts.map words).map some := by
        rw [h, List.map_map, List.map_map]
        rfl

theorem map_words_of_respaced {texts texts' : List (List Char)}
    (h : List.Forall₂ Respaced texts texts') : texts.map words = texts'.map words := by
  induction h with
  | nil => rfl
  | cons hst _ ih => rw [List.map_cons, List.map_cons, respaced_iff_words.mp hst, ih]

/-- A line goes to the same place and is answered by the same line however its words are spaced, and
a dialogue does not depend on the blanks in its lines, nor on the form of its line ends. -/
theorem dialogue_of_respaced (settings : Settings) (i : CommandLine.Invocation)
    (hrepl : i.command = .repl)
    (hp : settings.display.precision.toNat ≤ ValueText.maxPrecision) :
    let run := ofInvocation settings i
    (∀ s t, Respaced s t → Submission.ofLine s = Submission.ofLine t ∧
      ('\n' ∉ s → '\n' ∉ t → ∃ a,
        run (utf8 s ++ [lineFeed]) = ofAnswer a ∧ run (utf8 t ++ [lineFeed]) = ofAnswer a)) ∧
      (∀ input input' texts texts', ReadAs (byteLines input) texts →
        ReadAs (byteLines input') texts' → List.Forall₂ Respaced texts texts' →
          run input = run input') ∧
      ∀ input, run (withReturns input) = run input := by
  intro run
  have hrun : ∀ input, run input = ofLines settings.display i.json (byteLines input) :=
    ofInvocation_repl hrepl
  refine ⟨fun s t hst => ?_, fun input input' texts texts' h h' hrel => ?_, fun input => ?_⟩
  · have hwords := respaced_iff_words.mp hst
    refine ⟨Submission.ofLine_congr hwords, fun hs ht => ?_⟩
    obtain ⟨a, ha, -⟩ := Answer.exists_ofLine i.json hp s
    refine ⟨a, ?_, ?_⟩
    · simp only [run, ofInvocation_line hrepl hs, ha, ofAnswer?]
    · simp only [run, ofInvocation_line hrepl ht, ← Answer.ofLine_congr hwords, ha, ofAnswer?]
  · have hlines : (byteLines input).map words? = (byteLines input').map words? := by
      rw [h.map_words?, h'.map_words?, map_words_of_respaced hrel]
    rw [hrun, hrun, ofLines_congr hlines]
  · rw [hrun, hrun, ofLines_congr (words?_byteLines_withReturns input)]

/-- A sum with a tab and a space in it, and with a no-break space and a carriage return. -/
theorem dialogue_of_respaced_sum :
    let i : CommandLine.Invocation := ⟨none, true, .repl⟩
    let s := " 2 +\t3".toList
    let t := "2\u00A0+ 3\r".toList
    i.command = .repl ∧ ({} : Settings).display.precision.toNat ≤ ValueText.maxPrecision ∧
      Submission.ofLine s = Submission.ofLine t ∧
      (∃ a, ofInvocation {} i (utf8 s ++ [lineFeed]) = ofAnswer a ∧
        ofInvocation {} i (utf8 t ++ [lineFeed]) = ofAnswer a) ∧
      ofInvocation {} i (withReturns (utf8 s ++ [lineFeed])) =
        ofInvocation {} i (utf8 s ++ [lineFeed]) := by
  intro i s t
  obtain ⟨hlines, -, hreturns⟩ := dialogue_of_respaced {} i rfl (by decide)
  obtain ⟨hkind, hanswer⟩ := hlines s t (respaced_iff_words.mpr (by decide))
  exact ⟨rfl, by decide, hkind, hanswer (by decide) (by decide), hreturns _⟩

end Run

end FormDesk
