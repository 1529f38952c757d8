import FormDesk.Proofs.Run.Blanks

/-! A line of a dialogue and the command that submits the same. A command takes an expression in
several words and a name in its parts, where a line is trimmed, sorted and cut into words first;
both lead to one answer. -/
namespace FormDesk
open Text

namespace Expression

/-- Only the symbols of the words count, so that it does not matter where an expression is cut. -/
theorem unblank_unwords (ws : List (List Char)) : unblank (unwords ws) = unblank ws.flatten := by
  induction ws with
  | nil => rfl
  | cons w ws ih =>
    cases ws with
    | nil => rw [unwords, List.intercalate_singleton, List.flatten_singleton]
    | cons v ws =>
      have hspace : unblank [' '] = [] := rfl
      calc unblank (unwords (w :: v :: ws))
          = unblank w ++ (unblank [' '] ++ unblank (unwords (v :: ws))) := by
            rw [unwords, List.intercalate_cons_cons, ← unwords, List.append_assoc, unblank_append,
              unblank_append]
        _ = unblank (w :: v :: ws).flatten := by
            rw [hspace, ih, List.nil_append, ← unblank_append, ← List.flatten_cons]

end Expression

theorem FullName.format_some_nil (surname firstName : List Char) :
    format ⟨surname, firstName, some []⟩ = format ⟨surname, firstName, none⟩ := by
  have htidy : tidy ⟨surname, firstName, some []⟩ = tidy ⟨surname, firstName, none⟩ := rfl
  unfold format
  rw [htidy]

namespace Answer
variable {settings : DisplaySettings} {json : Bool} {s : List Char}

/-- A line without a name is answered as an expression, also when it is blank. -/
theorem ofLine_of_ne_name (h : Submission.ofLine s ≠ .name) :
    ofLine settings json s = ofExpression settings json s := by
  unfold ofLine
  cases hkind : Submission.ofLine s with
  | nothing =>
    have hunblank : Expression.unblank s = [] := by
      by_contra hne
      have hexpression := Submission.ofLine_eq_expression_iff.mpr ⟨hne, h⟩
      rw [hkind] at hexpression
      cases hexpression
    have hempty : (trim s).isEmpty = true :=
      List.isEmpty_iff.mpr (Expression.trim_eq_nil_iff.mpr hunblank)
    rw [ofExpression, if_pos hempty]
  | expression => rfl
  | name => exact absurd hkind h

end Answer

namespace Run

/-- The command submits what the line holds: an expression that is cut into words in any way, or the
words of a name as its parts. -/
inductive Submits (s : List Char) : CommandLine.Command → Prop
  | expression {words : List (List Char)} {copy : Bool} : Submission.ofLine s ≠ .name →
      Expression.unblank words.flatten = Expression.unblank s → Submits s (.eval words copy)
  | name {surname firstName : List Char} {rest : List (List Char)} :
      Submission.ofLine s = .name → words s = surname :: firstName :: rest →
      Submits s (.name ⟨surname, firstName, if rest = [] then none else some (unwords rest)⟩)

theorem exists_submits (s : List Char) : ∃ command, Submits s command := by
  by_cases h : Submission.ofLine s = .name
  · have hlength := (Submission.ofLine_eq_name_iff.mp h).2
    match hwords : words s with
    | [] => simp [hwords] at hlength
    | [_] => simp [hwords] at hlength
    | surname :: firstName :: rest => exact ⟨_, .name h hwords⟩
  · exact ⟨.eval [s] false, .expression h (by rw [List.flatten_singleton])⟩

theorem ofInvocation_of_submits {settings : Settings} {i : CommandLine.Invocation} {s : List Char}
    (h : Submits s i.command) (input : List UInt8) : ofInvocation settings i input =
      ofAnswer? (Answer.ofLine settings.display i.json s) := by
  obtain ⟨config, json, command⟩ := i
  cases h with
  | expression hkind hwords =>
    rw [← Expression.unblank_unwords] at hwords
    rw [Answer.ofLine_of_ne_name hkind, ← Answer.ofExpression_congr hwords]
    rfl
  | @name surname firstName rest hkind hwords =>
    have hname : Submission.nameOfLine s = ⟨surname, firstName, some (unwords rest)⟩ := by
      unfold Submission.nameOfLine
      rw [hwords]
    have hformat : FullName.format
        ⟨surname, firstName, if rest = [] then none else some (unwords rest)⟩ =
          (Submission.nameOfLine s).format := by
      rw [hname]
      split_ifs with hrest
      · rw [hrest]
        exact (FullName.format_some_nil surname firstName).symm
      · rfl
    have hanswer : Answer.ofLine settings.display json s =
        .ok (Answer.ofName json (Submission.nameOfLine s)) := by
      rw [Answer.ofLine, hkind]
    simp only [ofInvocation, hanswer, ofAnswer?, Answer.ofName, Outcome.ofName, hformat]

/-- A dialogue of one line and a command that submits the line write the same answer and accept the
same, and every line has such a command. -/
theorem command_answers_as_dialogue (settings : Settings) (json : Bool)
    (config config' : Option (List Char)) {s : List Char} (hs : '\n' ∉ s)
    (hp : settings.display.precision.toNat ≤ ValueText.maxPrecision) :
    (∃ command, Submits s command) ∧ ∀ command, Submits s command → ∀ input, ∃ a,
      ofInvocation settings ⟨config, json, .repl⟩ (utf8 s ++ [lineFeed]) = ofAnswer a ∧
        ofInvocation settings ⟨config', json, command⟩ input = ofAnswer a := by
  refine ⟨exists_submits s, fun command h input => ?_⟩
  obtain ⟨a, ha, -⟩ := Answer.exists_ofLine json hp s
  refine ⟨a, ?_, ?_⟩
  · rw [ofInvocation_line rfl hs, ha, ofAnswer?]
  · rw [ofInvocation_of_submits h, ha, ofAnswer?]

/-- A sum in three words, one of them empty, and the same sum as a line. -/
theorem command_answers_as_dialogue_sum :
    let s := "2 + 30\r".toList
    let command : CommandLine.Command := .eval ["2+".toList, [], "3 0".toList] false
    '\n' ∉ s ∧ ({} : Settings).display.precision.toNat ≤ ValueText.maxPrecision ∧
      Submits s command ∧ ∃ a,
        ofInvocation {} ⟨none, true, .repl⟩ (utf8 s ++ [lineFeed]) = ofAnswer a ∧
          ofInvocation {} ⟨none, true, command⟩ [] = ofAnswer a := by
  intro s command
  have hs : '\n' ∉ s := by decide
  have hsubmits : Submits s command := .expression (by decide +kernel) (by decide)
  obtain ⟨-, hanswer⟩ := command_answers_as_dialogue {} true none none hs (by decide)
  exact ⟨hs, by decide, hsubmits, hanswer command hsubmits []⟩

end Run

end FormDesk
