import FormDesk.Proofs.Run

/-! The answer to a command is one line. A text that is checked may hold line feeds, and one of them
gets through: the sentence about a character that does not belong shows it as it is. -/
namespace FormDesk
open Text

namespace Expression

theorem FirstBadOperand.mem {s n : List Char} (h : FirstBadOperand s n) {c : Char} (hc : c ∈ n) :
    c ∈ s := by
  induction h with
  | here _ _ hcore _ => exact List.mem_append_left _ (hcore.mem hc)
  | later _ _ _ ih => exact List.mem_append_right _ (List.mem_cons_of_mem _ (ih hc))

theorem newline_notMem_alphabet : '\n' ∉ Grammar.alphabet := by decide

/-- Of all sentences about a text only the one about a line feed holds a line feed. -/
theorem newline_mem_message_iff {s : List Char} {fault : Fault} (h : check s = .error fault) :
    '\n' ∈ fault.message ↔ FirstForeign s '\n' := by
  -- Every other fault is found in a text of the alphabet alone.
  have hline : (∀ c ∈ s, c ∈ Grammar.alphabet) → ¬ FirstForeign s '\n' := by
    intro halphabet h
    obtain ⟨u, v, rfl, -, hforeign⟩ := h
    exact hforeign (halphabet '\n' (by simp))
  cases check_eq_error_iff.mp h with
  | emptyExpression hspaces =>
    refine iff_of_false (by decide) (hline fun c hc => ?_)
    rw [hspaces c hc]
    decide
  | @invalidCharacter c _ hc =>
    have hmessage : '\n' ∈ (Fault.invalidCharacter c).message ↔ c = '\n' := by
      unfold Fault.message
      simp [eq_comm]
    rw [hmessage]
    constructor
    · intro h
      rwa [← h]
    · intro hnewline
      rw [← find?_not_isAllowed_eq_some_iff] at hc hnewline
      exact Option.some.inj (hc.symm.trans hnewline)
  | operatorAtEnd _ halphabet => exact iff_of_false (by decide) (hline halphabet)
  | adjacentOperators _ halphabet => exact iff_of_false (by decide) (hline halphabet)
  | @operand n _ halphabet _ _ hbad =>
    have hn : '\n' ∉ n := fun hmem => newline_notMem_alphabet (halphabet _ (hbad.mem hmem))
    refine iff_of_false ?_ (hline halphabet)
    unfold operandFault
    split_ifs
    · decide
    · unfold Fault.message NumberFault.remark
      simp [hn]
    · unfold Fault.message NumberFault.remark
      simp [hn]

theorem newline_mem_feedback_iff {s : List Char} :
    '\n' ∈ (feedback s).message ↔ FirstForeign s '\n' := by
  unfold feedback
  split
  · next hcheck =>
    refine iff_of_false (by decide) fun h => ?_
    obtain ⟨u, v, rfl, -, hforeign⟩ := h
    exact hforeign (mem_alphabet_of_mem (check_eq_ok_iff.mp hcheck) _ (by simp))
  · next hcheck => exact newline_mem_message_iff hcheck

theorem feedback_of_firstForeign {s : List Char} {c : Char} (h : FirstForeign s c) :
    feedback s = ⟨false, (Fault.invalidCharacter c).message⟩ := by
  have hspaces : ¬ OnlySpaces s := by
    obtain ⟨u, v, rfl, -, hforeign⟩ := h
    intro hspaces
    rw [hspaces c (by simp)] at hforeign
    exact hforeign (by decide)
  rw [feedback, check_of_firstForeign hspaces h]

theorem newline_notMem_clean (s : List Char) : '\n' ∉ clean s := by
  intro h
  have hsymbol := isLiteral_or_isOperator_of_mem_clean h
  revert hsymbol
  decide

end Expression

namespace Answer

theorem newline_mem_ofFeedback_iff {json : Bool} {s : List Char} :
    '\n' ∈ (ofFeedback json (Expression.feedback s)).line ↔
      json = false ∧ Expression.FirstForeign s '\n' := by
  rw [← Expression.newline_mem_feedback_iff]
  cases json with
  | true => exact iff_of_false (Json.newline_notMem_text _) (by simp)
  | false =>
    have hlabel : ∀ valid : Bool,
        '\n' ∉ (if valid then "ok: ".toList else "invalid: ".toList : List Char) := by decide
    exact List.mem_append.trans ((or_iff_right (hlabel _)).trans (and_iff_right rfl).symm)

end Answer

namespace Run

/-- There is one line feed, and it is the last character. -/
def IsOneLine (s : List Char) : Prop := s.count '\n' = 1 ∧ s.getLast? = some '\n'

theorem isOneLine_append_newline_iff {line : List Char} :
    IsOneLine (line ++ ['\n']) ↔ '\n' ∉ line := by
  rw [IsOneLine, List.getLast?_concat, and_iff_left rfl, List.count_append,
    List.count_singleton_self, Nat.add_eq_right, List.count_eq_zero]

theorem output_ofAnswer (a : Answer) : (ofAnswer a).output = a.line ++ ['\n'] :=
  List.flatMap_singleton _ _

/-- The feedback on a text, asked for as a line, whose first character that does not belong is a
line feed. -/
def ShowsLineFeed (i : CommandLine.Invocation) : Prop :=
  i.json = false ∧ ∃ words, i.command = .validate words ∧
    Expression.FirstForeign (unwords words) '\n'

/-- A command is answered once, and what is written is one line unless a line feed is shown. -/
theorem exists_ofAnswer {settings : Settings} {i : CommandLine.Invocation}
    (hcommand : i.command ≠ .repl) (hp : settings.display.precision.toNat ≤ ValueText.maxPrecision)
    (input : List UInt8) :
    ∃ a, ofInvocation settings i input = ofAnswer a ∧ ('\n' ∈ a.line ↔ ShowsLineFeed i) := by
  obtain ⟨config, json, command⟩ := i
  have hshows : (∀ words, command ≠ .validate words) → ¬ ShowsLineFeed ⟨config, json, command⟩ :=
    fun hne ⟨_, words, hvalidate, _⟩ => hne words hvalidate
  cases command with
  | eval words copy =>
    obtain ⟨a, ha, hline⟩ := Answer.exists_ofExpression json hp (unwords words)
    refine ⟨a, ?_, iff_of_false hline (hshows (by simp))⟩
    simp only [ofInvocation, ha, ofAnswer?]
  | validate words =>
    refine ⟨_, rfl, Answer.newline_mem_ofFeedback_iff.trans ?_⟩
    simp [ShowsLineFeed]
  | clean words =>
    exact ⟨_, rfl, iff_of_false (Expression.newline_notMem_clean _) (hshows (by simp))⟩
  | name n =>
    exact ⟨_, rfl, iff_of_false
      (Answer.newline_notMem_ofOutcome (Outcome.newline_notMem_ofName n)) (hshows (by simp))⟩
  | repl => exact absurd rfl hcommand

theorem output_of_showsLineFeed {i : CommandLine.Invocation} (h : ShowsLineFeed i)
    (settings : Settings) (input : List UInt8) : (ofInvocation settings i input).output =
      "invalid: ".toList ++ (Expression.Fault.invalidCharacter '\n').message ++ ['\n'] := by
  obtain ⟨config, json, command⟩ := i
  obtain ⟨rfl, words, rfl, hforeign⟩ := h
  simp only [ofInvocation, Expression.feedback_of_firstForeign hforeign]
  exact output_ofAnswer _

/-- Every command is answered once, by exactly one line. The one exception is the feedback, as a
line, on a text whose first character that does not belong is a line feed: the sentence about it
takes two lines. -/
theorem command_writes_one_line (settings : Settings) (i : CommandLine.Invocation)
    (hcommand : i.command ≠ .repl) (hp : settings.display.precision.toNat ≤ ValueText.maxPrecision)
    (input : List UInt8) :
    (∃ a, ofInvocation settings i input = ofAnswer a) ∧
      (IsOneLine (ofInvocation settings i input).output ↔ ¬ ShowsLineFeed i) ∧
      (ShowsLineFeed i → (ofInvocation settings i input).output =
        "invalid: ".toList ++ (Expression.Fault.invalidCharacter '\n').message ++ ['\n']) := by
  obtain ⟨a, ha, hline⟩ := exists_ofAnswer hcommand hp input
  refine ⟨⟨a, ha⟩, ?_, fun h => output_of_showsLineFeed h settings input⟩
  rw [ha, output_ofAnswer, isOneLine_append_newline_iff, hline]

/-- Line feeds in an expression are blanks among others. -/
theorem command_writes_one_line_sum :
    let i : CommandLine.Invocation := ⟨none, false, .eval ["2\n+".toList, "3\n".toList] false⟩
    i.command ≠ .repl ∧ ({} : Settings).display.precision.toNat ≤ ValueText.maxPrecision ∧
      IsOneLine (ofInvocation {} i []).output := by
  intro i
  have hcommand : i.command ≠ .repl := by decide
  have hp : ({} : Settings).display.precision.toNat ≤ ValueText.maxPrecision := by decide
  obtain ⟨-, hline, -⟩ := command_writes_one_line {} i hcommand hp []
  exact ⟨hcommand, hp, hline.mpr fun h => by obtain ⟨-, words, hvalidate, -⟩ := h; cases hvalidate⟩

/-- The feedback on two digits with a line feed between them takes two lines. -/
theorem not_forall_isOneLine : ¬ ∀ (settings : Settings) (i : CommandLine.Invocation)
    (input : List UInt8), i.command ≠ .repl →
      settings.display.precision.toNat ≤ ValueText.maxPrecision →
        IsOneLine (ofInvocation settings i input).output := by
  intro h
  let i : CommandLine.Invocation := ⟨none, false, .validate ["2\n3".toList]⟩
  have hcommand : i.command ≠ .repl := by decide
  have hp : ({} : Settings).display.precision.toNat ≤ ValueText.maxPrecision := by decide
  have hforeign : Expression.FirstForeign "2\n3".toList '\n' :=
    Expression.find?_not_isAllowed_eq_some_iff.mp rfl
  have hshows : ShowsLineFeed i := ⟨rfl, ["2\n3".toList], rfl, hforeign⟩
  obtain ⟨a, ha, hline⟩ := exists_ofAnswer hcommand hp []
  have hone := h {} i [] hcommand hp
  rw [ha, output_ofAnswer, isOneLine_append_newline_iff] at hone
  exact hone (hline.mpr hshows)

end Run

end FormDesk
