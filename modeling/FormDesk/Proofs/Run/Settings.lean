import FormDesk.Clipboard
import FormDesk.Proofs.Run.Report

/-! One command under two settings. Whatever it submits is answered alike, but for the values, which
the lines of each run write in its own way; objects hold the value itself and are the same. -/
namespace FormDesk
open Text

/-- The lines that answer an expression under two settings: the texts of its value, or one line when
it has none. -/
inductive Respelled (d d' : DisplaySettings) (s : List Char) : List Char → List Char → Prop
  | value {v : Binary64} {t t' : List Char} : Expression.evaluate s = .ok v →
      ValueText.displayed v d = .ok t → ValueText.displayed v d' = .ok t' →
      Respelled d d' s ("Result: ".toList ++ t) ("Result: ".toList ++ t')
  | alike {line : List Char} : (∀ v, Expression.evaluate s ≠ .ok v) → Respelled d d' s line line

/-- An expression with the lines that answer it under two settings. -/
structure Spelling (d d' : DisplaySettings) where
  expression : List Char
  line : List Char
  line' : List Char
  respelled : Respelled d d' expression line line'

namespace Answer
variable {d d' : DisplaySettings} {s : List Char}

/-- The answers to one expression under two settings. -/
structure Respelled (d d' : DisplaySettings) (s : List Char) (a a' : Answer) : Prop where
  line : FormDesk.Respelled d d' s a.line a'.line
  newline_notMem : '\n' ∉ a.line
  newline_notMem' : '\n' ∉ a'.line
  isAccepted_eq : a.isAccepted = a'.isAccepted

theorem respelled_self {a : Answer} (hs : ∀ v, Expression.evaluate s ≠ .ok v)
    (hline : '\n' ∉ a.line) : Respelled d d' s a a :=
  ⟨.alike hs, hline, hline, rfl⟩

section
variable (hp : d.precision.toNat ≤ ValueText.maxPrecision)
  (hp' : d'.precision.toNat ≤ ValueText.maxPrecision)
include hp hp'

/-- A fault is the same under both settings, and so is a value but for its two texts. -/
theorem exists_ofText_respelled (s : List Char) :
    ∃ c c', Calculation.ofText d (trim s) = .ok c ∧ Calculation.ofText d' (trim s) = .ok c' ∧
      Respelled d d' s (ofCalculation false c) (ofCalculation false c') ∧
      ofCalculation true c = ofCalculation true c' := by
  obtain ⟨c, hc⟩ := Calculation.exists_ofText hp (trim s)
  obtain ⟨c', hc'⟩ := Calculation.exists_ofText hp' (trim s)
  refine ⟨c, c', hc, hc', ?_⟩
  have hline : '\n' ∉ (ofCalculation false c).line :=
    newline_notMem_ofCalculation (Calculation.newline_notMem_line hc)
  have hline' : '\n' ∉ (ofCalculation false c').line :=
    newline_notMem_ofCalculation (Calculation.newline_notMem_line hc')
  rcases Calculation.ofText_eq_ok hc with ⟨fault, hfault, rfl⟩ | ⟨v, t, copied, hv, ht, rfl⟩
  · rcases Calculation.ofText_eq_ok hc' with ⟨fault', hfault', rfl⟩ | ⟨v, -, -, hv, -, -⟩
    · obtain rfl : fault = fault' := Except.error.inj (hfault.symm.trans hfault')
      refine ⟨respelled_self (fun v hv => ?_) hline, rfl⟩
      rw [← Expression.evaluate_trim, hfault] at hv
      cases hv
    · rw [hfault] at hv
      cases hv
  · rcases Calculation.ofText_eq_ok hc' with ⟨fault, hfault, -⟩ | ⟨v', t', copied', hv', ht', rfl⟩
    · rw [hfault] at hv
      cases hv
    · obtain rfl : v = v' := Except.ok.inj (hv.symm.trans hv')
      rw [Expression.evaluate_trim] at hv
      exact ⟨⟨.value hv ht ht', hline, hline', rfl⟩, rfl⟩

theorem exists_ofExpression_respelled (s : List Char) :
    ∃ a a', ofExpression d false s = .ok a ∧ ofExpression d' false s = .ok a' ∧
      Respelled d d' s a a' := by
  by_cases hempty : (trim s).isEmpty = true
  · have hline : '\n' ∉ (ofOutcome false .ofNothing).line := newline_notMem_ofOutcome (by decide)
    simp only [ofExpression, if_pos hempty]
    exact ⟨_, _, rfl, rfl, respelled_self (Expression.evaluate_ne_ok_of_trim hempty) hline⟩
  · obtain ⟨c, c', hc, hc', hrespelled, -⟩ := exists_ofText_respelled hp hp' s
    simp only [ofExpression, if_neg hempty, hc, hc']
    exact ⟨_, _, rfl, rfl, hrespelled⟩

theorem ofExpression_object (s : List Char) :
    ofExpression d true s = ofExpression d' true s := by
  by_cases hempty : (trim s).isEmpty = true
  · simp only [ofExpression, if_pos hempty]
  · obtain ⟨c, c', hc, hc', -, hobject⟩ := exists_ofText_respelled hp hp' s
    simp only [ofExpression, if_neg hempty, hc, hc']
    exact congrArg Except.ok hobject

theorem exists_ofLine_respelled (s : List Char) :
    ∃ a a', ofLine d false s = .ok a ∧ ofLine d' false s = .ok a' ∧ Respelled d d' s a a' := by
  have hvalue : Submission.ofLine s ≠ .expression → ∀ v, Expression.evaluate s ≠ .ok v :=
    fun hne v hv => hne (Submission.ofLine_of_evaluate hv)
  unfold ofLine
  cases hkind : Submission.ofLine s with
  | nothing =>
    rw [hkind] at hvalue
    have hline : '\n' ∉ (ofOutcome false .ofNothing).line := newline_notMem_ofOutcome (by decide)
    exact ⟨_, _, rfl, rfl, respelled_self (hvalue (by decide)) hline⟩
  | expression => exact exists_ofExpression_respelled hp hp' s
  | name =>
    rw [hkind] at hvalue
    have hline : '\n' ∉ (ofName false (Submission.nameOfLine s)).line :=
      newline_notMem_ofOutcome (Outcome.newline_notMem_ofName _)
    exact ⟨_, _, rfl, rfl, respelled_self (hvalue (by decide)) hline⟩

theorem ofLine_object (s : List Char) : ofLine d true s = ofLine d' true s := by
  unfold ofLine
  rw [ofExpression_object hp hp' s]

end

end Answer

/-- The command, with the wish that its result be copied or without. -/
def CommandLine.Command.withCopy (copy : Bool) : CommandLine.Command → CommandLine.Command
  | .eval words _ => .eval words copy
  | command => command

namespace Run
variable {d d' : DisplaySettings}

/-- The texts that a command answers, a line each, when expressions may be among them. The other
commands have nothing evaluated. -/
def expressions? (input : List UInt8) : CommandLine.Command → Option (List (List Char))
  | .eval words _ => some [unwords words]
  | .repl => some (readable (byteLines input))
  | _ => none

/-- Two runs over the same expressions under two settings. -/
inductive Respelled (d d' : DisplaySettings) : List (List Char) → Run → Run → Prop
  | completed : Respelled d d' [] ⟨[], .completed true⟩ ⟨[], .completed true⟩
  | unreadable : Respelled d d' [] ⟨[], .unreadableInput⟩ ⟨[], .unreadableInput⟩
  | cons {s : List Char} {texts : List (List Char)} {a a' : Answer} {run run' : Run} :
      Answer.Respelled d d' s a a' → Respelled d d' texts run run' →
      Respelled d d' (s :: texts) (run.cons a) (run'.cons a')

theorem respelled_ofAnswer {s : List Char} {a a' : Answer} (h : Answer.Respelled d d' s a a') :
    Respelled d d' [s] (ofAnswer a) (ofAnswer a') := by
  rw [ofAnswer_eq_cons a, ofAnswer_eq_cons a']
  exact .cons h .completed

theorem respelled_ofLines (hp : d.precision.toNat ≤ ValueText.maxPrecision)
    (hp' : d'.precision.toNat ≤ ValueText.maxPrecision) (lines : List (List UInt8)) :
    Respelled d d' (readable lines) (ofLines d false lines) (ofLines d' false lines) := by
  induction lines with
  | nil => exact .completed
  | cons bytes lines ih =>
    cases hs : ofUtf8? bytes with
    | none =>
      rw [ofLines_of_unreadable hs, ofLines_of_unreadable hs]
      simp only [readable, hs]
      exact .unreadable
    | some s =>
      obtain ⟨a, a', ha, ha', h⟩ := Answer.exists_ofLine_respelled hp hp' s
      rw [ofLines_cons hs ha, ofLines_cons hs ha']
      simp only [readable, hs]
      exact .cons h ih

theorem ofLines_object (hp : d.precision.toNat ≤ ValueText.maxPrecision)
    (hp' : d'.precision.toNat ≤ ValueText.maxPrecision) (lines : List (List UInt8)) :
    ofLines d true lines = ofLines d' true lines := by
  induction lines with
  | nil => rfl
  | cons bytes lines ih =>
    simp only [ofLines, Answer.ofLine_object hp hp', ih]

section
variable {texts : List (List Char)} {run run' : Run}

theorem Respelled.ending_eq (h : Respelled d d' texts run run') : run.ending = run'.ending := by
  induction h with
  | completed => rfl
  | unreadable => rfl
  | cons hanswer _ ih => simp only [Run.cons, ih, hanswer.isAccepted_eq]

theorem Respelled.exists_spellings (h : Respelled d d' texts run run') :
    ∃ spellings : List (Spelling d d'), spellings.map (·.expression) = texts ∧
      run.output.splitOn '\n' = spellings.map (·.line) ++ [[]] ∧
      run'.output.splitOn '\n' = spellings.map (·.line') ++ [[]] := by
  suffices ∃ spellings : List (Spelling d d'), spellings.map (·.expression) = texts ∧
      run.lines = spellings.map (·.line) ∧ run'.lines = spellings.map (·.line') ∧
      (∀ line ∈ run.lines, '\n' ∉ line) ∧ ∀ line ∈ run'.lines, '\n' ∉ line by
    obtain ⟨spellings, htexts, hlines, hlines', hnewline, hnewline'⟩ := this
    refine ⟨spellings, htexts, ?_, ?_⟩
    · rw [output, splitOn_flatMap_newline hnewline, hlines]
    · rw [output, splitOn_flatMap_newline hnewline', hlines']
  induction h with
  | completed => exact ⟨[], rfl, rfl, rfl, List.forall_mem_nil _, List.forall_mem_nil _⟩
  | unreadable => exact ⟨[], rfl, rfl, rfl, List.forall_mem_nil _, List.forall_mem_nil _⟩
  | @cons s texts a a' run run' hanswer _ ih =>
    obtain ⟨spellings, rfl, hlines, hlines', hnewline, hnewline'⟩ := ih
    refine ⟨⟨s, a.line, a'.line, hanswer.line⟩ :: spellings, rfl, ?_, ?_, ?_, ?_⟩
    · rw [Run.cons, hlines, List.map_cons]
    · rw [Run.cons, hlines', List.map_cons]
    · exact List.forall_mem_cons.mpr ⟨hanswer.newline_notMem, hnewline⟩
    · exact List.forall_mem_cons.mpr ⟨hanswer.newline_notMem', hnewline'⟩

end

section
variable {settings settings' : Settings}

/-- Without expressions nothing is read in the settings. -/
theorem ofInvocation_of_expressions?_eq_none {i : CommandLine.Invocation} {input : List UInt8}
    (h : expressions? input i.command = none) :
    ofInvocation settings i input = ofInvocation settings' i input := by
  obtain ⟨config, json, command⟩ := i
  cases command with
  | eval words copy => cases h
  | repl => cases h
  | validate words => rfl
  | clean words => rfl
  | name n => rfl

variable (hp : settings.display.precision.toNat ≤ ValueText.maxPrecision)
  (hp' : settings'.display.precision.toNat ≤ ValueText.maxPrecision)
include hp hp'

theorem respelled_ofInvocation {config : Option (List Char)} {command : CommandLine.Command}
    {input : List UInt8} {texts : List (List Char)} (h : expressions? input command = some texts) :
    Respelled settings.display settings'.display texts
      (ofInvocation settings ⟨config, false, command⟩ input)
      (ofInvocation settings' ⟨config, false, command⟩ input) := by
  cases command with
  | eval words copy =>
    cases h
    obtain ⟨a, a', ha, ha', hrespelled⟩ :=
      Answer.exists_ofExpression_respelled hp hp' (unwords words)
    simp only [ofInvocation, ha, ha']
    exact respelled_ofAnswer hrespelled
  | repl =>
    cases h
    exact respelled_ofLines hp hp' (byteLines input)
  | validate words => cases h
  | clean words => cases h
  | name n => cases h

theorem ofInvocation_object (config : Option (List Char)) (command : CommandLine.Command)
    (input : List UInt8) : ofInvocation settings ⟨config, true, command⟩ input =
      ofInvocation settings' ⟨config, true, command⟩ input := by
  cases command with
  | eval words copy => simp only [ofInvocation, Answer.ofExpression_object hp hp' (unwords words)]
  | repl => exact ofLines_object hp hp' (byteLines input)
  | validate words => rfl
  | clean words => rfl
  | name n => rfl

end

/-- What is copied, and from which file the settings come, does not show in a run. -/
theorem ofInvocation_withCopy {settings settings' : Settings}
    (h : settings.display = settings'.display) (config config' : Option (List Char)) (json : Bool)
    (copy copy' : Bool) (command : CommandLine.Command) (input : List UInt8) :
    ofInvocation settings ⟨config, json, command.withCopy copy⟩ input =
      ofInvocation settings' ⟨config', json, command.withCopy copy'⟩ input := by
  cases command with
  | eval words _ => simp only [ofInvocation, CommandLine.Command.withCopy, h]
  | repl => simp only [ofInvocation, CommandLine.Command.withCopy, h]
  | validate words => rfl
  | clean words => rfl
  | name n => rfl

theorem expressions?_withCopy (input : List UInt8) (copy : Bool) (command : CommandLine.Command) :
    expressions? input (command.withCopy copy) = expressions? input command := by
  cases command <;> rfl

/-- Settings change how values are written in lines and nothing else: not the ending, not the number
of lines, no object, and no line that does not tell a value. Copying and what comes of it changes
nothing at all. -/
theorem settings_respell_values (clipboard clipboard' : Clipboard) (settings settings' : Settings)
    (config config' : Option (List Char)) (json copy copy' : Bool) (command : CommandLine.Command)
    (input : List UInt8) (hp : settings.display.precision.toNat ≤ ValueText.maxPrecision)
    (hp' : settings'.display.precision.toNat ≤ ValueText.maxPrecision) :
    let run := (Session.ofInvocation clipboard settings
      ⟨config, json, command.withCopy copy⟩ input).run
    let run' := (Session.ofInvocation clipboard' settings'
      ⟨config', json, command.withCopy copy'⟩ input).run
    run.ending = run'.ending ∧
      (run.output.splitOn '\n').length = (run'.output.splitOn '\n').length ∧
      (json = true ∨ expressions? input command = none ∨ settings.display = settings'.display →
        run = run') ∧
      ∀ texts, json = false → expressions? input command = some texts →
        ∃ spellings : List (Spelling settings.display settings'.display),
          spellings.map (·.expression) = texts ∧
          run.output.splitOn '\n' = spellings.map (·.line) ++ [[]] ∧
          run'.output.splitOn '\n' = spellings.map (·.line') ++ [[]] := by
  intro run run'
  -- The copying and the file apart, one command is run under both settings.
  have hrun : run' = ofInvocation settings' ⟨config, json, command.withCopy copy⟩ input :=
    ofInvocation_withCopy rfl config' config json copy' copy command input
  have hsame : json = true ∨ expressions? input command = none ∨
      settings.display = settings'.display → run = run' := by
    rw [hrun]
    rintro (rfl | hnone | hdisplay)
    · exact ofInvocation_object hp hp' config _ input
    · refine ofInvocation_of_expressions?_eq_none ?_
      rwa [expressions?_withCopy]
    · exact ofInvocation_withCopy hdisplay config config json copy copy command input
  have hrespelled : ∀ texts, json = false → expressions? input command = some texts →
      Respelled settings.display settings'.display texts run run' := by
    rintro texts rfl htexts
    rw [hrun]
    refine respelled_ofInvocation hp hp' ?_
    rwa [expressions?_withCopy]
  have hspellings := fun texts hjson htexts => (hrespelled texts hjson htexts).exists_spellings
  by_cases hplain : json = true ∨ expressions? input command = none
  · have heq : run = run' := hsame (hplain.imp_right Or.inl)
    exact ⟨by rw [heq], by rw [heq], hsame, hspellings⟩
  · rw [not_or, Bool.not_eq_true, ← ne_eq, Option.ne_none_iff_exists'] at hplain
    obtain ⟨hjson, texts, htexts⟩ := hplain
    obtain ⟨spellings, -, hlines, hlines'⟩ := hspellings texts hjson htexts
    refine ⟨(hrespelled texts hjson htexts).ending_eq, ?_, hsame, hspellings⟩
    rw [hlines, hlines']
    simp only [List.length_append, List.length_map]

/-- A sum in thousands under two settings, and a clipboard that takes nothing. -/
theorem settings_respell_values_thousands :
    let settings' : Settings := ⟨{ thousandsSeparators := false, precision := 2 }, ⟨true⟩⟩
    let command : CommandLine.Command := .eval ["1000 + 0.125".toList] false
    let run := (Session.ofInvocation (fun _ => .ok ()) {}
      ⟨none, false, command.withCopy false⟩ []).run
    let run' := (Session.ofInvocation .missing settings'
      ⟨none, false, command.withCopy true⟩ []).run
    ({} : Settings).display.precision.toNat ≤ ValueText.maxPrecision ∧
      settings'.display.precision.toNat ≤ ValueText.maxPrecision ∧
      run.output = "Result: 1,000.125\n".toList ∧ run'.output = "Result: 1000.12\n".toList ∧
      run.ending = run'.ending ∧ ∃ spellings : List (Spelling {} settings'.display),
        spellings.map (·.expression) = ["1000 + 0.125".toList] ∧
        run.output.splitOn '\n' = spellings.map (·.line) ++ [[]] ∧
        run'.output.splitOn '\n' = spellings.map (·.line') ++ [[]] := by
  intro settings' command run run'
  obtain ⟨hending, -, -, hspellings⟩ := settings_respell_values (fun _ => .ok ()) .missing {}
    settings' none none false false true command [] (by decide) (by decide)
  exact ⟨by decide, by decide, by decide +kernel, by decide +kernel, hending,
    hspellings _ rfl rfl⟩

end Run

end FormDesk
