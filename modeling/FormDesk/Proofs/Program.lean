import FormDesk.Program
import FormDesk.Proofs.Run

/-! The exits of the program. Usage problems come first, then a settings file that is there but
supplies nothing, and only then a run, whose exit tells whether everything was accepted. -/
namespace FormDesk
open Text

/-- What is found in the place of the settings file supplies settings: the defaults when nothing is
there, and else the settings of its text. -/
inductive FileState.Supplies : FileState → Settings → Prop
  | defaults : Supplies .absent {}
  | file {bytes : List UInt8} {s : List Char} {settings : Settings} : ofUtf8? bytes = some s →
      Settings.ofToml? s = some settings → Supplies (.file bytes) settings

/-- There is something in the place of the settings file, but it supplies no settings. -/
inductive FileState.IsBroken : FileState → Prop
  | unreadable : IsBroken .unreadable
  | notText {bytes : List UInt8} : ofUtf8? bytes = none → IsBroken (.file bytes)
  | malformed {bytes : List UInt8} {s : List Char} : ofUtf8? bytes = some s →
      Settings.ofToml? s = none → IsBroken (.file bytes)

namespace Settings
variable {state : FileState}

theorem load_file (bytes : List UInt8) : load (.file bytes) = match ofUtf8? bytes with
    | none => .error .unreadable
    | some s => match ofToml? s with
      | none => .error .malformed
      | some settings => .ok settings := rfl

theorem load_of_supplies {settings : Settings} (h : state.Supplies settings) :
    load state = .ok settings := by
  cases h with
  | defaults => rfl
  | file hs hsettings => simp only [load_file, hs, hsettings]

theorem load_of_isBroken (h : state.IsBroken) : ∃ fault, load state = .error fault := by
  cases h with
  | unreadable => exact ⟨_, rfl⟩
  | notText hs =>
    refine ⟨.unreadable, ?_⟩
    simp only [load_file, hs]
  | malformed hs hsettings =>
    refine ⟨.malformed, ?_⟩
    simp only [load_file, hs, hsettings]

theorem isBroken_or_supplies (state : FileState) :
    state.IsBroken ∨ ∃ settings, state.Supplies settings := by
  cases state with
  | absent => exact Or.inr ⟨_, .defaults⟩
  | unreadable => exact Or.inl .unreadable
  | file bytes =>
    cases hs : ofUtf8? bytes with
    | none => exact Or.inl (.notText hs)
    | some s =>
      cases hsettings : ofToml? s with
      | none => exact Or.inl (.malformed hs hsettings)
      | some settings => exact Or.inr ⟨settings, .file hs hsettings⟩

end Settings

namespace Ending

theorem and_eq_completed_true_iff {e : Ending} {x : Bool} :
    e.and x = .completed true ↔ x = true ∧ e = .completed true := by
  cases e with
  | completed allAccepted => simp [Ending.and]
  | unreadableInput => simp [Ending.and]
  | aborted reason => simp [Ending.and]

theorem and_aborted (reason : PrecisionTooLarge) (x : Bool) :
    Ending.and x (.aborted reason) = .aborted reason := rfl

end Ending

namespace Run

/-- Every submission of a command is accepted, and an input can be read to its end. -/
def Accepts (input : List UInt8) : CommandLine.Command → Prop
  | .eval words _ => ∃ v, Expression.evaluate (unwords words) = .ok v
  | .validate words => Expression.check (unwords words) = .ok ()
  | .clean _ => True
  | .name n => ∃ t, n.format = .ok t
  | .repl => ∃ texts, ReadAs (byteLines input) texts ∧
      ∀ s ∈ texts, (∃ v, Expression.evaluate s = .ok v) ∨ Submission.IsWrittenName s

theorem ReadAs.cons_iff {bytes : List UInt8} {s : List Char} (hs : ofUtf8? bytes = some s)
    {lines : List (List UInt8)} {texts : List (List Char)} :
    ReadAs (bytes :: lines) texts ↔ ∃ rest, texts = s :: rest ∧ ReadAs lines rest := by
  cases texts with
  | nil => simp [ReadAs]
  | cons t texts => simp [ReadAs, hs, eq_comm]

/-- A dialogue that is not aborted succeeds when its input can be read and every line is accepted. -/
theorem ending_ofLines_iff {settings : DisplaySettings} {json : Bool} {lines : List (List UInt8)}
    (h : ∀ reason, (ofLines settings json lines).ending ≠ .aborted reason) :
    (ofLines settings json lines).ending = .completed true ↔ ∃ texts, ReadAs lines texts ∧
      ∀ s ∈ texts, (∃ v, Expression.evaluate s = .ok v) ∨ Submission.IsWrittenName s := by
  induction lines with
  | nil => exact iff_of_true rfl ⟨[], rfl, nofun⟩
  | cons bytes lines ih =>
    cases hs : ofUtf8? bytes with
    | none =>
      rw [ofLines_of_unreadable hs]
      refine iff_of_false nofun ?_
      rintro ⟨texts, hread, -⟩
      obtain ⟨s, rest, -, hsome, -⟩ := List.map_eq_cons_iff.mp hread.symm
      rw [hs] at hsome
      cases hsome
    | some s =>
      cases ha : Answer.ofLine settings json s with
      | error e =>
        refine absurd ?_ (h e)
        simp only [ofLines, hs, ha]
      | ok a =>
        rw [ofLines_cons hs ha] at h ⊢
        have hrest : ∀ reason, (ofLines settings json lines).ending ≠ .aborted reason := by
          intro reason hreason
          refine h reason ?_
          rw [cons, hreason, Ending.and_aborted]
        simp only [cons, Ending.and_eq_completed_true_iff, Answer.isAccepted_ofLine ha, ih hrest,
          ReadAs.cons_iff hs]
        constructor
        · rintro ⟨haccepted, texts, hread, hall⟩
          exact ⟨s :: texts, ⟨texts, rfl, hread⟩, List.forall_mem_cons.mpr ⟨haccepted, hall⟩⟩
        · rintro ⟨-, ⟨texts, rfl, hread⟩, hall⟩
          obtain ⟨haccepted, hall⟩ := List.forall_mem_cons.mp hall
          exact ⟨haccepted, texts, hread, hall⟩

theorem ending_ofAnswer_iff {a : Answer} :
    (ofAnswer a).ending = .completed true ↔ a.isAccepted = true := by
  simp [ofAnswer]

/-- A run that is not aborted succeeds when everything is accepted. -/
theorem ending_iff_accepts {settings : Settings} {i : CommandLine.Invocation} {input : List UInt8}
    (h : ∀ reason, (ofInvocation settings i input).ending ≠ .aborted reason) :
    (ofInvocation settings i input).ending = .completed true ↔ Accepts input i.command := by
  obtain ⟨config, json, command⟩ := i
  cases command with
  | eval words copy =>
    simp only [ofInvocation] at h ⊢
    cases ha : Answer.ofExpression settings.display json (unwords words) with
    | error e =>
      rw [ha] at h
      exact absurd rfl (h e)
    | ok a => exact ending_ofAnswer_iff.trans (Answer.isAccepted_ofExpression ha)
  | validate words =>
    refine ending_ofAnswer_iff.trans ?_
    simp only [Answer.ofFeedback, Expression.feedback, Accepts]
    cases Expression.check (unwords words) with
    | error fault => exact iff_of_false Bool.false_ne_true (by simp)
    | ok u => exact iff_of_true rfl rfl
  | clean words => exact iff_of_true rfl trivial
  | name n => exact ending_ofAnswer_iff.trans Outcome.isSuccess_ofName_iff
  | repl => exact ending_ofLines_iff h

end Run

namespace Exit

theorem output_ofSession (s : Session) : (ofSession s).output = s.run.output := by
  unfold ofSession ofRun
  cases s.run.ending <;> rfl

theorem status_ofSession_eq_zero_iff (s : Session) :
    (ofSession s).status = 0 ↔ s.run.ending = .completed true := by
  unfold ofSession ofRun
  cases s.run.ending with
  | completed allAccepted => cases allAccepted <;> simp
  | unreadableInput => simp [ofFailure]
  | aborted reason => simp

theorem status_ofSession_of_ne {s : Session} (hne : s.run.ending ≠ .completed true)
    (h : ∀ reason, s.run.ending ≠ .aborted reason) : (ofSession s).status = 1 := by
  unfold ofSession ofRun
  cases hending : s.run.ending with
  | completed allAccepted => cases allAccepted with
    | false => rfl
    | true => exact absurd hending hne
  | unreadableInput => rfl
  | aborted reason => exact absurd hending (h reason)

end Exit

section
variable {clipboard : Clipboard} {lookup : SettingsLookup} {args : List (List Char)}
  {input : List UInt8} {i : CommandLine.Invocation}

theorem runProgramWith_of_usage {usage : CommandLine.Usage}
    (h : CommandLine.read args = .error usage) :
    runProgramWith clipboard lookup args input = .ofUsage usage := by
  simp only [runProgramWith, h]

theorem runProgramWith_of_fault {fault : SettingsFault} (h : CommandLine.read args = .ok i)
    (hfault : Settings.load (lookup i.config).2 = .error fault) :
    runProgramWith clipboard lookup args input =
      .ofFailure [] (fault.message (lookup i.config).1) := by
  simp only [runProgramWith, h, hfault]

theorem runProgramWith_of_settings {settings : Settings} (h : CommandLine.read args = .ok i)
    (hsettings : (lookup i.config).2.Supplies settings) :
    runProgramWith clipboard lookup args input =
      .ofSession (Session.ofInvocation clipboard settings i input) := by
  simp only [runProgramWith, h, Settings.load_of_supplies hsettings]

end

/-- Arguments that are not understood end the program before the settings file is looked at: with
status 2 and no output, or with status 0 after a request for information. A settings file that is
there but supplies nothing ends it before anything is submitted, with status 1 and an error. Else
the output is that of the run with the settings that are supplied, and the status is 0 when the run
was completed with everything accepted. -/
theorem exit_of_runProgramWith (clipboard : Clipboard) (lookup : SettingsLookup)
    (args : List (List Char)) (input : List UInt8) :
    let exit := runProgramWith clipboard lookup args input
    (∀ usage, CommandLine.read args = .error usage →
      (∀ clipboard' lookup' input', runProgramWith clipboard' lookup' args input' = exit) ∧
      ((usage = .help ∨ usage = .version) → exit.status = 0) ∧
      (¬ (usage = .help ∨ usage = .version) → exit.status = 2 ∧ exit.output = [])) ∧
    ∀ i, CommandLine.read args = .ok i →
      let state := (lookup i.config).2
      (state.IsBroken → exit.status = 1 ∧ exit.output = [] ∧
        (∃ message, exit.errors = "Error: ".toList ++ message ++ ['\n']) ∧
        ∀ clipboard' args' i' input', CommandLine.read args' = .ok i' → i'.config = i.config →
          runProgramWith clipboard' lookup args' input' = exit) ∧
      (∀ settings, state.Supplies settings →
        let run := Run.ofInvocation settings i input
        (∀ reason, run.ending ≠ .aborted reason) →
          exit.output = run.output ∧
          (exit.status = 0 ↔ run.ending = .completed true) ∧
          (exit.status = 0 ↔ Run.Accepts input i.command) ∧
          (exit.status ≠ 0 → exit.status = 1)) ∧
      (state.IsBroken ∨ ∃ settings, state.Supplies settings) := by
  intro exit
  refine ⟨fun usage husage => ?_, fun i hi => ⟨fun hbroken => ?_, ?_, ?_⟩⟩
  · have hexit : exit = .ofUsage usage := runProgramWith_of_usage husage
    refine ⟨fun _ _ _ => ?_, fun hinfo => ?_, fun hproblem => ?_⟩
    · rw [hexit, runProgramWith_of_usage husage]
    · rw [hexit, Exit.ofUsage, if_pos hinfo]
    · rw [hexit, Exit.ofUsage, if_neg hproblem]
      exact ⟨rfl, rfl⟩
  · obtain ⟨fault, hfault⟩ := Settings.load_of_isBroken hbroken
    have hexit : exit = .ofFailure [] (fault.message (lookup i.config).1) :=
      runProgramWith_of_fault hi hfault
    refine ⟨by rw [hexit]; rfl, by rw [hexit]; rfl, ⟨_, by rw [hexit]; rfl⟩, ?_⟩
    intro clipboard' args' i' input' hi' hconfig
    rw [hexit, ← hconfig]
    rw [← hconfig] at hfault
    exact runProgramWith_of_fault hi' hfault
  · intro settings hsettings run hrun
    have hexit : exit = .ofSession (Session.ofInvocation clipboard settings i input) :=
      runProgramWith_of_settings hi hsettings
    have hstatus : exit.status = 0 ↔ run.ending = .completed true := by
      rw [hexit]
      exact Exit.status_ofSession_eq_zero_iff _
    refine ⟨?_, hstatus, hstatus.trans (Run.ending_iff_accepts hrun), fun hne => ?_⟩
    · rw [hexit]
      exact Exit.output_ofSession _
    · rw [hexit]
      exact Exit.status_ofSession_of_ne (fun hending => hne (hstatus.mpr hending)) hrun
  · exact Settings.isBroken_or_supplies _

/-- An option given twice, a directory in the place of the settings file, and a dialogue without
settings of which one line is half a sum. -/
theorem exit_of_runProgramWith_three :
    let lookup : SettingsLookup := fun config =>
      match config with
      | some path => (path, .unreadable)
      | none => ([], .absent)
    let input := "1 + 2\n3 +".toList.utf8Encode.data.toList
    let exit := fun words : List String =>
      runProgramWith .missing lookup (words.map String.toList) input
    ((exit ["eval", "--copy", "-c"]).status = 2 ∧ (exit ["eval", "--copy", "-c"]).output = []) ∧
      ((exit ["repl", "--config", "/etc"]).status = 1 ∧
        (exit ["repl", "--config", "/etc"]).output = []) ∧
      (exit ["repl"]).output = "Result: 3\n".toList ++
        "Error: expression cannot start or end with an operator\n".toList ∧
      (exit ["repl"]).status = 1 := by
  intro lookup input exit
  let contract := fun words : List String =>
    exit_of_runProgramWith .missing lookup (words.map String.toList) input
  let run := Run.ofInvocation {} ⟨none, false, .repl⟩ input
  have hrepeated : CommandLine.read (["eval", "--copy", "-c"].map String.toList) =
      .error .repeated := by decide +kernel
  have hdirectory : CommandLine.read (["repl", "--config", "/etc"].map String.toList) =
      .ok ⟨some "/etc".toList, false, .repl⟩ := by decide +kernel
  have hrepl : CommandLine.read (["repl"].map String.toList) = .ok ⟨none, false, .repl⟩ := by
    decide +kernel
  have hending : run.ending = .completed false := by decide +kernel
  obtain ⟨-, -, hproblem⟩ := (contract _).1 _ hrepeated
  obtain ⟨hstatus, houtput, -⟩ := ((contract _).2 _ hdirectory).1 .unreadable
  obtain ⟨hrun, hzero, -, hone⟩ := ((contract _).2 _ hrepl).2.1 {} .defaults
    (fun reason hreason => by rw [hending] at hreason; cases hreason)
  refine ⟨hproblem (by decide), ⟨hstatus, houtput⟩, hrun.trans (by decide +kernel), hone ?_⟩
  rw [ne_eq, hzero, hending]
  decide

end FormDesk
