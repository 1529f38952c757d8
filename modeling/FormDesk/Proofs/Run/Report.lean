import FormDesk.Proofs.Json.Reader
import FormDesk.Proofs.Run

/-! A run that writes lines beside the run that writes objects. They answer the same submissions in
the same way, and an object holds what its line tells. -/
namespace FormDesk
open Text

/-- The members of an object hold what a line tells about a submission, with the message of an error
and the text of a name as they are. -/
structure Tells (kind : Submission) (line : List Char) (fields : Json.Fields) : Prop where
  result_or_error : "Result: ".toList <+: line ∨ "Error: ".toList <+: line
  success_iff : fields.lookup "success".toList = some (some (.boolean true)) ↔
    "Result: ".toList <+: line
  failure_iff : fields.lookup "success".toList = some (some (.boolean false)) ↔
    "Error: ".toList <+: line
  error_eq : ∀ message, line = "Error: ".toList ++ message →
    fields.lookup "error".toList = some (some (.string message))
  result_eq : kind = .name → ∀ text, line = "Result: ".toList ++ text →
    fields.lookup "result".toList = some (some (.string text))

/-- A submission with its line and its object. -/
structure Report where
  kind : Submission
  line : List Char
  object : List Char
  fields : Json.Fields
  reads : Json.fields? object = some fields
  tells : Tells kind line fields

def Report.isError (r : Report) : Bool := "Error: ".toList.isPrefixOf r.line

section
variable {kind : Submission} {text message : List Char} {fields : Json.Fields}

theorem tells_result (hsuccess : fields.lookup "success".toList = some (some (.boolean true)))
    (hresult : kind = .name → fields.lookup "result".toList = some (some (.string text))) :
    Tells kind ("Result: ".toList ++ text) fields where
  result_or_error := Or.inl (List.prefix_append _ _)
  success_iff := iff_of_true hsuccess (List.prefix_append _ _)
  failure_iff := by
    refine iff_of_false ?_ fun h => ?_
    · rw [hsuccess]
      decide
    · cases (List.cons_prefix_cons.mp h).1
  error_eq := fun message h => by cases h
  result_eq := fun hkind text' h => by rw [hresult hkind, List.append_cancel_left h]

theorem tells_error (hsuccess : fields.lookup "success".toList = some (some (.boolean false)))
    (herror : fields.lookup "error".toList = some (some (.string message))) :
    Tells kind ("Error: ".toList ++ message) fields where
  result_or_error := Or.inr (List.prefix_append _ _)
  success_iff := by
    refine iff_of_false ?_ fun h => ?_
    · rw [hsuccess]
      decide
    · cases (List.cons_prefix_cons.mp h).1
  failure_iff := iff_of_true hsuccess (List.prefix_append _ _)
  error_eq := fun message' h => by rw [herror, List.append_cancel_left h]
  result_eq := fun _ text h => by cases h

end

namespace Answer
variable {settings : DisplaySettings} {kind : Submission}

/-- The answers in lines and in objects to one submission. -/
structure Parallel (kind : Submission) (a b : Answer) : Prop where
  exists_object : ∃ o : Json.Object, b.line = o.text ∧ Tells kind a.line o.read
  newline_notMem : '\n' ∉ a.line
  isAccepted_eq : a.isAccepted = b.isAccepted
  isAccepted_eq_not : a.isAccepted = !"Error: ".toList.isPrefixOf a.line

theorem Parallel.exists_report {a b : Answer} (h : Parallel kind a b) :
    ∃ r : Report, r.kind = kind ∧ r.line = a.line ∧ r.object = b.line := by
  obtain ⟨o, hline, htells⟩ := h.exists_object
  exact ⟨⟨kind, a.line, b.line, o.read, by rw [hline, Json.fields?_text], htells⟩, rfl, rfl, rfl⟩

theorem isPrefixOf_result (text : List Char) :
    "Error: ".toList.isPrefixOf ("Result: ".toList ++ text) = false := rfl

theorem isPrefixOf_error (text : List Char) :
    "Error: ".toList.isPrefixOf ("Error: ".toList ++ text) = true :=
  List.isPrefixOf_iff_prefix.mpr (List.prefix_append _ _)

theorem parallel_ofOutcome (kind : Submission) {o : Outcome} (h : '\n' ∉ o.text) :
    Parallel kind (ofOutcome false o) (ofOutcome true o) := by
  have hline : '\n' ∉ (ofOutcome false o).line := newline_notMem_ofOutcome h
  cases o with
  | success text copied =>
    refine ⟨⟨_, rfl, tells_result rfl fun _ => rfl⟩, hline, rfl, ?_⟩
    exact (congrArg (!·) (isPrefixOf_result text)).symm
  | failure message =>
    refine ⟨⟨_, rfl, tells_error rfl rfl⟩, hline, rfl, ?_⟩
    exact (congrArg (!·) (isPrefixOf_error message)).symm

theorem parallel_ofCalculation (hkind : kind ≠ .name) {c : Calculation} (h : '\n' ∉ c.line) :
    Parallel kind (ofCalculation false c) (ofCalculation true c) := by
  have hline : '\n' ∉ (ofCalculation false c).line := newline_notMem_ofCalculation h
  cases c with
  | computed expression value displayed copied =>
    refine ⟨⟨_, rfl, tells_result rfl fun hname => absurd hname hkind⟩, hline, rfl, ?_⟩
    exact (congrArg (!·) (isPrefixOf_result displayed)).symm
  | refused expression fault =>
    refine ⟨⟨_, rfl, tells_error rfl rfl⟩, hline, rfl, ?_⟩
    exact (congrArg (!·) (isPrefixOf_error fault.message)).symm

theorem exists_parallel_ofExpression (hkind : kind ≠ .name)
    (hp : settings.precision.toNat ≤ ValueText.maxPrecision) (s : List Char) :
    ∃ a b, ofExpression settings false s = .ok a ∧ ofExpression settings true s = .ok b ∧
      Parallel kind a b := by
  by_cases hempty : (trim s).isEmpty = true
  · simp only [ofExpression, if_pos hempty]
    exact ⟨_, _, rfl, rfl, parallel_ofOutcome kind (by decide)⟩
  · obtain ⟨c, hc⟩ := Calculation.exists_ofText hp (trim s)
    simp only [ofExpression, if_neg hempty, hc]
    exact ⟨_, _, rfl, rfl, parallel_ofCalculation hkind (Calculation.newline_notMem_line hc)⟩

theorem exists_parallel_ofLine (hp : settings.precision.toNat ≤ ValueText.maxPrecision)
    (s : List Char) : ∃ a b, ofLine settings false s = .ok a ∧ ofLine settings true s = .ok b ∧
      Parallel (Submission.ofLine s) a b := by
  unfold ofLine
  cases Submission.ofLine s with
  | nothing => exact ⟨_, _, rfl, rfl, parallel_ofOutcome _ (by decide)⟩
  | expression => exact exists_parallel_ofExpression (by decide) hp s
  | name => exact ⟨_, _, rfl, rfl, parallel_ofOutcome _ (Outcome.newline_notMem_ofName _)⟩

end Answer

namespace Run
variable {settings : DisplaySettings}

/-- The texts of the lines before the first that cannot be read. -/
def readable : List (List UInt8) → List (List Char)
  | [] => []
  | bytes :: rest => match ofUtf8? bytes with
    | none => []
    | some s => s :: readable rest

/-- What a command submits, in order, and whether the input can be read to its end. Some commands
submit nothing. -/
def submissions? (input : List UInt8) : CommandLine.Command → Option (List Submission × Bool)
  | .eval _ _ => some ([.expression], true)
  | .name _ => some ([.name], true)
  | .repl => some ((readable (byteLines input)).map Submission.ofLine,
      (byteLines input).all fun line => (ofUtf8? line).isSome)
  | .validate _ => none
  | .clean _ => none

/-- The runs in lines and in objects over the same submissions. -/
inductive Parallel : List Submission → Bool → Run → Run → Prop
  | completed : Parallel [] true ⟨[], .completed true⟩ ⟨[], .completed true⟩
  | unreadable : Parallel [] false ⟨[], .unreadableInput⟩ ⟨[], .unreadableInput⟩
  | cons {kind : Submission} {kinds : List Submission} {isRead : Bool} {a b : Answer}
      {text objects : Run} : Answer.Parallel kind a b → Parallel kinds isRead text objects →
      Parallel (kind :: kinds) isRead (text.cons a) (objects.cons b)

theorem parallel_ofAnswer {kind : Submission} {a b : Answer} (h : Answer.Parallel kind a b) :
    Parallel [kind] true (ofAnswer a) (ofAnswer b) := by
  rw [ofAnswer_eq_cons a, ofAnswer_eq_cons b]
  exact .cons h .completed

theorem parallel_ofLines (hp : settings.precision.toNat ≤ ValueText.maxPrecision)
    (lines : List (List UInt8)) : Parallel ((readable lines).map Submission.ofLine)
      (lines.all fun line => (ofUtf8? line).isSome)
      (ofLines settings false lines) (ofLines settings true lines) := by
  induction lines with
  | nil => exact .completed
  | cons bytes lines ih =>
    cases hs : ofUtf8? bytes with
    | none =>
      rw [ofLines_of_unreadable hs, ofLines_of_unreadable hs]
      simp only [readable, hs, List.all_cons]
      exact .unreadable
    | some s =>
      obtain ⟨a, b, ha, hb, h⟩ := Answer.exists_parallel_ofLine hp s
      rw [ofLines_cons hs ha, ofLines_cons hs hb]
      simp only [readable, hs, List.all_cons, Option.isSome_some, Bool.true_and, List.map_cons]
      exact .cons h ih

section
variable {kinds : List Submission} {isRead : Bool} {text objects : Run}

theorem Parallel.newline_notMem (h : Parallel kinds isRead text objects) :
    (∀ line ∈ text.lines, '\n' ∉ line) ∧ ∀ line ∈ objects.lines, '\n' ∉ line := by
  induction h with
  | completed => exact ⟨nofun, nofun⟩
  | unreadable => exact ⟨nofun, nofun⟩
  | cons hanswer _ ih =>
    obtain ⟨o, hobject, -⟩ := hanswer.exists_object
    exact ⟨List.forall_mem_cons.mpr ⟨hanswer.newline_notMem, ih.1⟩,
      List.forall_mem_cons.mpr ⟨hobject ▸ Json.newline_notMem_text o, ih.2⟩⟩

theorem Parallel.splitOn_output (h : Parallel kinds isRead text objects) :
    text.output.splitOn '\n' = text.lines ++ [[]] ∧
      objects.output.splitOn '\n' = objects.lines ++ [[]] :=
  ⟨splitOn_flatMap_newline h.newline_notMem.1, splitOn_flatMap_newline h.newline_notMem.2⟩

theorem Parallel.exists_reports (h : Parallel kinds isRead text objects) :
    ∃ reports : List Report,
      reports.map (·.kind) = kinds ∧ text.lines = reports.map (·.line) ∧
        objects.lines = reports.map (·.object) ∧ text.ending = objects.ending ∧
        text.ending = if isRead then .completed (reports.all (!·.isError)) else .unreadableInput := by
  induction h with
  | completed => exact ⟨[], rfl, rfl, rfl, rfl, rfl⟩
  | unreadable => exact ⟨[], rfl, rfl, rfl, rfl, rfl⟩
  | @cons kind kinds isRead a b text objects hanswer _ ih =>
    obtain ⟨reports, rfl, htext, hobjects, hending, hall⟩ := ih
    obtain ⟨r, rfl, hline, hobject⟩ := hanswer.exists_report
    have haccepted : a.isAccepted = !r.isError := by
      rw [hanswer.isAccepted_eq_not, ← hline, Report.isError]
    refine ⟨r :: reports, rfl, ?_, ?_, ?_, ?_⟩
    · rw [Run.cons, htext, List.map_cons, hline]
    · rw [Run.cons, hobjects, List.map_cons, hobject]
    · rw [Run.cons, Run.cons, hending, hanswer.isAccepted_eq]
    · rw [Run.cons, hall, haccepted]
      cases isRead with
      | true => rfl
      | false => rfl

end

theorem parallel_ofInvocation {settings : Settings} {config : Option (List Char)}
    {command : CommandLine.Command} {input : List UInt8} {kinds : List Submission} {isRead : Bool}
    (h : submissions? input command = some (kinds, isRead))
    (hp : settings.display.precision.toNat ≤ ValueText.maxPrecision) :
    Parallel kinds isRead (ofInvocation settings ⟨config, false, command⟩ input)
      (ofInvocation settings ⟨config, true, command⟩ input) := by
  cases command with
  | eval words copy =>
    cases h
    have hkind : Submission.expression ≠ .name := by decide
    obtain ⟨a, b, ha, hb, hparallel⟩ :=
      Answer.exists_parallel_ofExpression hkind hp (unwords words)
    simp only [ofInvocation, ha, hb]
    exact parallel_ofAnswer hparallel
  | name n =>
    cases h
    exact parallel_ofAnswer (Answer.parallel_ofOutcome .name (Outcome.newline_notMem_ofName n))
  | repl =>
    cases h
    exact parallel_ofLines hp (byteLines input)
  | validate words => cases h
  | clean words => cases h

/-- Lines and objects tell the same, one for every submission, and end alike: a run that reads its
input to the end succeeds when no line reports an error. -/
theorem objects_tell_as_lines (settings : Settings) (config : Option (List Char))
    {command : CommandLine.Command} {input : List UInt8} {kinds : List Submission} {isRead : Bool}
    (h : submissions? input command = some (kinds, isRead))
    (hp : settings.display.precision.toNat ≤ ValueText.maxPrecision) :
    let text := ofInvocation settings ⟨config, false, command⟩ input
    let objects := ofInvocation settings ⟨config, true, command⟩ input
    ∃ reports : List Report, reports.map (·.kind) = kinds ∧
      text.output.splitOn '\n' = reports.map (·.line) ++ [[]] ∧
      objects.output.splitOn '\n' = reports.map (·.object) ++ [[]] ∧
      text.ending = objects.ending ∧
      text.ending = if isRead then .completed (reports.all (!·.isError))
        else .unreadableInput := by
  intro text objects
  have hparallel : Parallel kinds isRead text objects := parallel_ofInvocation h hp
  obtain ⟨reports, hkinds, htext, hobjects, hending, hall⟩ := hparallel.exists_reports
  obtain ⟨hlines, hlines'⟩ := hparallel.splitOn_output
  rw [hlines, hlines', htext, hobjects]
  exact ⟨reports, hkinds, rfl, rfl, hending, hall⟩

/-- A sum, half a sum and a name, and then a byte that is no text. -/
theorem objects_tell_as_lines_unreadable :
    let input := "1 + 2".toList.utf8Encode.data.toList ++ lineFeed ::
      ("2 +".toList.utf8Encode.data.toList ++ lineFeed ::
        ("petrov ivan".toList.utf8Encode.data.toList ++ [lineFeed, 255]))
    let text := ofInvocation {} ⟨none, false, .repl⟩ input
    let objects := ofInvocation {} ⟨none, true, .repl⟩ input
    submissions? input .repl = some ([.expression, .expression, .name], false) ∧
      ({} : Settings).display.precision.toNat ≤ ValueText.maxPrecision ∧
      ∃ reports : List Report, reports.map (·.kind) = [.expression, .expression, .name] ∧
        text.output.splitOn '\n' = reports.map (·.line) ++ [[]] ∧
        objects.output.splitOn '\n' = reports.map (·.object) ++ [[]] ∧
        text.ending = objects.ending ∧ text.ending = .unreadableInput := by
  intro input text objects
  have hkinds : submissions? input .repl = some ([.expression, .expression, .name], false) := by
    decide +kernel
  exact ⟨hkinds, by decide, objects_tell_as_lines {} none hkinds (by decide)⟩

end Run

end FormDesk
