import FormDesk.Proofs.Answer
import FormDesk.Proofs.Text.Utf8

/-! A dialogue answers its input line by line. Each answer depends on its line alone, and it is
written before the next line is read. -/
namespace FormDesk
open Text

@[simp] theorem Ending.and_true (e : Ending) : e.and true = e := by
  cases e with
  | completed allAccepted => rw [Ending.and, Bool.true_and]
  | unreadableInput => rfl
  | aborted reason => rfl

theorem Ending.and_and (e : Ending) (x y : Bool) : (e.and x).and y = e.and (y && x) := by
  cases e with
  | completed allAccepted => simp only [Ending.and, Bool.and_assoc]
  | unreadableInput => rfl
  | aborted reason => rfl

namespace Run
variable {settings : DisplaySettings} {json : Bool}

/-- The lines are read as the texts. -/
def ReadAs (lines : List (List UInt8)) (texts : List (List Char)) : Prop :=
  lines.map ofUtf8? = texts.map some

theorem ofLines_cons {bytes : List UInt8} {s : List Char} {a : Answer}
    (hs : ofUtf8? bytes = some s) (ha : Answer.ofLine settings json s = .ok a)
    (rest : List (List UInt8)) :
    ofLines settings json (bytes :: rest) = (ofLines settings json rest).cons a := by
  simp only [ofLines, hs, ha]

theorem ofLines_of_unreadable {bad : List UInt8} (hbad : ofUtf8? bad = none)
    (rest : List (List UInt8)) :
    ofLines settings json (bad :: rest) = ⟨[], .unreadableInput⟩ := by
  simp only [ofLines, hbad]

/-- A single answer is a run that ends with it. -/
theorem ofAnswer_eq_cons (a : Answer) : ofAnswer a = cons a ⟨[], .completed true⟩ := by
  simp only [ofAnswer, cons, Ending.and, Bool.and_true]

section
variable {answer : List Char → Answer}
  (hanswer : ∀ s, Answer.ofLine settings json s = .ok (answer s))
  {lines : List (List UInt8)} {texts : List (List Char)} (h : ReadAs lines texts)
include hanswer h

/-- Lines that can be read are answered one after the other, before all that follows. -/
theorem output_ofLines_append (rest : List (List UInt8)) :
    (ofLines settings json (lines ++ rest)).output =
      texts.flatMap (fun s => (answer s).line ++ ['\n']) ++ (ofLines settings json rest).output := by
  induction texts generalizing lines with
  | nil =>
    rw [List.map_eq_nil_iff.mp h]
    rfl
  | cons s texts ih =>
    obtain ⟨bytes, lines, rfl, hs, hlines⟩ := List.map_eq_cons_iff.mp h
    rw [List.cons_append, ofLines_cons hs (hanswer s), output_cons, ih hlines, List.flatMap_cons,
      List.append_assoc, List.append_assoc, List.singleton_append]

/-- A line that is not accepted is not forgotten. -/
theorem ending_ofLines_append (rest : List (List UInt8)) :
    (ofLines settings json (lines ++ rest)).ending =
      (ofLines settings json rest).ending.and (texts.all fun s => (answer s).isAccepted) := by
  induction texts generalizing lines with
  | nil =>
    rw [List.map_eq_nil_iff.mp h]
    exact (Ending.and_true _).symm
  | cons s texts ih =>
    obtain ⟨bytes, lines, rfl, hs, hlines⟩ := List.map_eq_cons_iff.mp h
    rw [List.cons_append, ofLines_cons hs (hanswer s), cons, ih hlines, Ending.and_and,
      List.all_cons]

theorem output_ofLines : (ofLines settings json lines).output =
    texts.flatMap fun s => (answer s).line ++ ['\n'] := by
  have happend := output_ofLines_append hanswer h []
  have hnil : (ofLines settings json []).output = [] := rfl
  rwa [hnil, List.append_nil, List.append_nil] at happend

theorem ending_ofLines : (ofLines settings json lines).ending =
    .completed (texts.all fun s => (answer s).isAccepted) := by
  have happend := ending_ofLines_append hanswer h []
  rwa [List.append_nil, ofLines, Ending.and, Bool.and_true] at happend

theorem output_ofLines_of_unreadable {bad : List UInt8} (hbad : ofUtf8? bad = none)
    (rest : List (List UInt8)) : (ofLines settings json (lines ++ bad :: rest)).output =
      (ofLines settings json lines).output := by
  rw [output_ofLines_append hanswer h, ofLines_of_unreadable hbad, output_ofLines hanswer h]
  exact List.append_nil _

end

/-- The answers are read back from what was written, line by line. -/
theorem splitOn_output {answer : List Char → Answer} (hline : ∀ s, '\n' ∉ (answer s).line)
    (texts : List (List Char)) : (texts.flatMap fun s => (answer s).line ++ ['\n']).splitOn '\n' =
      texts.map (fun s => (answer s).line) ++ [[]] := by
  rw [← splitOn_flatMap_newline (by simpa using fun s _ => hline s), List.flatMap_map]

theorem ReadAs.of_append {lines lines' : List (List UInt8)} {texts : List (List Char)}
    (h : ReadAs (lines ++ lines') texts) :
    ∃ read read', texts = read ++ read' ∧ ReadAs lines read ∧ ReadAs lines' read' := by
  rw [ReadAs, List.map_append] at h
  obtain ⟨read, read', rfl, hread, hread'⟩ := List.map_eq_append_iff.mp h.symm
  exact ⟨read, read', rfl, hread.symm, hread'.symm⟩

/-- A dialogue answers every line of its input with one line, in order, by one and the same map. It
succeeds when every line holds an expression with a value or a name that is written. An input that
is given in two parts is answered part by part, and a line that cannot be read ends the dialogue
behind the answers to the lines before it. -/
theorem dialogue_answers_lines (settings : Settings) (i : CommandLine.Invocation)
    (hrepl : i.command = .repl)
    (hp : settings.display.precision.toNat ≤ ValueText.maxPrecision) :
    let run := ofInvocation settings i
    ∃ answer : List Char → Answer,
      (∀ s, Answer.ofLine settings.display i.json s = .ok (answer s) ∧ '\n' ∉ (answer s).line ∧
        ((answer s).isAccepted = true ↔
          (∃ v, Expression.evaluate s = .ok v) ∨ Submission.IsWrittenName s)) ∧
      (∀ input texts, ReadAs (byteLines input) texts →
        (run input).output.splitOn '\n' = texts.map (fun s => (answer s).line) ++ [[]] ∧
          (run input).ending = .completed (texts.all fun s => (answer s).isAccepted)) ∧
      (∀ a b texts, EndsLine a → ReadAs (byteLines (a ++ b)) texts →
        (run (a ++ b)).output = (run a).output ++ (run b).output ∧
          ∃ x y, (run a).ending = .completed x ∧ (run b).ending = .completed y ∧
            (run (a ++ b)).ending = .completed (x && y)) ∧
      (∀ input lines texts bad rest, byteLines input = lines ++ bad :: rest →
        ReadAs lines texts → ofUtf8? bad = none →
          (run input).output.splitOn '\n' = texts.map (fun s => (answer s).line) ++ [[]] ∧
            (∀ start, byteLines start = lines → (run input).output = (run start).output) ∧
            (run input).ending = .unreadableInput) := by
  intro run
  have hrun : ∀ input, run input = ofLines settings.display i.json (byteLines input) := by
    intro input
    simp only [run, ofInvocation, hrepl]
  choose answer hanswer hline haccepted using fun s => Answer.exists_ofLine i.json hp s
  refine ⟨answer, fun s => ⟨hanswer s, hline s, haccepted s⟩, ?_, ?_, ?_⟩
  · intro input texts h
    rw [hrun, output_ofLines hanswer h, splitOn_output hline]
    exact ⟨rfl, ending_ofLines hanswer h⟩
  · intro a b texts ha h
    rw [ha.byteLines_append] at h
    obtain ⟨read, read', rfl, hread, hread'⟩ := h.of_append
    rw [hrun, hrun, hrun, ha.byteLines_append]
    refine ⟨?_, _, _, ending_ofLines hanswer hread, ending_ofLines hanswer hread', ?_⟩
    · rw [output_ofLines hanswer h, output_ofLines hanswer hread, output_ofLines hanswer hread',
        List.flatMap_append]
    · rw [ending_ofLines hanswer h, List.all_append]
  · intro input lines texts bad rest hlines h hbad
    have houtput := output_ofLines_of_unreadable hanswer h hbad rest
    rw [hrun, hlines, ending_ofLines_append hanswer h, ofLines_of_unreadable hbad, houtput]
    refine ⟨?_, fun start hstart => ?_, rfl⟩
    · rw [output_ofLines hanswer h, splitOn_output hline]
    · rw [hrun, hstart]

/-- The line between the sum and the name has no value, so that the dialogue does not succeed. -/
theorem dialogue_answers_three_lines :
    let i : CommandLine.Invocation := ⟨none, false, .repl⟩
    let input := "1 + 2".toList.utf8Encode.data.toList ++ lineFeed ::
      ("2 +".toList.utf8Encode.data.toList ++ lineFeed ::
        "petrov ivan".toList.utf8Encode.data.toList)
    i.command = .repl ∧ ({} : Settings).display.precision.toNat ≤ ValueText.maxPrecision ∧
      (ofInvocation {} i input).output.splitOn '\n' = ["Result: 3".toList,
        "Error: expression cannot start or end with an operator".toList,
        "Result: Petrov I.".toList, []] ∧
      (ofInvocation {} i input).ending = .completed false := by
  intro i input
  obtain ⟨answer, hanswer, hread, -⟩ := dialogue_answers_lines {} i rfl (by decide)
  have hlines : byteLines input = ["1 + 2".toList.utf8Encode.data.toList,
      "2 +".toList.utf8Encode.data.toList, "petrov ivan".toList.utf8Encode.data.toList] := by
    decide +kernel
  have hcalc : ∀ s a, Answer.ofLine {} false s = .ok a → answer s = a := by
    intro s a ha
    have hs := (hanswer s).1.symm.trans ha
    exact Except.ok.inj hs
  have hsum := hcalc "1 + 2".toList ⟨"Result: 3".toList, true⟩ (by decide +kernel)
  have hfault := hcalc "2 +".toList
    ⟨"Error: expression cannot start or end with an operator".toList, false⟩ (by decide +kernel)
  have hname := hcalc "petrov ivan".toList ⟨"Result: Petrov I.".toList, true⟩ (by decide +kernel)
  have hrun := hread input ["1 + 2".toList, "2 +".toList, "petrov ivan".toList]
    (by simp only [ReadAs, hlines, List.map_cons, List.map_nil, ofUtf8?_utf8Encode])
  simp only [List.map_cons, List.map_nil, List.all_cons, List.all_nil, hsum, hfault, hname] at hrun
  exact ⟨rfl, by decide, hrun.1, hrun.2⟩

end Run

end FormDesk
