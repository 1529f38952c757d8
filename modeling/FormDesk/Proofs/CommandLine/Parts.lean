import FormDesk.CommandLine.Arguments
import Mathlib.Data.List.Basic

/-! The parts of a command line, and what is read from them. A value that stands apart is looked at
late, but it does not show when: a level is what its parts give, taken one after the other. -/
namespace FormDesk.CommandLine

/-- A part of a command line: an option, with its value behind it, or a word. -/
inductive Part where
  | json
  | config (value : List Char)
  | copy
  | shortCopy
  | word (text : List Char)
  deriving DecidableEq

namespace Part

def arguments : Part → List (List Char)
  | .json => ["--json".toList]
  | .config value => ["--config".toList, value]
  | .copy => ["--copy".toList]
  | .shortCopy => ["-c".toList]
  | .word text => [text]

def value? : Part → Option (List Char)
  | .config value => some value
  | _ => none

def text? : Part → Option (List Char)
  | .word text => some text
  | _ => none

def isJson : Part → Bool
  | .json => true
  | _ => false

def isCopy : Part → Bool
  | .copy => true
  | .shortCopy => true
  | _ => false

/-- What is free in the part cannot be taken for an option. -/
def IsPlain : Part → Prop
  | .config value => value.head? ≠ some '-'
  | .word text => text.head? ≠ some '-'
  | _ => True

end Part

namespace Argument

theorem ofText_eq_word {s : List Char} (h : s.head? ≠ some '-') : ofText s = .word s := by
  unfold ofText
  split
  · simp at h
  · simp at h
  · simp at h
  · rfl

theorem ofText_json : ofText "--json".toList = .long "json".toList none := by decide

theorem ofText_config : ofText "--config".toList = .long "config".toList none := by decide

theorem ofText_copy : ofText "--copy".toList = .long "copy".toList none := by decide

theorem ofText_shortCopy : ofText "-c".toList = .short ['c'] := by decide

end Argument

namespace Level

theorem pending_of_settle {l l' : Level} (h : l.settle = .ok l') : l'.pending = .settled := by
  unfold settle at h
  split at h
  · next hpending =>
    cases h
    exact hpending
  · cases h
  · unfold setConfig at h
    split_ifs at h
    cases h
    rfl

/-- Takes a part into a level where nothing waits. A value is left for later. -/
def put (l : Level) : Part → Except Usage Level
  | .json => if l.json then .error .repeated else .ok { l with json := true }
  | .config value => .ok { l with pending := .given value }
  | .copy => if l.copy then .error .repeated else .ok { l with copy := true }
  | .shortCopy => if l.copy then .error .repeated else .ok { l with copy := true }
  | .word text => .ok { l with words := l.words ++ [text] }

theorem pending_of_put {l l' : Level} {part : Part} (hl : l.pending = .settled)
    (h : l.put part = .ok l') : l'.pending ≠ .awaited := by
  cases part with
  | config value =>
    cases h
    exact Pending.noConfusion
  | word text =>
    cases h
    simp [hl]
  | json | copy | shortCopy =>
    simp only [put] at h
    split_ifs at h
    cases h
    simp [hl]

/-- What waits is looked at before the next part is taken. -/
def step (l : Level) (part : Part) : Except Usage Level := do (← l.settle).put part

theorem pending_of_step {l l' : Level} {part : Part} (h : l.step part = .ok l') :
    l'.pending ≠ .awaited := by
  unfold step at h
  cases hsettle : l.settle with
  | error e =>
    rw [hsettle] at h
    cases h
  | ok settled =>
    rw [hsettle] at h
    exact pending_of_put (pending_of_settle hsettle) h

/-- Takes a part, and looks at its value at once. -/
def add (l : Level) (part : Part) : Except Usage Level := do (← l.put part).settle

/-- It does not show when a value is looked at. -/
theorem foldlM_step_settle (parts : List Part) (l : Level) :
    (do (← parts.foldlM step l).settle) = (do parts.foldlM add (← l.settle)) := by
  induction parts generalizing l with
  | nil => simp
  | cons part parts ih =>
    simp only [List.foldlM_cons, bind_assoc, ih, step, add]

theorem addOption_json (l : Level) (place : Place) :
    l.addOption place (.long "json".toList none) = l.step .json := rfl

theorem addOption_config (l : Level) (place : Place) :
    l.addOption place (.long "config".toList none) =
      (do let l ← l.settle; return { l with pending := .awaited }) := rfl

theorem addOption_copy (l : Level) :
    l.addOption (some .eval) (.long "copy".toList none) = l.step .copy := rfl

theorem addOption_shortCopy (l : Level) :
    l.addOption (some .eval) (.short ['c']) = l.step .shortCopy := by
  have hshort : l.addShort (some .eval) 'c' = l.step .shortCopy := rfl
  rw [addOption, List.foldlM_cons, hshort]
  simp

theorem addWord_none (l : Level) (text : List Char) :
    l.addWord none text = l.step (.word text) := rfl

/-- The level with all that the parts give. -/
def gather (l : Level) (parts : List Part) : Level where
  config := l.config.or (parts.filterMap Part.value?).head?
  json := l.json || parts.any Part.isJson
  copy := l.copy || parts.any Part.isCopy
  words := l.words ++ parts.filterMap Part.text?
  pending := .settled

/-- The parts and the level give every option at most once. -/
structure Fits (l : Level) (parts : List Part) : Prop where
  pending_eq : l.pending = .settled
  config_le : (l.config.toList ++ parts.filterMap Part.value?).length ≤ 1
  json_le : l.json.toNat + parts.countP Part.isJson ≤ 1
  copy_le : l.copy.toNat + parts.countP Part.isCopy ≤ 1

theorem Fits.of_sublist {l : Level} {parts parts' : List Part} (h : l.Fits parts)
    (hsub : parts'.Sublist parts) : l.Fits parts' where
  pending_eq := h.pending_eq
  config_le :=
    Nat.le_trans ((List.Sublist.refl _).append (hsub.filterMap _)).length_le h.config_le
  json_le := Nat.le_trans (Nat.add_le_add_left hsub.countP_le _) h.json_le
  copy_le := Nat.le_trans (Nat.add_le_add_left hsub.countP_le _) h.copy_le

/-- Parts that give every option at most once are refused only for an empty value. -/
theorem foldlM_add {l : Level} {parts : List Part} (h : l.Fits parts) : parts.foldlM add l =
    if [] ∈ parts.filterMap Part.value? then .error .missingValue else .ok (l.gather parts) := by
  induction parts generalizing l with
  | nil =>
    obtain ⟨config, json, copy, words, pending⟩ := l
    obtain rfl : pending = .settled := h.pending_eq
    simp [gather]
    rfl
  | cons part parts ih =>
    obtain ⟨config, json, copy, words, pending⟩ := l
    obtain rfl : pending = .settled := h.pending_eq
    cases part with
    | json =>
      have hcount : json.toNat + (parts.countP Part.isJson + 1) ≤ 1 := by
        simpa only [List.countP_cons, Part.isJson, if_true] using h.json_le
      obtain rfl : json = false := Bool.toNat_eq_zero.mp (by omega)
      have hjson : 1 + parts.countP Part.isJson ≤ 1 := by omega
      exact ih (l := ⟨config, true, copy, words, .settled⟩) ⟨rfl, h.config_le, hjson, h.copy_le⟩
    | config value =>
      have hvalues : (Part.config value :: parts).filterMap Part.value? =
          value :: parts.filterMap Part.value? := rfl
      have hlength := h.config_le
      rw [hvalues, List.length_append, List.length_cons] at hlength
      obtain rfl : config = none := by
        cases config with
        | none => rfl
        | some v =>
          rw [Option.toList_some, List.length_singleton] at hlength
          omega
      have hrest : parts.filterMap Part.value? = [] := List.eq_nil_of_length_eq_zero (by omega)
      rw [hvalues, hrest]
      cases value with
      | nil => rfl
      | cons c value =>
        have hparts := ih (l := ⟨some (c :: value), json, copy, words, .settled⟩)
          ⟨rfl, by simp [hrest], h.json_le, h.copy_le⟩
        rw [hrest, if_neg List.not_mem_nil] at hparts
        rw [if_neg (by simp)]
        exact hparts
    | copy | shortCopy =>
      have hcount : copy.toNat + (parts.countP Part.isCopy + 1) ≤ 1 := by
        simpa only [List.countP_cons, Part.isCopy, if_true] using h.copy_le
      obtain rfl : copy = false := Bool.toNat_eq_zero.mp (by omega)
      have hcopy : 1 + parts.countP Part.isCopy ≤ 1 := by omega
      exact ih (l := ⟨config, json, true, words, .settled⟩) ⟨rfl, h.config_le, h.json_le, hcopy⟩
    | word text =>
      have hwords : gather ⟨config, json, copy, words ++ [text], .settled⟩ parts =
          gather ⟨config, json, copy, words, .settled⟩ (.word text :: parts) := by
        simp only [gather, List.append_assoc]
        rfl
      rw [← hwords]
      exact ih (l := ⟨config, json, copy, words ++ [text], .settled⟩)
        ⟨rfl, h.config_le, h.json_le, h.copy_le⟩

end Level

theorem readBehind_part {l : Level} (hl : l.pending ≠ .awaited) {part : Part} (hpart : part.IsPlain)
    (rest : List (List Char)) : readBehind .eval l (part.arguments ++ rest) =
      (do readBehind .eval (← l.step part) rest) := by
  cases part with
  | json =>
    simp only [Part.arguments, List.cons_append, List.nil_append, readBehind, Argument.ofText_json,
      Level.addOption_json]
  | config value =>
    have hvalue : Argument.ofText value = .word value := Argument.ofText_eq_word hpart
    simp only [Part.arguments, List.cons_append, List.nil_append, readBehind,
      Argument.ofText_config, hvalue, Level.addOption_config, bind_assoc, pure_bind, if_true,
      Level.step]
    rfl
  | copy =>
    simp only [Part.arguments, List.cons_append, List.nil_append, readBehind, Argument.ofText_copy,
      Level.addOption_copy]
  | shortCopy =>
    simp only [Part.arguments, List.cons_append, List.nil_append, readBehind,
      Argument.ofText_shortCopy, Level.addOption_shortCopy]
  | word text =>
    have htext : Argument.ofText text = .word text := Argument.ofText_eq_word hpart
    simp only [Part.arguments, List.cons_append, List.nil_append, readBehind, htext, if_neg hl,
      CommandName.capacity?, Level.addWord_none]

/-- Before the command only options that belong to both levels can stand. -/
theorem readBefore_part {l : Level} {part : Part} (hpart : part.IsPlain) (htext : part.text? = none)
    (hcopy : part.isCopy = false) (rest : List (List Char)) :
    readBefore l (part.arguments ++ rest) = (do readBefore (← l.step part) rest) := by
  cases part with
  | json =>
    simp only [Part.arguments, List.cons_append, List.nil_append, readBefore, Argument.ofText_json,
      Level.addOption_json]
  | config value =>
    have hvalue : Argument.ofText value = .word value := Argument.ofText_eq_word hpart
    simp only [Part.arguments, List.cons_append, List.nil_append, readBefore,
      Argument.ofText_config, hvalue, Level.addOption_config, bind_assoc, pure_bind, if_true,
      Level.step]
    rfl
  | copy | shortCopy => cases hcopy
  | word text => cases htext

theorem readBehind_arguments {l : Level} (hl : l.pending ≠ .awaited) {parts : List Part}
    (hparts : ∀ part ∈ parts, part.IsPlain) : readBehind .eval l (parts.flatMap Part.arguments) =
      (do parts.foldlM Level.add (← l.settle)) := by
  rw [← Level.foldlM_step_settle]
  induction parts generalizing l with
  | nil => rfl
  | cons part parts ih =>
    obtain ⟨hpart, hparts⟩ := List.forall_mem_cons.mp hparts
    rw [List.flatMap_cons, readBehind_part hl hpart, List.foldlM_cons]
    cases hstep : l.step part with
    | error e => rfl
    | ok l' => exact ih (Level.pending_of_step hstep) hparts

theorem readBefore_arguments {l : Level} (hl : l.pending ≠ .awaited) {parts : List Part}
    (hparts : ∀ part ∈ parts, part.IsPlain ∧ part.text? = none ∧ part.isCopy = false)
    (rest : List (List Char)) :
    readBefore l (parts.flatMap Part.arguments ++ "eval".toList :: rest) =
      (do combine .eval (← parts.foldlM Level.step l) rest) := by
  induction parts generalizing l with
  | nil =>
    have hword : Argument.ofText "eval".toList = .word "eval".toList := by decide
    have hcommand : CommandName.ofText? "eval".toList = some .eval := by decide
    simp only [List.flatMap_nil, List.nil_append, readBefore, hword, if_neg hl, hcommand]
    rfl
  | cons part parts ih =>
    obtain ⟨⟨hpart, htext, hcopy⟩, hparts⟩ := List.forall_mem_cons.mp hparts
    rw [List.flatMap_cons, List.append_assoc, readBefore_part hpart htext hcopy, List.foldlM_cons]
    cases hstep : l.step part with
    | error e => rfl
    | ok l' => exact ih (Level.pending_of_step hstep) hparts

/-- The command line of a level before `eval` and a level behind it. -/
def Level.joined (before behind : Level) : Invocation :=
  ⟨behind.config.or before.config, before.json || behind.json, .eval behind.words behind.copy⟩

theorem Level.joined_gather (before behind : List Part) :
    (gather {} before).joined (gather {} behind) =
      ⟨(behind.filterMap Part.value?).head?.or (before.filterMap Part.value?).head?,
        before.any Part.isJson || behind.any Part.isJson,
        .eval (behind.filterMap Part.text?) (behind.any Part.isCopy)⟩ := rfl

theorem combine_eval (l : Level) (rest : List (List Char)) : combine .eval l rest = (do
    let behind ← readBehind .eval {} rest
    let before ← l.settle
    return before.joined behind) := rfl

theorem bind_combine_of_ok {before? : Except Usage Level} {behind : Level}
    {rest : List (List Char)} (hbehind : readBehind .eval {} rest = .ok behind) :
    (do combine .eval (← before?) rest) =
      Except.map (Level.joined · behind) (do (← before?).settle) := by
  cases before? with
  | error e => rfl
  | ok l =>
    change combine .eval l rest = Except.map _ l.settle
    rw [combine_eval, hbehind]
    rfl

theorem bind_combine_of_error {before? : Except Usage Level} {before : Level} {usage : Usage}
    {rest : List (List Char)} (hbefore : (do (← before?).settle) = .ok before)
    (hbehind : readBehind .eval {} rest = .error usage) :
    (do combine .eval (← before?) rest) = .error usage := by
  cases before? with
  | error e => cases hbefore
  | ok l =>
    change combine .eval l rest = _
    rw [combine_eval, hbehind]
    rfl

/-- The command line of parts on both sides of the command. -/
theorem read_around_eval {before behind : List Part}
    (hbefore : ∀ part ∈ before, part.IsPlain ∧ part.text? = none ∧ part.isCopy = false)
    (hbehind : ∀ part ∈ behind, part.IsPlain) (h : Level.Fits {} (before ++ behind)) :
    read (before.flatMap Part.arguments ++ "eval".toList :: behind.flatMap Part.arguments) =
      if [] ∈ (before ++ behind).filterMap Part.value? then .error .missingValue
      else .ok ⟨((before ++ behind).filterMap Part.value?).head?,
        (before ++ behind).any Part.isJson,
        .eval (behind.filterMap Part.text?) (behind.any Part.isCopy)⟩ := by
  have hlevelBefore : (do (← before.foldlM Level.step {}).settle) = _ :=
    (Level.foldlM_step_settle before {}).trans
      (Level.foldlM_add (h.of_sublist (List.sublist_append_left ..)))
  have hlevelBehind : readBehind .eval {} (behind.flatMap Part.arguments) = _ :=
    (readBehind_arguments Pending.noConfusion hbehind).trans
      (Level.foldlM_add (h.of_sublist (List.sublist_append_right ..)))
  have hlength :
      (before.filterMap Part.value?).length + (behind.filterMap Part.value?).length ≤ 1 := by
    rw [← List.length_append, ← List.filterMap_append]
    exact h.config_le
  rw [read, readBefore_arguments Pending.noConfusion hbefore, List.filterMap_append,
    List.any_append]
  cases hvalues : before.filterMap Part.value? with
  | nil =>
    rw [hvalues, if_neg List.not_mem_nil] at hlevelBefore
    rw [List.nil_append]
    split_ifs with hempty
    · rw [if_pos hempty] at hlevelBehind
      exact bind_combine_of_error hlevelBefore hlevelBehind
    · rw [if_neg hempty] at hlevelBehind
      rw [bind_combine_of_ok hlevelBehind, hlevelBefore, Except.map, Level.joined_gather, hvalues,
        List.head?_nil, Option.or_none]
  | cons value values =>
    -- There is one value at most, so that none is left for the level behind the command.
    rw [hvalues, List.length_cons] at hlength
    have hnone : behind.filterMap Part.value? = [] := List.eq_nil_of_length_eq_zero (by omega)
    obtain rfl : values = [] := List.eq_nil_of_length_eq_zero (by omega)
    rw [hnone, if_neg List.not_mem_nil] at hlevelBehind
    rw [hvalues] at hlevelBefore
    rw [bind_combine_of_ok hlevelBehind, hlevelBefore, hnone, List.append_nil]
    split_ifs with hempty
    · rfl
    · rw [Except.map, Level.joined_gather, hvalues, hnone]
      rfl

end FormDesk.CommandLine
