import FormDesk.Proofs.CommandLine.Parts

/-! Options may stand in any place of a command line. The level at which an option is read, and what
stands before and behind it, do not show in the result. -/
namespace FormDesk.CommandLine

/-- The parts are an `eval` of the words, in their order, with options anywhere between them: each
at most once, and the one for copying behind the command. -/
structure Arranges (parts : List Part) (words : List (List Char)) (config : Option (List Char))
    (json copy : Bool) : Prop where
  texts_eq : parts.filterMap Part.text? = "eval".toList :: words
  config_eq : parts.filterMap Part.value? = config.toList
  json_eq : parts.countP Part.isJson = json.toNat
  copy_eq : parts.countP Part.isCopy = copy.toNat
  copy_behind : ∀ before part behind, parts = before ++ part :: behind → part.isCopy = true →
    .word "eval".toList ∈ before

/-- The parts on both sides of the command. -/
theorem Arranges.exists_append {parts : List Part} {words : List (List Char)}
    {config : Option (List Char)} {json copy : Bool} (h : Arranges parts words config json copy) :
    ∃ before behind, parts = before ++ .word "eval".toList :: behind ∧
      (∀ part ∈ before, part.text? = none ∧ part.isCopy = false) ∧
      behind.filterMap Part.text? = words := by
  obtain ⟨before, part, behind, hparts, hbefore, hpart, hbehind⟩ :=
    List.filterMap_eq_cons_iff.mp h.texts_eq
  obtain rfl : part = .word "eval".toList := by
    cases part with
    | word text => rw [Option.some.inj hpart]
    | json | config value | copy | shortCopy => cases hpart
  refine ⟨before, behind, hparts, fun part hmem => ⟨hbefore part hmem, ?_⟩, hbehind⟩
  by_contra hcopy
  obtain ⟨u, v, rfl⟩ := List.append_of_mem hmem
  rw [List.append_assoc, List.cons_append] at hparts
  have heval := h.copy_behind u part _ hparts (by simpa using hcopy)
  cases hbefore _ (List.mem_append_left _ heval)

section
variable {parts : List Part} {words : List (List Char)} {config : Option (List Char)}
  {json copy : Bool}

theorem Arranges.isPlain (h : Arranges parts words config json copy)
    (hwords : ∀ word ∈ words, word.head? ≠ some '-')
    (hconfig : ∀ value ∈ config, value.head? ≠ some '-') : ∀ part ∈ parts, part.IsPlain := by
  intro part hpart
  cases part with
  | config value =>
    have hvalue : value ∈ parts.filterMap Part.value? := List.mem_filterMap.mpr ⟨_, hpart, rfl⟩
    rw [h.config_eq] at hvalue
    exact hconfig value (Option.mem_toList.mp hvalue)
  | word text =>
    have htext : text ∈ parts.filterMap Part.text? := List.mem_filterMap.mpr ⟨_, hpart, rfl⟩
    rw [h.texts_eq] at htext
    rcases List.mem_cons.mp htext with rfl | hmem
    · exact (by decide : "eval".toList.head? ≠ some '-')
    · exact hwords text hmem
  | json | copy | shortCopy => trivial

private theorem any_eq_of_countP {α : Type} {p : α → Bool} {xs : List α} {b : Bool}
    (h : xs.countP p = b.toNat) : xs.any p = b := by
  cases b with
  | false => simpa [List.countP_eq_zero] using h
  | true =>
    have hpos : 0 < xs.countP p := h ▸ Nat.one_pos
    simpa [List.countP_pos_iff] using hpos

theorem Arranges.fits (h : Arranges parts words config json copy) : Level.Fits {} parts where
  pending_eq := rfl
  config_le := by
    change (parts.filterMap Part.value?).length ≤ 1
    rw [h.config_eq]
    exact Option.length_toList_le
  json_le := by
    rw [h.json_eq]
    simpa using Bool.toNat_le json
  copy_le := by
    rw [h.copy_eq]
    simpa using Bool.toNat_le copy

/-- Options may stand anywhere: all command lines with the same words and options are read as one
and the same. Only an empty value is refused, and that in every place. -/
theorem read_of_arranges (h : Arranges parts words config json copy)
    (hwords : ∀ word ∈ words, word.head? ≠ some '-')
    (hconfig : ∀ value ∈ config, value.head? ≠ some '-') :
    read (parts.flatMap Part.arguments) =
      if config = some [] then .error .missingValue else .ok ⟨config, json, .eval words copy⟩ := by
  have hplain := h.isPlain hwords hconfig
  obtain ⟨before, behind, rfl, hglobal, htexts⟩ := h.exists_append
  obtain ⟨hbefore, -, hbehind⟩ :
      (∀ part ∈ before, part.IsPlain) ∧ _ ∧ ∀ part ∈ behind, part.IsPlain := by
    rwa [List.forall_mem_append, List.forall_mem_cons] at hplain
  have hsub : (before ++ behind).Sublist (before ++ .word "eval".toList :: behind) :=
    (List.Sublist.refl before).append (List.sublist_cons_self ..)
  have hvalues : (before ++ behind).filterMap Part.value? = config.toList := by
    rw [← h.config_eq, List.filterMap_append, List.filterMap_append]
    rfl
  have hjson : (before ++ behind).any Part.isJson = json := by
    rw [← any_eq_of_countP h.json_eq, List.any_append, List.any_append]
    rfl
  have hcopy : behind.any Part.isCopy = copy := by
    have hfree : before.any Part.isCopy = false :=
      List.any_eq_false.mpr fun part hmem => by simp [(hglobal part hmem).2]
    rw [← any_eq_of_countP h.copy_eq, List.any_append, hfree]
    rfl
  have hread := read_around_eval (fun part hmem => ⟨hbefore part hmem, hglobal part hmem⟩) hbehind
    (h.fits.of_sublist hsub)
  rw [List.flatMap_append, List.flatMap_cons]
  rw [hvalues, hjson, hcopy, htexts] at hread
  refine hread.trans ?_
  cases config <;> simp [eq_comm]

end

/-- The value between the words, and the short name for copying behind it. -/
theorem read_of_arranges_sum :
    let parts : List Part := [.json, .word "eval".toList, .word "2 +".toList,
      .config "desk.toml".toList, .shortCopy, .word "3".toList]
    let words := ["2 +".toList, "3".toList]
    Arranges parts words (some "desk.toml".toList) true true ∧
      (∀ word ∈ words, word.head? ≠ some '-') ∧
      (∀ value ∈ some "desk.toml".toList, value.head? ≠ some '-') ∧
      read (["--json", "eval", "2 +", "--config", "desk.toml", "-c", "3"].map String.toList) =
        .ok ⟨some "desk.toml".toList, true, .eval words true⟩ := by
  intro parts words
  have harranges : Arranges parts words (some "desk.toml".toList) true true := by
    refine ⟨rfl, rfl, rfl, rfl, fun before part behind hparts hcopy => ?_⟩
    match before, hparts with
    | [], hparts =>
      cases (List.cons.inj hparts).1
      cases hcopy
    | [_], hparts =>
      cases (List.cons.inj (List.cons.inj hparts).2).1
      cases hcopy
    | _ :: eval :: before, hparts =>
      obtain rfl : .word "eval".toList = eval := (List.cons.inj (List.cons.inj hparts).2).1
      simp
  have hwords : ∀ word ∈ words, word.head? ≠ some '-' := by simp [words]
  have hconfig : ∀ value ∈ some "desk.toml".toList, value.head? ≠ some '-' := by simp
  exact ⟨harranges, hwords, hconfig, read_of_arranges harranges hwords hconfig⟩

/-- An empty value for `--config` is no value. -/
theorem not_forall_read_eq_ok : ¬ ∀ (parts : List Part) (words : List (List Char))
    (config : Option (List Char)) (json copy : Bool), Arranges parts words config json copy →
      (∀ word ∈ words, word.head? ≠ some '-') → (∀ value ∈ config, value.head? ≠ some '-') →
        read (parts.flatMap Part.arguments) = .ok ⟨config, json, .eval words copy⟩ := by
  intro h
  have harranges : Arranges [.config [], .word "eval".toList, .word "2".toList] ["2".toList]
      (some []) false false := by
    refine ⟨rfl, rfl, rfl, rfl, fun before part behind hparts hcopy => ?_⟩
    have hmem : part ∈ before ++ part :: behind := by simp
    have hfree :
        [Part.config [], .word "eval".toList, .word "2".toList].all (!·.isCopy) = true := rfl
    have hpart := List.all_eq_true.mp hfree part (hparts ▸ hmem)
    rw [hcopy] at hpart
    cases hpart
  have hread := h _ _ _ _ _ harranges (by simp) (by simp)
  have herror : read (["--config", "", "eval", "2"].map String.toList) = .error .missingValue := by
    decide
  cases hread.symm.trans herror

end FormDesk.CommandLine
