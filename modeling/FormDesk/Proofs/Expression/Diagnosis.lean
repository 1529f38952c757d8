import FormDesk.Proofs.Expression.Evaluate
import Mathlib.Data.List.Find

/-! What is told about a text that has no value. Blanks do not count, so every fault is stated on
the text without them. -/
namespace FormDesk.Expression
open Grammar Text

/-- The characters of expressions, blanks apart. -/
def symbols : List Char := digits ++ '.' :: operators

def OperatorFirstOrLast (w : List Char) : Prop :=
  ∃ o ∈ operators, w.head? = some o ∨ w.getLast? = some o

/-- Symbols alone, with another symbol on both sides of every operator. -/
structure Joined (w : List Char) : Prop where
  mem_symbols : ∀ c ∈ w, c ∈ symbols
  ne_nil : w ≠ []
  not_operatorFirstOrLast : ¬ OperatorFirstOrLast w
  not_adjacentOperators : ¬ AdjacentOperators w

/-- More than one point, or a point and nothing else. -/
def Malformed (n : List Char) : Prop := 2 ≤ n.count '.' ∨ n = ['.']

def LeftmostMalformed (w n : List Char) : Prop :=
  ∃ ps qs, pieces w = ps ++ n :: qs ∧ (∀ p ∈ ps, ¬ Malformed p) ∧ Malformed n

theorem LeftmostMalformed.malformed {w n : List Char} (h : LeftmostMalformed w n) :
    Malformed n := by
  obtain ⟨ps, qs, -, -, hn⟩ := h
  exact hn

/-- The fault of a text without blanks, under the first rule that it violates. -/
inductive Diagnosis (w : List Char) : Fault → Prop where
  | invalidCharacter {u v : List Char} {c : Char} : w = u ++ c :: v → (∀ d ∈ u, d ∈ symbols) →
      c ∉ symbols → Diagnosis w (.invalidCharacter c)
  | emptyExpression : w = [] → Diagnosis w .emptyExpression
  | operatorAtEnd : (∀ c ∈ w, c ∈ symbols) → OperatorFirstOrLast w → Diagnosis w .operatorAtEnd
  | adjacentOperators : (∀ c ∈ w, c ∈ symbols) → ¬ OperatorFirstOrLast w → AdjacentOperators w →
      Diagnosis w .adjacentOperators
  | tooManyPoints {n : List Char} : Joined w → LeftmostMalformed w n → 2 ≤ n.count '.' →
      Diagnosis w (.malformedNumber n .tooManyPoints)
  | lonePoint : Joined w → LeftmostMalformed w ['.'] →
      Diagnosis w (.malformedNumber ['.'] .notANumeral)

theorem mem_symbols_iff {c : Char} : c ∈ symbols ↔ (isLiteral c || isOperator c) = true := by
  simp only [isLiteral, Bool.or_eq_true, isDigit_iff, isOperator_iff, beq_iff_eq, symbols,
    List.mem_append, List.mem_cons, or_assoc]

theorem isSpace_of_mem_symbols {c : Char} (h : c ∈ symbols) : isSpace c = false := by
  have hall : symbols.all (!isSpace ·) = true := by decide
  simpa using List.all_eq_true.mp hall c h

/-- The scan for foreign characters sees the symbols alone. -/
theorem find?_isForeign_eq_find?_unblank (s : List Char) :
    s.find? isForeign = (unblank s).find? (· ∉ symbols) := by
  rw [unblank, List.find?_filter]
  refine List.find?_congr fun c _ => ?_
  by_cases hblank : isBlank c = true
  · simp [isForeign, hblank]
  · have hspace : (c == ' ') = false := by
      refine beq_false_of_ne fun hc => hblank ?_
      rw [hc, isBlank_space]
    rw [Bool.eq_iff_iff]
    simp [isForeign, isAllowed, hblank, hspace, mem_symbols_iff]

/-- Blanks do not change what comes of a text. -/
theorem evaluate_congr {s t : List Char} (h : unblank s = unblank t) :
    evaluate s = evaluate t := by
  have hfind : s.find? isForeign = t.find? isForeign := by
    rw [find?_isForeign_eq_find?_unblank, h, find?_isForeign_eq_find?_unblank]
  unfold evaluate
  rw [hfind]
  cases ht : t.find? isForeign with
  | some c => rfl
  | none =>
    have hclean : clean s = clean t := by
      rw [clean_eq_unblank (hfind.trans ht), clean_eq_unblank ht, h]
    simp only [hclean]

theorem unblank_trim (s : List Char) : unblank (trim s) = unblank s := by
  obtain ⟨a, b, hs, ha, hb, -⟩ := isCore_trimBy isBlank s
  have hblank : ∀ t : List Char, (∀ c ∈ t, isBlank c = true) → unblank t = [] := by
    intro t ht
    simpa [unblank] using ht
  calc unblank (trim s) = unblank a ++ unblank (trim s) ++ unblank b := by
        rw [hblank a ha, hblank b hb, List.nil_append, List.append_nil]
    _ = unblank s := by
        conv_rhs => rw [hs]
        simp only [unblank, List.filter_append]
        rfl

theorem evaluate_trim (s : List Char) : evaluate (trim s) = evaluate s :=
  evaluate_congr (unblank_trim s)

theorem mem_symbols_of_evaluate {s : List Char} {v : Binary64} (h : evaluate s = .ok v) :
    ∀ c ∈ unblank s, c ∈ symbols := by
  cases hfind : s.find? isForeign with
  | some c =>
    rw [evaluate_of_isForeign hfind] at h
    cases h
  | none => simpa [find?_isForeign_eq_find?_unblank] using hfind

theorem evaluate_eq_error_iff_check {s : List Char} {f : Fault} : evaluate s = .error f ↔
    (∃ c, s.find? isForeign = some c ∧ f = .invalidCharacter c) ∨
      (s.find? isForeign = none ∧ check (clean s) = .error f) := by
  cases hfind : s.find? isForeign with
  | some c => simp [evaluate_of_isForeign hfind, eq_comm]
  | none =>
    rw [← map_evaluate hfind]
    cases evaluate s <;> simp [Except.map]

section
variable {w : List Char} (h : ∀ c ∈ w, c ∈ symbols)
include h

theorem trimBy_isSpace_of_symbols : trimBy isSpace w = w :=
  trimBy_eq_self fun c hc => isSpace_of_mem_symbols (h c hc)

theorem onlySpaces_iff_eq_nil : OnlySpaces w ↔ w = [] := by
  constructor
  · intro hspaces
    refine List.eq_nil_iff_forall_not_mem.mpr fun c hc => ?_
    have hspace := isSpace_of_mem_symbols (h c hc)
    rw [hspaces c hc] at hspace
    cases hspace
  · rintro rfl
    exact fun c hc => absurd hc List.not_mem_nil

theorem operatorAtEnd_iff_firstOrLast : OperatorAtEnd w ↔ OperatorFirstOrLast w := by
  rw [← hasOperatorAtEnd_trim_iff, trimBy_isSpace_of_symbols h, hasOperatorAtEnd, Bool.or_eq_true,
    Option.any_eq_true, Option.any_eq_true, OperatorFirstOrLast]
  simp only [isOperator_iff]
  constructor
  · rintro (⟨o, hhead, ho⟩ | ⟨o, hlast, ho⟩)
    · exact ⟨o, ho, Or.inl hhead⟩
    · exact ⟨o, ho, Or.inr hlast⟩
  · rintro ⟨o, ho, hhead | hlast⟩
    · exact Or.inl ⟨o, hhead, ho⟩
    · exact Or.inr ⟨o, hlast, ho⟩

theorem isLiteral_of_mem_pieces {p : List Char} (hp : p ∈ pieces w) {c : Char} (hc : c ∈ p) :
    isLiteral c = true := by
  have hsymbol := mem_symbols_iff.mp (h c (mem_of_mem_pieces hp hc))
  rwa [operatorFree_of_mem_pieces hp c hc, Bool.or_false] at hsymbol

theorem firstBadOperand_iff_pieces {n : List Char} : FirstBadOperand w n ↔
    ∃ ps qs, pieces w = ps ++ n :: qs ∧ (∀ p ∈ ps, p ∈ numeral.matches') ∧
      n ∉ numeral.matches' := by
  induction w using pieceInduction with
  | piece w hw =>
    have hcore : IsCore isSpace w n ↔ n = w :=
      isCore_iff_of_forall fun c hc => isSpace_of_mem_symbols (h c hc)
    rw [firstBadOperand_piece_iff hw, hcore, pieces_of_operatorFree hw]
    constructor
    · rintro ⟨rfl, hn⟩
      exact ⟨[], [], rfl, by simp, hn⟩
    · rintro ⟨ps, qs, hcut, -, hn⟩
      obtain ⟨rfl, hcut⟩ | ⟨ps', rfl, hcut⟩ := List.cons_eq_append_iff.mp hcut
      · exact ⟨(List.cons.inj hcut).1.symm, hn⟩
      · simp at hcut
  | step p o t hp ho ih =>
    have hmem : ∀ c ∈ p, isSpace c = false := fun c hc =>
      isSpace_of_mem_symbols (h c (List.mem_append_left _ hc))
    have hspaced : p ∈ spacedNumeral.matches' ↔ p ∈ numeral.matches' := by
      rw [← trim_mem_numeral_iff, trimBy_eq_self hmem]
    rw [firstBadOperand_cons_iff hp ho, isCore_iff_of_forall hmem, hspaced,
      ih fun c hc => h c (by simp [hc]), pieces_piece_cons hp ho]
    constructor
    · rintro (⟨rfl, hn⟩ | ⟨hnum, ps, qs, hcut, hps, hn⟩)
      · exact ⟨[], pieces t, rfl, by simp, hn⟩
      · exact ⟨p :: ps, qs, by rw [hcut]; rfl, List.forall_mem_cons.mpr ⟨hnum, hps⟩, hn⟩
    · rintro ⟨ps, qs, hcut, hps, hn⟩
      obtain ⟨rfl, hcut⟩ | ⟨ps', rfl, hcut⟩ := List.cons_eq_append_iff.mp hcut
      · exact Or.inl ⟨(List.cons.inj hcut).1.symm, hn⟩
      · rw [List.forall_mem_cons] at hps
        exact Or.inr ⟨hps.1, ps', qs, (List.cons.inj hcut).2, hps.2, hn⟩

end

/-- A piece without characters shows an operator with nothing on one side. -/
theorem operator_of_nil_mem_pieces {w : List Char} (h : [] ∈ pieces w) :
    w = [] ∨ OperatorFirstOrLast w ∨ AdjacentOperators w := by
  induction w using pieceInduction with
  | piece w hw =>
    rw [pieces_of_operatorFree hw, List.mem_singleton] at h
    exact Or.inl h.symm
  | step p o t hp ho ih =>
    rw [isOperator_iff] at ho
    rw [pieces_piece_cons hp (isOperator_iff.mpr ho), List.mem_cons] at h
    refine Or.inr ?_
    rcases h with rfl | h
    · exact Or.inl ⟨o, ho, Or.inl rfl⟩
    · rcases ih h with rfl | ⟨o', ho', hhead | hlast⟩ | ⟨o', ho', o'', ho'', hpart⟩
      · exact Or.inl ⟨o, ho, Or.inr List.getLast?_concat⟩
      · obtain ⟨t', rfl⟩ := List.head?_eq_some_iff.mp hhead
        exact Or.inr ⟨o, ho, o', ho', p, t', by simp⟩
      · refine Or.inl ⟨o', ho', Or.inr ?_⟩
        rw [List.getLast?_append, List.getLast?_cons, hlast]
        rfl
      · exact Or.inr ⟨o', ho', o'', ho'',
          List.infix_append_of_infix_right (List.infix_cons hpart)⟩

theorem Joined.nil_notMem_pieces {w : List Char} (hw : Joined w) : [] ∉ pieces w := by
  intro h
  rcases operator_of_nil_mem_pieces h with hnil | hend | hadj
  · exact hw.ne_nil hnil
  · exact hw.not_operatorFirstOrLast hend
  · exact hw.not_adjacentOperators hadj

/-- Digits and points write a numeral, unless there is nothing or the points are wrong. -/
theorem not_mem_numeral_iff_malformed {n : List Char} (hn : n ≠ [])
    (hlit : ∀ c ∈ n, isLiteral c = true) : n ∉ numeral.matches' ↔ Malformed n := by
  constructor
  · intro h
    by_contra hgood
    rw [Malformed, not_or, Nat.not_le] at hgood
    obtain ⟨hcount, hlone⟩ := hgood
    have hdigit : ∀ t : List Char, (∀ c ∈ t, c ∈ n) → '.' ∉ t → t.all Char.isDigit = true := by
      intro t hsub hpoint
      refine List.all_eq_true.mpr fun c hc => ?_
      have hc' := hlit c (hsub c hc)
      rw [isLiteral, Bool.or_eq_true, beq_iff_eq] at hc'
      exact hc'.resolve_right fun hp => hpoint (hp ▸ hc)
    refine h (mem_numeral.mpr ?_)
    by_cases hpoint : '.' ∈ n
    · obtain ⟨u, v, rfl, hu⟩ := List.eq_append_cons_of_mem hpoint
      have hv : '.' ∉ v := by
        rw [List.count_append, List.count_cons_self] at hcount
        exact List.count_eq_zero.mp (by omega)
      refine ⟨⟨u, v⟩, hdigit u (by simp +contextual) hu, hdigit v (by simp +contextual) hv, ?_,
        Or.inr rfl⟩
      intro hnil
      obtain ⟨rfl, rfl⟩ := List.append_eq_nil_iff.mp hnil
      exact hlone rfl
    · exact ⟨⟨n, []⟩, hdigit n (fun _ => id) hpoint, rfl, by simpa using hn, Or.inl ⟨rfl, rfl⟩⟩
  · intro hbad hnum
    obtain ⟨m, hm⟩ := mem_numeral.mp hnum
    rcases hbad with hcount | rfl
    · have := hm.count_point_le
      omega
    · rcases hm.spelling with ⟨hwhole, -⟩ | hwhole
      · have := hm.whole_isDigit
        rw [← hwhole] at this
        cases this
      · have hlen := congrArg List.length hwhole
        simp only [List.length_append, List.length_cons, List.length_nil] at hlen
        refine hm.ne_nil (List.append_eq_nil_iff.mpr ⟨?_, ?_⟩)
        · exact List.length_eq_zero_iff.mp (by omega)
        · exact List.length_eq_zero_iff.mp (by omega)

theorem Joined.firstBadOperand_iff {w : List Char} (hw : Joined w) {n : List Char} :
    FirstBadOperand w n ↔ LeftmostMalformed w n := by
  have hbad : ∀ p ∈ pieces w, (p ∉ numeral.matches' ↔ Malformed p) := by
    intro p hp
    refine not_mem_numeral_iff_malformed ?_ fun c => isLiteral_of_mem_pieces hw.mem_symbols hp
    rintro rfl
    exact hw.nil_notMem_pieces hp
  rw [firstBadOperand_iff_pieces hw.mem_symbols, LeftmostMalformed]
  refine exists_congr fun ps => exists_congr fun qs => and_congr_right fun hcut => ?_
  rw [hcut] at hbad
  refine and_congr (forall₂_congr fun p hp => ?_) (hbad n (by simp))
  rw [← hbad p (by simp [hp]), not_not]

theorem operandFault_of_points {n : List Char} (h : 2 ≤ n.count '.') :
    operandFault n = .malformedNumber n .tooManyPoints := by
  have hne : n ≠ [] := by
    rintro rfl
    simp at h
  rw [operandFault, if_neg hne, if_pos h]

theorem operandFault_lonePoint : operandFault ['.'] = .malformedNumber ['.'] .notANumeral := rfl

/-- Among symbols alone, the first fault is the diagnosis. -/
theorem firstFault_iff_diagnosis {w : List Char} (h : ∀ c ∈ w, c ∈ symbols) {f : Fault} :
    FirstFault w f ↔ Diagnosis w f := by
  have halphabet : ∀ c ∈ w, c ∈ alphabet := fun c hc => List.mem_append_left _ (h c hc)
  constructor
  · intro hfault
    cases hfault with
    | emptyExpression hspaces => exact .emptyExpression ((onlySpaces_iff_eq_nil h).mp hspaces)
    | invalidCharacter _ hforeign =>
      obtain ⟨u, v, rfl, -, hc⟩ := hforeign
      exact absurd (halphabet _ (by simp)) hc
    | operatorAtEnd _ _ hend => exact .operatorAtEnd h ((operatorAtEnd_iff_firstOrLast h).mp hend)
    | adjacentOperators _ _ hend hadj =>
      exact .adjacentOperators h (mt (operatorAtEnd_iff_firstOrLast h).mpr hend) hadj
    | operand hspaces _ hend hadj hbad =>
      have hjoined : Joined w := ⟨h, mt (onlySpaces_iff_eq_nil h).mpr hspaces,
        mt (operatorAtEnd_iff_firstOrLast h).mpr hend, hadj⟩
      have hleft := hjoined.firstBadOperand_iff.mp hbad
      rcases hleft.malformed with hpoints | rfl
      · rw [operandFault_of_points hpoints]
        exact .tooManyPoints hjoined hleft hpoints
      · exact .lonePoint hjoined hleft
  · have hoperand : ∀ {n}, Joined w → LeftmostMalformed w n → FirstFault w (operandFault n) :=
      fun hw hleft => .operand (mt (onlySpaces_iff_eq_nil h).mp hw.ne_nil) halphabet
        (mt (operatorAtEnd_iff_firstOrLast h).mp hw.not_operatorFirstOrLast)
        hw.not_adjacentOperators (hw.firstBadOperand_iff.mpr hleft)
    intro hdiag
    cases hdiag with
    | invalidCharacter hw _ hc => exact absurd (h _ (by simp [hw])) hc
    | emptyExpression hnil => exact .emptyExpression ((onlySpaces_iff_eq_nil h).mpr hnil)
    | operatorAtEnd _ hend =>
      refine .operatorAtEnd ?_ halphabet ((operatorAtEnd_iff_firstOrLast h).mpr hend)
      rw [onlySpaces_iff_eq_nil h]
      rintro rfl
      simp [OperatorFirstOrLast] at hend
    | adjacentOperators _ hend hadj =>
      refine .adjacentOperators ?_ halphabet (mt (operatorAtEnd_iff_firstOrLast h).mp hend) hadj
      rw [onlySpaces_iff_eq_nil h]
      rintro rfl
      simp [AdjacentOperators] at hadj
    | tooManyPoints hw hleft hpoints => exact operandFault_of_points hpoints ▸ hoperand hw hleft
    | lonePoint hw hleft => exact operandFault_lonePoint ▸ hoperand hw hleft

theorem find?_notMem_symbols_eq_some_iff {w : List Char} {c : Char} :
    w.find? (· ∉ symbols) = some c ↔
      ∃ u v, w = u ++ c :: v ∧ (∀ d ∈ u, d ∈ symbols) ∧ c ∉ symbols := by
  rw [List.find?_eq_some_iff_append]
  constructor
  · rintro ⟨hc, u, v, hw, hu⟩
    exact ⟨u, v, hw, by simpa using hu, by simpa using hc⟩
  · rintro ⟨u, v, hw, hu, hc⟩
    exact ⟨by simpa using hc, u, v, hw, by simpa using hu⟩

theorem evaluate_eq_error_iff_diagnosis {s : List Char} {f : Fault} :
    evaluate s = .error f ↔ Diagnosis (unblank s) f := by
  rw [evaluate_eq_error_iff_check, find?_isForeign_eq_find?_unblank]
  cases hfind : (unblank s).find? (· ∉ symbols) with
  | none =>
    have hsymbols : ∀ c ∈ unblank s, c ∈ symbols := by simpa using hfind
    have hclean : clean s = unblank s :=
      clean_eq_unblank (find?_isForeign_eq_find?_unblank s ▸ hfind)
    rw [hclean, check_eq_error_iff, firstFault_iff_diagnosis hsymbols]
    simp
  | some c =>
    obtain ⟨u, v, hw, hu, hc⟩ := find?_notMem_symbols_eq_some_iff.mp hfind
    have hmem : c ∈ unblank s := by simp [hw]
    constructor
    · rintro (⟨d, hd, rfl⟩ | ⟨hnone, -⟩)
      · cases hd
        exact .invalidCharacter hw hu hc
      · cases hnone
    · intro hdiag
      cases hdiag with
      | invalidCharacter hw' hu' hc' =>
        have hfind' := find?_notMem_symbols_eq_some_iff.mpr ⟨_, _, hw', hu', hc'⟩
        exact Or.inl ⟨_, hfind.symm.trans hfind', rfl⟩
      | emptyExpression hnil => simp [hnil] at hmem
      | operatorAtEnd h => exact absurd (h c hmem) hc
      | adjacentOperators h => exact absurd (h c hmem) hc
      | tooManyPoints h => exact absurd (h.mem_symbols c hmem) hc
      | lonePoint h => exact absurd (h.mem_symbols c hmem) hc

/-- A text without a value is told the fault that it has without its blanks. No operand is missing
then, the counts fit, and behind the check neither the reading nor the value fails. -/
theorem evaluate_diagnoses (s : List Char) :
    (∀ f, evaluate s = .error f ↔ Diagnosis (unblank s) f) ∧
      evaluate s ≠ .error .emptyOperand ∧
      (∀ m n, evaluate s ≠ .error (.countMismatch m n)) ∧
      (check (clean s) = .ok () →
        ∃ t v, Tokens.ofText (clean s) = .ok t ∧ t.value = .ok v) := by
  refine ⟨fun f => evaluate_eq_error_iff_diagnosis, ?_, ?_, ?_⟩
  · intro h
    cases evaluate_eq_error_iff_diagnosis.mp h
  · intro m n h
    cases evaluate_eq_error_iff_diagnosis.mp h
  · intro h
    obtain ⟨t, v, ht, hv, -⟩ := exists_value_of_mem_expression (check_clean_eq_ok_iff.mp h)
    exact ⟨t, v, ht, hv⟩

end FormDesk.Expression
