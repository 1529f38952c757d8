import FormDesk.Proofs.Toml.Document

/-! Plain documents: headers of one bare key, and under them lines of one bare key and one token,
with a blank line before each header but the first. They are read as they were meant. -/
namespace FormDesk.Toml

/-- A key that is written without quotes. -/
structure BareKey where
  key : Key
  ne_nil : key ≠ []
  isBareKey : ∀ c ∈ key, isBareKey c = true

/-- A key and the token of a value, for one line. -/
structure PlainLine where
  key : BareKey
  token : List Char
  value : Value
  ne_nil : token ≠ []
  isTokenChar : ∀ c ∈ token, isTokenChar c = true
  return_notMem : '\r' ∉ token
  ofToken?_eq : Value.ofToken? token = some value

structure PlainSection where
  key : BareKey
  lines : List PlainLine

namespace PlainLine

def text (l : PlainLine) : List Char := l.key.key ++ " = ".toList ++ l.token ++ ['\n']

def definition (l : PlainLine) : Definition := ([l.key.key], l.value)

end PlainLine

namespace PlainSection

def text (p : PlainSection) : List Char :=
  '[' :: p.key.key ++ "]\n".toList ++ p.lines.flatMap PlainLine.text

def toSection (p : PlainSection) : Section :=
  ⟨.table [p.key.key], p.lines.map PlainLine.definition⟩

/-- The text of sections with a blank line between two of them. -/
def document : List PlainSection → List Char
  | [] => []
  | [p] => p.text
  | p :: q :: ps => p.text ++ '\n' :: document (q :: ps)

end PlainSection

section
variable {c : Char} {s : List Char}

theorem isTokenChar_of_isBareKey (h : isBareKey c = true) : isTokenChar c = true := by
  have hsigns : (" \t\n\"'#=,[]\x7b\x7d".toList.all fun d => !isBareKey d) = true := rfl
  unfold isTokenChar
  by_contra hc
  simp only [Bool.not_eq_true, Bool.not_eq_false', List.contains_iff_mem] at hc
  have hnot := List.all_eq_true.mp hsigns c hc
  rw [h] at hnot
  cases hnot

theorem ne_of_isTokenChar (h : isTokenChar c = true) {d : Char} (hd : isTokenChar d = false) :
    c ≠ d := by
  rintro rfl
  rw [hd] at h
  cases h

theorem isSpace_of_isTokenChar (h : isTokenChar c = true) : isSpace c = false :=
  Bool.or_eq_false_iff.mpr
    ⟨beq_false_of_ne (ne_of_isTokenChar h rfl), beq_false_of_ne (ne_of_isTokenChar h rfl)⟩

theorem BareKey.exists_cons (k : BareKey) :
    ∃ c key, k.key = c :: key ∧ isTokenChar c = true := by
  obtain ⟨c, key, hkey⟩ := List.exists_cons_of_ne_nil k.ne_nil
  have hc : c ∈ k.key := hkey ▸ List.mem_cons_self
  exact ⟨c, key, hkey, isTokenChar_of_isBareKey (k.isBareKey c hc)⟩

/-- Gaps are spaces, line ends and comments. -/
theorem skipGaps_cons (hspace : isSpace c = false) (hnewline : c ≠ '\n') (hcomment : c ≠ '#') :
    skipGaps (c :: s) = c :: s := by
  have hspaces : skipSpaces (c :: s) = c :: s := List.dropWhile_cons_of_neg (by simp [hspace])
  have hcommented : skipComment (c :: s) = c :: s := by
    unfold skipComment
    split
    · next heq => exact absurd (List.cons.inj heq).1 hcomment
    · rfl
  unfold skipGaps
  rw [List.length_cons, skipLines, hspaces, hcommented]
  split
  · next heq => exact absurd (List.cons.inj heq).1 hnewline
  · rfl

theorem skipGaps_newline_cons : skipGaps ('\n' :: s) = skipGaps s := rfl

theorem simpleKey_bare (k : BareKey) (hc : isBareKey c = false) :
    simpleKey (k.key ++ c :: s) = some (k.key, c :: s) := by
  have hread : (k.key ++ c :: s).takeWhile isBareKey = k.key := by
    rw [List.takeWhile_append_of_pos k.isBareKey, List.takeWhile_cons_of_neg (by simp [hc]),
      List.append_nil]
  have hrest : (k.key ++ c :: s).dropWhile isBareKey = c :: s := by
    rw [List.dropWhile_append_of_pos k.isBareKey, List.dropWhile_cons_of_neg (by simp [hc])]
  have hempty : k.key.isEmpty = false := List.isEmpty_eq_false_iff.mpr k.ne_nil
  obtain ⟨d, key, hkey, hd⟩ := k.exists_cons
  unfold simpleKey
  split
  · next heq =>
    rw [hkey] at heq
    exact absurd (List.cons.inj heq).1 (ne_of_isTokenChar hd rfl)
  · next heq =>
    rw [hkey] at heq
    exact absurd (List.cons.inj heq).1 (ne_of_isTokenChar hd rfl)
  · simp [hread, hrest, hempty]

/-- A bare key is a path of its own when no point follows it. -/
theorem dottedKey_bare (k : BareKey) (n : Nat) {t : List Char} (hc : isBareKey c = false)
    (hs : skipSpaces (c :: s) = t) (ht : t.head? ≠ some '.') :
    dottedKey (n + 1) (k.key ++ c :: s) = some ([k.key], t) := by
  rw [dottedKey, simpleKey_bare k hc]
  simp only [Option.bind_eq_bind, Option.bind_some, hs]
  split
  · exact absurd rfl ht
  · rfl

/-- A token ends where its line does. -/
theorem value_token (l : PlainLine) (depth : Nat) :
    Toml.value depth (l.token ++ '\n' :: s) = some (l.value, '\n' :: s) := by
  have hread : (l.token ++ '\n' :: s).takeWhile isTokenChar = l.token := by
    rw [List.takeWhile_append_of_pos l.isTokenChar, List.takeWhile_cons_of_neg (by decide),
      List.append_nil]
  have hrest : (l.token ++ '\n' :: s).dropWhile isTokenChar = '\n' :: s := by
    rw [List.dropWhile_append_of_pos l.isTokenChar, List.dropWhile_cons_of_neg (by decide)]
  have htoken : token (l.token ++ '\n' :: s) = some (l.value, '\n' :: s) := by
    unfold token
    simp only [hread, hrest, l.ofToken?_eq, Option.map_some]
    cases isDate l.token <;> rfl
  obtain ⟨c, t, ht⟩ := List.exists_cons_of_ne_nil l.ne_nil
  have hc : isTokenChar c = true := l.isTokenChar c (ht ▸ List.mem_cons_self)
  rw [ht, List.cons_append] at htoken ⊢
  rw [value.eq_def]
  split
  · next heq => exact absurd (List.cons.inj heq).1 (ne_of_isTokenChar hc rfl)
  · next heq => exact absurd (List.cons.inj heq).1 (ne_of_isTokenChar hc rfl)
  · next heq => exact absurd (List.cons.inj heq).1 (ne_of_isTokenChar hc rfl)
  · next heq => exact absurd (List.cons.inj heq).1 (ne_of_isTokenChar hc rfl)
  · exact htoken

theorem PlainLine.text_append (l : PlainLine) (s : List Char) :
    l.text ++ s = l.key.key ++ ' ' :: '=' :: ' ' :: (l.token ++ '\n' :: s) := by
  simp [PlainLine.text]

theorem skipSpaces_space_cons (hspace : isSpace c = false) :
    skipSpaces (' ' :: c :: s) = c :: s := by
  rw [skipSpaces, List.dropWhile_cons_of_pos (by decide),
    List.dropWhile_cons_of_neg (by simp [hspace])]

theorem definition_text (l : PlainLine) (depth : Nat) :
    Toml.definition skipSpaces (Toml.value depth) (l.text ++ s) =
      some (l.definition, '\n' :: s) := by
  obtain ⟨c, t, ht⟩ := List.exists_cons_of_ne_nil l.ne_nil
  have hc : isTokenChar c = true := l.isTokenChar c (ht ▸ List.mem_cons_self)
  have hequals : skipSpaces (' ' :: '=' :: ' ' :: (l.token ++ '\n' :: s)) =
      '=' :: ' ' :: (l.token ++ '\n' :: s) := skipSpaces_space_cons rfl
  have htoken : skipSpaces (' ' :: (l.token ++ '\n' :: s)) = l.token ++ '\n' :: s := by
    rw [ht]
    exact skipSpaces_space_cons (isSpace_of_isTokenChar hc)
  have hkey : dottedKey nestingLimit (l.text ++ s) =
      some ([l.key.key], '=' :: ' ' :: (l.token ++ '\n' :: s)) := by
    rw [PlainLine.text_append]
    exact dottedKey_bare l.key 79 rfl hequals (by simp)
  have hsign (t : List Char) : skipSpaces ('=' :: t) = '=' :: t := rfl
  unfold Toml.definition
  simp only [hkey, hsign, htoken, value_token, Option.bind_eq_bind, Option.bind_some]
  rfl

/-- Lines are read one by one, up to a header or the end. -/
theorem definitions_lines (ls : List PlainLine) {n : Nat}
    (hs : skipGaps s = [] ∨ ∃ t, skipGaps s = '[' :: t)
    (hn : (ls.flatMap PlainLine.text ++ s).length ≤ n) :
    definitions n (ls.flatMap PlainLine.text ++ s) =
      some (ls.map PlainLine.definition, skipGaps s) := by
  induction ls generalizing n with
  | nil =>
    rw [List.flatMap_nil, List.nil_append] at hn ⊢
    cases n with
    | zero =>
      obtain rfl := List.length_eq_zero_iff.mp (Nat.le_zero.mp hn)
      rfl
    | succ n =>
      rw [definitions]
      rcases hs with hs | ⟨t, hs⟩ <;> simp only [hs, List.map_nil]
  | cons l ls ih =>
    rw [List.flatMap_cons, List.append_assoc, List.map_cons] at *
    obtain ⟨c, key, hkey, hc⟩ := l.key.exists_cons
    generalize hrest : ls.flatMap PlainLine.text ++ s = rest at *
    cases n with
    | zero => simp [PlainLine.text_append] at hn
    | succ n =>
      have hlength : rest.length ≤ n := by
        rw [PlainLine.text_append] at hn
        simp only [List.length_append, List.length_cons] at hn
        omega
      have hgaps : skipGaps (l.text ++ rest) = l.text ++ rest := by
        rw [PlainLine.text_append, hkey, List.cons_append]
        exact skipGaps_cons (isSpace_of_isTokenChar hc) (ne_of_isTokenChar hc rfl)
          (ne_of_isTokenChar hc rfl)
      have hend : lineEnd? ('\n' :: rest) = some rest := rfl
      rw [definitions, hgaps]
      split
      · next heq => simp [PlainLine.text_append] at heq
      · next heq =>
        rw [PlainLine.text_append, hkey] at heq
        exact absurd (List.cons.inj heq).1 (ne_of_isTokenChar hc rfl)
      · simp only [definition_text, hend, ih hlength, Option.bind_eq_bind, Option.bind_some]
        rfl

theorem header_text (k : BareKey) :
    header ('[' :: k.key ++ "]\n".toList ++ s) = some (.table [k.key], s) := by
  have hkey : dottedKey nestingLimit (k.key ++ ']' :: '\n' :: s) =
      some ([k.key], ']' :: '\n' :: s) := dottedKey_bare k 79 rfl rfl (by simp)
  have hend : lineEnd? ('\n' :: s) = some s := rfl
  obtain ⟨c, key, hck, hc⟩ := k.exists_cons
  have hspaces : skipSpaces (k.key ++ ']' :: '\n' :: s) = k.key ++ ']' :: '\n' :: s := by
    rw [hck]
    exact List.dropWhile_cons_of_neg (by simp [isSpace_of_isTokenChar hc])
  have htext : '[' :: k.key ++ "]\n".toList ++ s = '[' :: (k.key ++ ']' :: '\n' :: s) := by simp
  rw [htext]
  unfold header
  split
  · next heq =>
    rw [hck] at heq
    exact absurd (List.cons.inj (List.cons.inj heq).2).1 (ne_of_isTokenChar hc rfl)
  · next heq =>
    obtain rfl := (List.cons.inj heq).2
    simp only [hspaces, hkey, hend, Option.bind_eq_bind, Option.bind_some]
    rfl
  · next hnot => exact absurd rfl (hnot _)

theorem sections_text (p : PlainSection) (n : Nat)
    (hs : skipGaps s = [] ∨ ∃ t, skipGaps s = '[' :: t) :
    sections (n + 1) (p.text ++ s) = (sections n (skipGaps s)).map (p.toSection :: ·) := by
  have hheader : header (p.text ++ s) =
      some (.table [p.key.key], p.lines.flatMap PlainLine.text ++ s) := by
    rw [PlainSection.text, List.append_assoc, header_text]
  have hdefinitions := definitions_lines p.lines hs (Nat.le_refl _)
  have htext : ∃ t, p.text ++ s = '[' :: t := ⟨_, rfl⟩
  obtain ⟨t, ht⟩ := htext
  rw [ht] at hheader ⊢
  rw [sections, hheader]
  · simp only [hdefinitions, Option.bind_eq_bind, Option.bind_some]
    cases sections n (skipGaps s) <;> rfl
  · exact nofun

theorem PlainSection.exists_document_cons (p : PlainSection) (ps : List PlainSection) :
    ∃ t, document (p :: ps) = '[' :: t := by
  cases ps <;> exact ⟨_, rfl⟩

/-- Plain sections are read one by one. -/
theorem sections_document (ps : List PlainSection) {n : Nat}
    (hn : (PlainSection.document ps).length ≤ n) :
    sections n (PlainSection.document ps) = some (ps.map PlainSection.toSection) := by
  induction ps using PlainSection.document.induct generalizing n with
  | case1 => cases n <;> rfl
  | case2 p =>
    cases n with
    | zero => cases hn
    | succ n =>
      have hread := sections_text p n (Or.inl rfl : skipGaps [] = [] ∨ _)
      rw [List.append_nil] at hread
      rw [PlainSection.document, hread]
      cases n <;> rfl
  | case3 p q ps ih =>
    obtain ⟨t, ht⟩ := q.exists_document_cons ps
    have hgaps : skipGaps ('\n' :: PlainSection.document (q :: ps)) =
        PlainSection.document (q :: ps) := by
      rw [skipGaps_newline_cons, ht]
      exact skipGaps_cons rfl (by decide) (by decide)
    cases n with
    | zero => cases hn
    | succ n =>
      have hlength : (PlainSection.document (q :: ps)).length ≤ n := by
        rw [PlainSection.document, PlainSection.text] at hn
        simp only [List.length_append, List.length_cons] at hn
        omega
      rw [PlainSection.document, sections_text p n (Or.inr ⟨t, hgaps.trans ht⟩), hgaps, ih hlength]
      rfl

theorem unifyLineEnds_of_notMem (h : '\r' ∉ s) : unifyLineEnds s = some s := by
  induction s with
  | nil => rfl
  | cons c s ih =>
    have hc : c ≠ '\r' := fun heq => h (heq ▸ List.mem_cons_self)
    have hs : '\r' ∉ s := fun hmem => h (List.mem_cons_of_mem c hmem)
    rw [unifyLineEnds]
    · rw [if_neg hc, ih hs]
      rfl
    · rintro t rfl -
      exact hc rfl

theorem BareKey.return_notMem (k : BareKey) : '\r' ∉ k.key := fun h =>
  absurd (k.isBareKey _ h) (by decide)

theorem PlainSection.return_notMem_text (p : PlainSection) : '\r' ∉ p.text := by
  have hline (l : PlainLine) : '\r' ∉ l.text := by
    simp [PlainLine.text, l.key.return_notMem, l.return_notMem]
  simp [PlainSection.text, p.key.return_notMem, hline]

theorem PlainSection.return_notMem_document (ps : List PlainSection) : '\r' ∉ document ps := by
  induction ps using PlainSection.document.induct with
  | case1 => exact List.not_mem_nil
  | case2 p => exact p.return_notMem_text
  | case3 p q ps ih =>
    simp [document, p.return_notMem_text, ih]

/-- The text of plain sections is a document with these sections. -/
theorem Document.ofText?_document (ps : List PlainSection) :
    ofText? (PlainSection.document ps) = some ⟨[], ps.map PlainSection.toSection⟩ := by
  have hmark : dropMark (PlainSection.document ps) = PlainSection.document ps := by
    cases ps with
    | nil => rfl
    | cons p ps =>
      obtain ⟨t, ht⟩ := p.exists_document_cons ps
      rw [ht]
      rfl
  have hroot : definitions (PlainSection.document ps).length (PlainSection.document ps) =
      some ([], PlainSection.document ps) := by
    cases ps with
    | nil => rfl
    | cons p ps =>
      obtain ⟨t, ht⟩ := p.exists_document_cons ps
      have hgaps : skipGaps ('[' :: t) = '[' :: t := skipGaps_cons rfl (by decide) (by decide)
      rw [ht, List.length_cons, definitions, hgaps]
      rfl
  unfold ofText?
  simp only [hmark, unifyLineEnds_of_notMem (PlainSection.return_notMem_document ps), hroot,
    sections_document ps (Nat.le_refl _), Option.bind_eq_bind, Option.bind_some]
  rfl

end

end FormDesk.Toml
