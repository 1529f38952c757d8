import FormDesk.Proofs.Text.Words

/-! Texts that differ in their blanks alone: the same words in order, with other blanks between and
around them. -/
namespace FormDesk.Text

def Blanks (s : List Char) : Prop := ∀ c ∈ s, isBlank c = true

/-- The text is the words in order, with blanks around them and at least one between neighbours. -/
inductive Spaced : List Char → List (List Char) → Prop
  | nil {g : List Char} : Blanks g → Spaced g []
  | cons {g w s : List Char} {ws : List (List Char)} : Blanks g → w ≠ [] →
      (∀ c ∈ w, isBlank c = false) → (∀ c ∈ s.head?, isBlank c = true) → Spaced s ws →
      Spaced (g ++ (w ++ s)) (w :: ws)

/-- One text is the other with other blanks, none of them between words taken away or put in. -/
def Respaced (s t : List Char) : Prop := ∃ ws, Spaced s ws ∧ Spaced t ws

theorem words_blanks_append {g : List Char} (hg : Blanks g) (s : List Char) :
    words (g ++ s) = words s := by
  induction g with
  | nil => rfl
  | cons c g ih =>
    rw [List.cons_append, words_cons_of_isBlank (hg c List.mem_cons_self)]
    exact ih fun d hd => hg d (List.mem_cons_of_mem c hd)

theorem words_of_notBlank {w : List Char} (hw : ∀ c ∈ w, isBlank c = false) (hne : w ≠ []) :
    words w = [w] := by
  rw [words, List.splitOnP_eq_singleton hw]
  exact List.filter_cons_of_pos (by simpa using hne)

theorem words_blanks {g : List Char} (hg : Blanks g) : words g = [] := by
  have h := words_blanks_append hg []
  rwa [List.append_nil] at h

/-- Words that are written with single spaces between them are read back. -/
theorem words_unwords {ws : List (List Char)}
    (h : ∀ w ∈ ws, w ≠ [] ∧ ∀ c ∈ w, isBlank c = false) : words (unwords ws) = ws := by
  induction ws with
  | nil => rfl
  | cons w ws ih =>
    obtain ⟨⟨hne, hw⟩, hws⟩ := List.forall_mem_cons.mp h
    cases ws with
    | nil => rw [unwords, List.intercalate_singleton, words_of_notBlank hw hne]
    | cons v ws =>
      have hspace : isBlank ' ' = true := by decide
      calc words (unwords (w :: v :: ws))
          = words (w ++ ' ' :: unwords (v :: ws)) := by
            rw [unwords, List.intercalate_cons_cons, ← unwords, List.append_assoc,
              List.singleton_append]
        _ = w :: v :: ws := by
            rw [words_append_of_isBlank hspace, words_of_notBlank hw hne, ih hws,
              List.singleton_append]

theorem Spaced.words_eq {s : List Char} {ws : List (List Char)} (h : Spaced s ws) :
    words s = ws := by
  induction h with
  | nil hg => exact words_blanks hg
  | @cons g w s ws hg hne hw hhead _ ih =>
    rw [words_blanks_append hg]
    cases s with
    | nil =>
      rw [List.append_nil, words_of_notBlank hw hne, ← ih]
      rfl
    | cons b s =>
      have hb : isBlank b = true := hhead b rfl
      rw [words_append_of_isBlank hb, words_of_notBlank hw hne, ← ih, words_cons_of_isBlank hb]
      rfl

theorem Spaced.blank_cons {s : List Char} {ws : List (List Char)} (h : Spaced s ws) {c : Char}
    (hc : isBlank c = true) : Spaced (c :: s) ws := by
  cases h with
  | nil hg => exact .nil (List.forall_mem_cons.mpr ⟨hc, hg⟩)
  | cons hg hne hw hhead hs =>
    rw [← List.cons_append]
    exact .cons (List.forall_mem_cons.mpr ⟨hc, hg⟩) hne hw hhead hs

theorem spaced_words (s : List Char) : Spaced s (words s) := by
  induction s using cutInduction (p := isBlank) with
  | part w hw =>
    by_cases hne : w = []
    · subst hne
      exact .nil nofun
    · rw [words_of_notBlank hw hne]
      simpa using Spaced.cons (g := []) (s := []) nofun hne hw nofun (.nil nofun)
  | step w c t hw hc ih =>
    rw [words_append_of_isBlank hc]
    by_cases hne : w = []
    · subst hne
      exact ih.blank_cons hc
    · rw [words_of_notBlank hw hne, List.singleton_append]
      exact .cons (g := []) nofun hne hw (by simpa using hc) (ih.blank_cons hc)

theorem spaced_iff_words {s : List Char} {ws : List (List Char)} : Spaced s ws ↔ words s = ws :=
  ⟨Spaced.words_eq, fun h => h ▸ spaced_words s⟩

theorem respaced_iff_words {s t : List Char} : Respaced s t ↔ words s = words t := by
  simp only [Respaced, spaced_iff_words, exists_eq_left', eq_comm (a := words t)]

example : Respaced " 2 +\t 3".toList "2\u00A0+ 3\r".toList := respaced_iff_words.mpr (by decide)

end FormDesk.Text
