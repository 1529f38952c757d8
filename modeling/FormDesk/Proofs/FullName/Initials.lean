import FormDesk.Proofs.FullName.Alphabet
import FormDesk.Proofs.FullName.Format
import FormDesk.Proofs.Text.Spaced

/-! The initials of a written name. An initial is the first character of a tidy part: a capital
letter, or a hyphen where the part begins with one. -/
namespace FormDesk
open Text NameRule

namespace FullName
variable {n : FullName} {t : List Char}

theorem upper_hyphen : upper '-' = ['-'] := by decide

theorem find?_notBlank_of_blanks {s : List Char} (h : ∀ c ∈ s, isBlank c = true) :
    s.find? (!isBlank ·) = none := by
  rw [List.find?_eq_none]
  intro c hc
  simp [h c hc]

/-- A tidy part begins with the upper case of the first character that is not blank. -/
theorem head?_tidyPart (s : List Char) :
    (tidyPart s).head? = (s.find? (!isBlank ·)).bind fun c => (upper c).head? := by
  have hspaced : Spaced s (words s) := spaced_words s
  unfold tidyPart
  generalize words s = ws at hspaced
  cases hspaced with
  | nil hblanks =>
    rw [find?_notBlank_of_blanks hblanks]
    rfl
  | @cons g w rest ws hblanks hne hw hhead hrest =>
    obtain ⟨c, w, rfl⟩ := List.exists_cons_of_ne_nil hne
    have hfirst : (g ++ (c :: w ++ rest)).find? (!isBlank ·) = some c := by
      have hc : isBlank c = false := hw c List.mem_cons_self
      rw [List.find?_append, find?_notBlank_of_blanks hblanks, Option.none_or, List.cons_append,
        List.find?_cons, hc]
      rfl
    have hcapital : (capitalize (c :: w)).head? = (upper c).head? :=
      List.head?_append_of_ne_nil _ (upper_ne_nil c)
    have hword : capitalize (c :: w) ≠ [] := List.append_ne_nil_of_left_ne_nil (upper_ne_nil c) _
    rw [hfirst, Option.bind_some, ← hcapital, List.map_cons, unwords]
    cases ws with
    | nil => rw [List.map_nil, List.intercalate_singleton]
    | cons next ws =>
      rw [List.map_cons, List.intercalate_cons_cons, List.append_assoc,
        List.head?_append_of_ne_nil _ hword]

theorem isBlank_of_head?_tidyPart {s : List Char} {d : Char} (h : (tidyPart s).head? = some d) :
    isBlank d = false := by
  rw [head?_tidyPart, Option.bind_eq_some_iff] at h
  obtain ⟨c, hc, hd⟩ := h
  have hblank : isBlank c = false := by simpa using List.find?_some hc
  by_contra hnot
  rw [Bool.not_eq_false] at hnot
  have hsame : d = c :=
    eq_of_mem_case (Or.inl (List.mem_of_mem_head? hd)) (isSeparator_of_isBlank hnot)
  rw [hsame, hblank] at hnot
  cases hnot

theorem tidyPart_eq_nil_iff {s : List Char} : tidyPart s = [] ↔ trim s = [] := by
  rw [← List.head?_eq_none_iff, ← List.head?_eq_none_iff (l := trim s), trim, head?_trimBy,
    head?_tidyPart]
  cases s.find? (!isBlank ·) with
  | none => rfl
  | some c => simp [upper_ne_nil c]

/-- The initial of a part is the first character of its tidy spelling: a hyphen if the part begins
with one, and a capital letter if not. -/
def IsInitialOf (s : List Char) (c : Char) : Prop :=
  (tidyPart s).head? = some c ∧ (((trim s).head? = some '-' ∧ c = '-') ∨
    ((trim s).head? ≠ some '-' ∧ isCapital c = true))

theorem exists_isInitialOf {s : List Char} (hne : trim s ≠ [])
    (hrule : characterSet.isBroken (tidyPart s) = false) : ∃ c, IsInitialOf s c := by
  have hhead : (trim s).head? = s.find? (!isBlank ·) := head?_trimBy isBlank s
  unfold IsInitialOf
  rw [head?_tidyPart, hhead]
  cases hfirst : s.find? (!isBlank ·) with
  | none =>
    rw [hfirst, List.head?_eq_none_iff] at hhead
    exact absurd hhead hne
  | some c =>
    obtain ⟨d, w, hupper⟩ := List.exists_cons_of_ne_nil (upper_ne_nil c)
    have hmem : d ∈ upper c := by rw [hupper]; exact List.mem_cons_self
    have htidy : d ∈ tidyPart s := by
      apply List.mem_of_mem_head?
      rw [head?_tidyPart, hfirst, Option.bind_some, hupper]
      rfl
    refine ⟨d, by rw [Option.bind_some, hupper]; rfl, ?_⟩
    by_cases hhyphen : c = '-'
    · left
      subst hhyphen
      rw [upper_hyphen] at hmem
      exact ⟨rfl, List.mem_singleton.mp hmem⟩
    · right
      -- An allowed character that is no letter is a separator, and such a one is not mapped.
      have hblank : isBlank c = false := by simpa using List.find?_some hfirst
      have hallowed := isBroken_characterSet_iff.mp hrule d htidy
      rcases Bool.or_eq_true_iff.mp hallowed with hletter | hseparator
      · exact ⟨fun heq => hhyphen (Option.some.inj heq), isCapital_of_mem_upper hmem hletter⟩
      · exfalso
        have hsame : d = c := eq_of_mem_case (Or.inl hmem) hseparator
        rw [hsame, isSeparator, hblank, Bool.or_false, beq_iff_eq] at hseparator
        exact hhyphen hseparator

theorem initial_of_head? {s : List Char} {c : Char} (h : s.head? = some c) :
    initial s = [c, '.'] := by
  obtain ⟨w, rfl⟩ := List.head?_eq_some_iff.mp h
  rfl

theorem initial_of_isInitialOf {s : List Char} {c : Char} (h : IsInitialOf s c) :
    initial (tidyPart s) = [c, '.'] := initial_of_head? h.1

theorem trim_ne_nil_of_format (h : n.format = .ok t) :
    trim n.surname ≠ [] ∧ trim n.firstName ≠ [] := by
  have hmissing : ¬ n.format = .error .missingRequired := by
    rw [h]
    intro heq
    cases heq
  rwa [format_eq_missingRequired_iff, not_or] at hmissing

/-- Nothing is trimmed from a tidy part with initials behind it: no blank stands at the ends. -/
theorem trim_tidyPart_append {s : List Char} (hne : trim s ≠ []) (middle : List Char) :
    trim (tidyPart s ++ (middle ++ ['.'])) = tidyPart s ++ (middle ++ ['.']) := by
  have hword : tidyPart s ≠ [] := mt tidyPart_eq_nil_iff.mp hne
  apply IsCore.trimBy_eq
  refine ⟨[], [], by simp, List.forall_mem_nil _, List.forall_mem_nil _, ?_, ?_⟩
  · intro d hd
    rw [List.head?_append_of_ne_nil _ hword] at hd
    rw [isBlank_of_head?_tidyPart hd]
    exact Bool.false_ne_true
  · intro d hd
    have hpoint : isBlank '.' = false := by decide
    rw [← List.append_assoc, List.getLast?_concat, Option.mem_some_iff] at hd
    rw [← hd, hpoint]
    exact Bool.false_ne_true

theorem tidy_patronymic_of_blank (h : ∀ given, n.patronymic = some given → trim given = []) :
    n.tidy.patronymic = none := by
  rw [tidy]
  cases hgiven : n.patronymic with
  | none => rfl
  | some given => simp [Option.filter, tidyPart_eq_nil_iff.mpr (h given hgiven)]

theorem tidy_patronymic_of_word {given : List Char} (hgiven : n.patronymic = some given)
    (hne : trim given ≠ []) : n.tidy.patronymic = some (tidyPart given) := by
  have hword : tidyPart given ≠ [] := mt tidyPart_eq_nil_iff.mp hne
  rw [tidy, hgiven]
  simp [Option.filter, hword]

/-- A written name is the tidy surname, a space, and the initials of the first name and of the
patronymic, if this holds a word. -/
theorem format_writes_initials (h : n.format = .ok t) :
    ∃ first, IsInitialOf n.firstName first ∧
      ((∃ given patronymic, n.patronymic = some given ∧ trim given ≠ [] ∧
          IsInitialOf given patronymic ∧
          t = tidyPart n.surname ++ [' ', first, '.', patronymic, '.']) ∨
        ((∀ given, n.patronymic = some given → trim given = []) ∧
          t = tidyPart n.surname ++ [' ', first, '.'])) := by
  obtain ⟨hcheck, ht⟩ := check_tidy_of_format h
  obtain ⟨hsurname, hname⟩ := trim_ne_nil_of_format h
  have hinitial : ∀ p ∈ n.parts, trim p.2 ≠ [] → ∃ c, IsInitialOf p.2 c := by
    intro p hp hne
    have hpart := mem_parts_tidy hp (mt tidyPart_eq_nil_iff.mp hne)
    exact exists_isInitialOf hne (check_eq_ok_iff.mp hcheck .characterSet _ hpart)
  obtain ⟨first, hfirst⟩ := hinitial (.firstName, n.firstName) (by simp [parts]) hname
  have htext : t = trim (tidyPart n.surname ++ ' ' :: ([first, '.'] ++
      (n.tidy.patronymic.map initial).getD [])) := by
    rw [ht, ← initial_of_isInitialOf hfirst]
    rfl
  refine ⟨first, hfirst, ?_⟩
  by_cases hblank : ∀ given, n.patronymic = some given → trim given = []
  · right
    rw [tidy_patronymic_of_blank hblank] at htext
    exact ⟨hblank, htext.trans (trim_tidyPart_append hsurname [' ', first])⟩
  · left
    push Not at hblank
    obtain ⟨given, hgiven, hne⟩ := hblank
    obtain ⟨second, hsecond⟩ := hinitial (.patronymic, given) (by simp [parts, hgiven]) hne
    rw [tidy_patronymic_of_word hgiven hne, Option.map_some, Option.getD_some,
      initial_of_isInitialOf hsecond] at htext
    exact ⟨given, second, hgiven, hne, hsecond,
      htext.trans (trim_tidyPart_append hsurname [' ', first, '.', second])⟩

/-- A first name that begins with a hyphen, beside a patronymic that does not. -/
theorem format_writes_initials_hyphen : ∃ (n : FullName) (t : List Char), n.format = .ok t ∧
    t = "Ivanov -.P.".toList ∧
    ∃ first, IsInitialOf n.firstName first ∧
      ((∃ given patronymic, n.patronymic = some given ∧ trim given ≠ [] ∧
          IsInitialOf given patronymic ∧
          t = tidyPart n.surname ++ [' ', first, '.', patronymic, '.']) ∨
        ((∀ given, n.patronymic = some given → trim given = []) ∧
          t = tidyPart n.surname ++ [' ', first, '.'])) := by
  have hformat : FullName.format ⟨"ivanov".toList, "-anna".toList, some "petrovna".toList⟩ =
      .ok "Ivanov -.P.".toList := by decide
  exact ⟨_, _, hformat, rfl, format_writes_initials hformat⟩

/-- The hyphen before a first name is its initial, which is no letter. -/
theorem not_forall_capital_initials : ¬ ∀ (n : FullName) (t : List Char), n.format = .ok t →
    ∃ first, isCapital first = true ∧
      ((∃ given patronymic, n.patronymic = some given ∧ trim given ≠ [] ∧
          isCapital patronymic = true ∧
          t = tidyPart n.surname ++ [' ', first, '.', patronymic, '.']) ∨
        ((∀ given, n.patronymic = some given → trim given = []) ∧
          t = tidyPart n.surname ++ [' ', first, '.'])) := by
  intro h
  have hformat : FullName.format ⟨"ivanov".toList, "-anna".toList, none⟩ =
      .ok ("Ivanov".toList ++ [' ', '-', '.']) := by decide
  obtain ⟨first, hcapital, htext⟩ := h _ _ hformat
  rcases htext with ⟨given, patronymic, hgiven, -⟩ | ⟨-, htext⟩
  · cases hgiven
  · have hinitials : [' ', '-', '.'] = [' ', first, '.'] := (List.append_inj' htext rfl).2
    have hfirst : '-' = first := by simpa using hinitials
    rw [← hfirst] at hcapital
    exact absurd hcapital (by decide)

end FullName

end FormDesk
