import FormDesk.Proofs.FullName.Initials

/-! What a written name tells. Its last space stands between the tidy surname and the initials, so
that names are written alike only if they agree in both. -/
namespace FormDesk
open Text NameRule

namespace FullName
variable {n m : FullName} {t left right left' right' : List Char}

/-- The last space of the text stands between the two parts. -/
def CutsAtLastSpace (t left right : List Char) : Prop := t = left ++ ' ' :: right ∧ ' ' ∉ right

theorem CutsAtLastSpace.unique (h : CutsAtLastSpace t left right)
    (h' : CutsAtLastSpace t left' right') : left = left' ∧ right = right' := by
  obtain ⟨rfl, hright⟩ := h
  obtain ⟨heq, hright'⟩ := h'
  -- Were one of the two cuts further to the right, its space would stand behind the other cut.
  rcases List.append_eq_append_iff.mp heq with ⟨gap, hleft, hrest⟩ | ⟨gap, hleft, hrest⟩
  · cases gap with
    | nil => exact ⟨by rw [hleft, List.append_nil], (List.cons.inj hrest).2⟩
    | cons c gap =>
      have hmem : ' ' ∈ right := by rw [(List.cons.inj hrest).2]; simp
      exact absurd hmem hright
  · cases gap with
    | nil => exact ⟨by rw [hleft, List.append_nil], (List.cons.inj hrest).2.symm⟩
    | cons c gap =>
      have hmem : ' ' ∈ right' := by rw [(List.cons.inj hrest).2]; simp
      exact absurd hmem hright'

/-- The first characters of the tidy first name and of the tidy patronymic, if there is one, with a
point behind each. -/
inductive HasInitials (n : FullName) : List Char → Prop
  | first {c : Char} : n.tidy.firstName.head? = some c → n.tidy.patronymic = none →
      HasInitials n [c, '.']
  | both {c d : Char} {p : List Char} : n.tidy.firstName.head? = some c →
      n.tidy.patronymic = some p → p.head? = some d → HasInitials n [c, '.', d, '.']

theorem ne_space_of_head?_tidyPart {s : List Char} {c : Char} (h : (tidyPart s).head? = some c) :
    ' ' ≠ c := by
  rintro rfl
  have hblank : isBlank ' ' = true := by decide
  rw [isBlank_of_head?_tidyPart h] at hblank
  cases hblank

theorem exists_head?_tidyPart {s : List Char} (h : tidyPart s ≠ []) :
    ∃ c, (tidyPart s).head? = some c := by
  obtain ⟨c, rest, hs⟩ := List.exists_cons_of_ne_nil h
  exact ⟨c, by rw [hs, List.head?_cons]⟩

theorem exists_of_patronymic_tidy {p : List Char} (h : n.tidy.patronymic = some p) :
    ∃ given, p = tidyPart given ∧ tidyPart given ≠ [] := by
  obtain ⟨hmap, hne⟩ := Option.filter_eq_some_iff.mp h
  obtain ⟨given, -, rfl⟩ := Option.map_eq_some_iff.mp hmap
  exact ⟨given, rfl, by simpa using hne⟩

/-- A written name is cut at its last space into the tidy surname and the initials. -/
theorem exists_cut_of_format (h : n.format = .ok t) :
    ∃ right, n.HasInitials right ∧ CutsAtLastSpace t n.tidy.surname right := by
  obtain ⟨hsurname, hname⟩ := trim_ne_nil_of_format h
  obtain ⟨c, hc⟩ := exists_head?_tidyPart (mt tidyPart_eq_nil_iff.mp hname)
  have htext : t = trim (tidyPart n.surname ++ ' ' :: (initial (tidyPart n.firstName) ++
      (n.tidy.patronymic.map initial).getD [])) := (check_tidy_of_format h).2
  rw [initial_of_head? hc] at htext
  cases hpatronymic : n.tidy.patronymic with
  | none =>
    rw [hpatronymic] at htext
    refine ⟨[c, '.'], .first hc hpatronymic, ?_, ?_⟩
    · exact htext.trans (trim_tidyPart_append hsurname [' ', c])
    · simp [ne_space_of_head?_tidyPart hc]
  | some p =>
    obtain ⟨given, rfl, hne⟩ := exists_of_patronymic_tidy hpatronymic
    obtain ⟨d, hd⟩ := exists_head?_tidyPart hne
    rw [hpatronymic, Option.map_some, Option.getD_some, initial_of_head? hd] at htext
    refine ⟨[c, '.', d, '.'], .both hc hpatronymic hd, ?_, ?_⟩
    · exact htext.trans (trim_tidyPart_append hsurname [' ', c, '.', d])
    · simp [ne_space_of_head?_tidyPart hc, ne_space_of_head?_tidyPart hd]

/-- Initials are the same if the first characters are, and if both names have a patronymic or none
has. -/
theorem HasInitials.eq_iff (h : n.HasInitials right) (h' : m.HasInitials right') :
    right = right' ↔ n.tidy.firstName.head? = m.tidy.firstName.head? ∧
      n.tidy.patronymic.map List.head? = m.tidy.patronymic.map List.head? := by
  cases h with
  | first hfirst hpatronymic =>
    cases h' with
    | first hfirst' hpatronymic' => simp [hfirst, hpatronymic, hfirst', hpatronymic']
    | both hfirst' hpatronymic' hd' => simp [hpatronymic, hpatronymic']
  | both hfirst hpatronymic hd =>
    cases h' with
    | first hfirst' hpatronymic' => simp [hpatronymic, hpatronymic']
    | both hfirst' hpatronymic' hd' =>
      simp [hfirst, hpatronymic, hd, hfirst', hpatronymic', hd']

/-- Written names hold letters, hyphens, spaces and points only. -/
theorem colon_notMem_of_format (h : n.format = .ok t) : ':' ∉ t := by
  obtain ⟨hcheck, ht⟩ := check_tidy_of_format h
  intro hmem
  rw [ht] at hmem
  rcases exists_part_of_mem_initials hmem with ⟨p, hp, hc⟩ | hspace | hpoint
  · have hallowed := isBroken_characterSet_iff.mp (check_eq_ok_iff.mp hcheck _ p hp) ':' hc
    exact absurd hallowed (by decide)
  · exact absurd hspace (by decide)
  · exact absurd hpoint (by decide)

/-- A written name tells the tidy surname and the initials, and nothing else; and no written name
looks like the text of a fault. -/
theorem format_tells_apart :
    (∀ (n : FullName) (t : List Char), n.format = .ok t →
      ∃ right, n.HasInitials right ∧ CutsAtLastSpace t n.tidy.surname right) ∧
    (∀ (n m : FullName) (t u : List Char), n.format = .ok t → m.format = .ok u →
      (t = u ↔ n.tidy.surname = m.tidy.surname ∧
        n.tidy.firstName.head? = m.tidy.firstName.head? ∧
        n.tidy.patronymic.map List.head? = m.tidy.patronymic.map List.head?)) ∧
    ∀ n : FullName, "Error: ".toList <+: n.answer ↔ ∃ fault, n.format = .error fault := by
  refine ⟨fun n t h => exists_cut_of_format h, ?_, ?_⟩
  · intro n m t u hn hm
    obtain ⟨right, hinitials, hcut⟩ := exists_cut_of_format hn
    obtain ⟨right', hinitials', hcut'⟩ := exists_cut_of_format hm
    rw [← hinitials.eq_iff hinitials']
    constructor
    · rintro rfl
      exact hcut.unique hcut'
    · rintro ⟨hsurname, hright⟩
      rw [hcut.1, hcut'.1, hsurname, hright]
  · intro n
    unfold answer
    cases hformat : n.format with
    | error fault => exact iff_of_true (List.prefix_append _ _) ⟨fault, rfl⟩
    | ok t =>
      have hcolon : ':' ∈ "Error: ".toList := by decide
      refine iff_of_false (fun hstart => ?_) (fun ⟨fault, hfault⟩ => by cases hfault)
      exact colon_notMem_of_format hformat (List.IsPrefix.mem hcolon hstart)

end FullName

end FormDesk
