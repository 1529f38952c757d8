import FormDesk.Text.Basic
import Mathlib.Data.List.Basic
import Mathlib.Data.List.DropRight

/-! What trimming leaves: the one part of a text that starts and ends outside a class, with
members of the class alone before and behind it. -/
namespace FormDesk.Text

/-- The text `s` is `n` between members of a class, and no member stands at an end of `n`. -/
def IsCore (p : Char → Bool) (s n : List Char) : Prop :=
  ∃ a b, s = a ++ n ++ b ∧ (∀ c ∈ a, p c) ∧ (∀ c ∈ b, p c) ∧
    (∀ c ∈ n.head?, ¬ p c) ∧ ∀ c ∈ n.getLast?, ¬ p c

theorem IsCore.mem {p : Char → Bool} {s n : List Char} (h : IsCore p s n) {c : Char}
    (hc : c ∈ n) : c ∈ s := by
  obtain ⟨a, b, rfl, -⟩ := h
  simp [hc]

private theorem dropWhile_of_head? {p : Char → Bool} {s : List Char}
    (h : ∀ c ∈ s.head?, ¬ p c) : s.dropWhile p = s := by
  cases s with
  | nil => rfl
  | cons c s => exact List.dropWhile_cons_of_neg (h c rfl)

private theorem not_of_mem_head?_dropWhile {p : Char → Bool} {s : List Char} :
    ∀ c ∈ (s.dropWhile p).head?, ¬ p c := by
  intro c hc
  have h := List.head?_dropWhile_not p s
  rw [Option.mem_def.mp hc] at h
  simpa using h

/-- Trimming finds the core. -/
theorem isCore_trimBy (p : Char → Bool) (s : List Char) : IsCore p s (trimBy p s) := by
  have hs : s = s.takeWhile p ++ s.dropWhile p := List.takeWhile_append_dropWhile.symm
  have hhead : ∀ c ∈ (s.dropWhile p).head?, ¬ p c := not_of_mem_head?_dropWhile
  unfold trimBy
  generalize s.dropWhile p = r at hs hhead
  have hr : r = (r.reverse.dropWhile p).reverse ++ (r.reverse.takeWhile p).reverse := by
    rw [← List.reverse_append, List.takeWhile_append_dropWhile, List.reverse_reverse]
  have hlast : ∀ c ∈ (r.reverse.dropWhile p).reverse.getLast?, ¬ p c := by
    rw [List.getLast?_reverse]
    exact not_of_mem_head?_dropWhile
  generalize (r.reverse.dropWhile p).reverse = n at hr hlast
  refine ⟨s.takeWhile p, (r.reverse.takeWhile p).reverse, ?_, ?_, ?_, ?_, hlast⟩
  · rw [List.append_assoc, ← hr]
    exact hs
  · exact fun c hc => List.mem_takeWhile_imp hc
  · exact fun c hc => List.mem_takeWhile_imp (List.mem_reverse.mp hc)
  · intro c hc
    refine hhead c ?_
    rw [hr]
    exact List.mem_head?_append_of_mem_head? hc

theorem IsCore.trimBy_eq {p : Char → Bool} {s n : List Char} (h : IsCore p s n) :
    trimBy p s = n := by
  obtain ⟨a, b, rfl, ha, hb, hhead, hlast⟩ := h
  have hbr : ∀ c ∈ b.reverse, p c := fun c hc => hb c (List.mem_reverse.mp hc)
  have hdrop : (a ++ n ++ b).dropWhile p = if n = [] then [] else n ++ b := by
    rw [List.append_assoc, List.dropWhile_append_of_pos ha]
    split
    · next hn =>
      subst hn
      exact List.dropWhile_eq_nil_iff.mpr hb
    · next hn =>
      refine dropWhile_of_head? fun c hc => hhead c ?_
      rwa [List.head?_append_of_ne_nil _ hn] at hc
  unfold trimBy
  rw [hdrop]
  split
  · next hn => simp [hn]
  · rw [List.reverse_append, List.dropWhile_append_of_pos hbr, dropWhile_of_head?,
      List.reverse_reverse]
    rwa [List.head?_reverse]

theorem trimBy_eq_self {p : Char → Bool} {s : List Char} (h : ∀ c ∈ s, p c = false) :
    trimBy p s = s := by
  refine IsCore.trimBy_eq ⟨[], [], by simp, by simp, by simp, ?_, ?_⟩
  · intro c hc
    simp [h c (List.mem_of_mem_head? hc)]
  · intro c hc
    simp [h c (List.mem_of_mem_getLast? hc)]

theorem isCore_iff_of_forall {p : Char → Bool} {s n : List Char} (h : ∀ c ∈ s, p c = false) :
    IsCore p s n ↔ n = s := by
  constructor
  · intro hcore
    rw [← hcore.trimBy_eq, trimBy_eq_self h]
  · rintro rfl
    have hcore := isCore_trimBy p n
    rwa [trimBy_eq_self h] at hcore

theorem head?_trimBy (p : Char → Bool) (s : List Char) :
    (trimBy p s).head? = s.find? (!p ·) := by
  obtain ⟨a, b, hs, ha, hb, hhead, -⟩ := isCore_trimBy p s
  generalize trimBy p s = n at hs hhead
  subst hs
  have hfind : ∀ t : List Char, (∀ c ∈ t, p c) → t.find? (!p ·) = none := by
    intro t ht
    simpa using ht
  cases n with
  | nil => simp [List.find?_append, hfind a ha, hfind b hb]
  | cons c n =>
    have hc : p c = false := by simpa using hhead c rfl
    simp [List.find?_append, hfind a ha, hc]

theorem getLast?_trimBy (p : Char → Bool) (s : List Char) :
    (trimBy p s).getLast? = s.reverse.find? (!p ·) := by
  obtain ⟨a, b, hs, ha, hb, hhead, hlast⟩ := isCore_trimBy p s
  have hcore : IsCore p s.reverse (trimBy p s).reverse := by
    refine ⟨b.reverse, a.reverse, ?_, ?_, ?_, ?_, ?_⟩
    · conv_lhs => rw [hs]
      simp
    · simpa using hb
    · simpa using ha
    · simpa using hlast
    · simpa using hhead
  rw [← head?_trimBy, hcore.trimBy_eq, List.head?_reverse]

end FormDesk.Text
