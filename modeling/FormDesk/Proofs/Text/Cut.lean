import Mathlib.Data.List.Basic

/-! Lists cut at the members of a class. A list holds no member, or begins with a part that holds
none and a member: the induction `cutInduction` follows this form. -/
namespace FormDesk.Text
variable {α : Type} {p : α → Bool}

theorem exists_append_cons {s : List α} (h : ¬ ∀ c ∈ s, p c = false) :
    ∃ u o t, (∀ c ∈ u, p c = false) ∧ p o = true ∧ s = u ++ o :: t := by
  induction s with
  | nil => exact absurd (fun c hc => absurd hc List.not_mem_nil) h
  | cons c s ih =>
    by_cases hc : p c = true
    · exact ⟨[], c, s, by simp, hc, rfl⟩
    · have hc : p c = false := by simpa using hc
      have hs : ¬ ∀ c ∈ s, p c = false := fun hs => h (List.forall_mem_cons.mpr ⟨hc, hs⟩)
      obtain ⟨u, o, t, hu, ho, rfl⟩ := ih hs
      exact ⟨c :: u, o, t, List.forall_mem_cons.mpr ⟨hc, hu⟩, ho, rfl⟩

/-- A list holds no member, or begins with a part that holds none and a member. -/
@[elab_as_elim] theorem cutInduction {motive : List α → Prop}
    (part : ∀ u, (∀ c ∈ u, p c = false) → motive u)
    (step : ∀ u o t, (∀ c ∈ u, p c = false) → p o = true → motive t → motive (u ++ o :: t))
    (s : List α) : motive s := by
  by_cases h : ∀ c ∈ s, p c = false
  · exact part s h
  · obtain ⟨u, o, t, hu, ho, hs⟩ := exists_append_cons h
    have : t.length < s.length := by simp only [hs, List.length_append, List.length_cons]; omega
    rw [hs]
    exact step u o t hu ho (cutInduction part step t)
termination_by s.length

theorem splitOnP_part_cons {u : List α} (hu : ∀ c ∈ u, p c = false) {o : α} (ho : p o = true)
    (t : List α) : (u ++ o :: t).splitOnP p = u :: t.splitOnP p := by
  rw [List.splitOnP_append_cons u t ho, List.splitOnP_eq_singleton hu, List.singleton_append]

theorem eq_false_of_mem_splitOnP {s w : List α} (h : w ∈ s.splitOnP p) : ∀ c ∈ w, p c = false := by
  induction s using cutInduction (p := p) with
  | part s hs =>
    rw [List.splitOnP_eq_singleton hs, List.mem_singleton] at h
    exact h ▸ hs
  | step u o t hu ho ih =>
    rw [splitOnP_part_cons hu ho, List.mem_cons] at h
    rcases h with rfl | h
    · exact hu
    · exact ih h

theorem mem_of_mem_splitOnP {s w : List α} (h : w ∈ s.splitOnP p) {c : α} (hc : c ∈ w) :
    c ∈ s := by
  induction s using cutInduction (p := p) with
  | part s hs =>
    rw [List.splitOnP_eq_singleton hs, List.mem_singleton] at h
    exact h ▸ hc
  | step u o t hu ho ih =>
    rw [splitOnP_part_cons hu ho, List.mem_cons] at h
    rcases h with rfl | h
    · exact List.mem_append_left _ hc
    · exact List.mem_append_right _ (List.mem_cons_of_mem o (ih h))

theorem exists_mem_splitOnP_or {s : List α} {c : α} (h : c ∈ s) :
    (∃ w ∈ s.splitOnP p, c ∈ w) ∨ p c = true := by
  induction s using cutInduction (p := p) with
  | part s hs => simp [List.splitOnP_eq_singleton hs, h]
  | step u o t hu ho ih =>
    rw [splitOnP_part_cons hu ho, List.exists_mem_cons_iff, or_assoc]
    rcases List.mem_append.mp h with h | h
    · exact Or.inl h
    · rcases List.mem_cons.mp h with rfl | h
      · exact Or.inr (Or.inr ho)
      · exact Or.inr (ih h)

end FormDesk.Text
