import FormDesk.Proofs.Json.Number
import FormDesk.Proofs.Text.Words

/-! The text of a JSON object is one line, whatever its strings hold. -/
namespace FormDesk.Json
open Text

theorem digitChar_ne_newline (n : Nat) : Nat.digitChar n ≠ '\n' := by
  by_cases h : n < 16
  · have hall : (List.range 16).all (Nat.digitChar · != '\n') = true := by decide
    exact bne_iff_ne.mp (List.all_eq_true.mp hall n (List.mem_range.mpr h))
  · rw [Nat.digitChar_eq_star.mpr (by omega)]
    decide

theorem newline_notMem_escape (c : Char) : '\n' ∉ escape c := by
  by_cases hc : c = '\n'
  · rw [hc]
    decide
  · unfold escape
    split
    case h_8 =>
      split_ifs
      · simp [unicodeEscape, (digitChar_ne_newline _).symm]
      · simpa using Ne.symm hc
    all_goals decide

theorem newline_notMem_quote (s : List Char) : '\n' ∉ quote s := by
  simp [quote, newline_notMem_escape]

theorem newline_notMem_scalarText (value : Scalar) : '\n' ∉ value.text := by
  cases value with
  | boolean b => cases b <;> decide
  | number v =>
    cases v with
    | nan => exact (by decide : '\n' ∉ "null".toList)
    | infinity negative => exact (by decide : '\n' ∉ "null".toList)
    | finite negative m =>
      intro h
      have hchar := List.all_eq_true.mp (all_isNumberChar_numberText negative m) '\n' h
      cases hchar
  | string s => exact newline_notMem_quote s

theorem newline_notMem_text (o : Object) : '\n' ∉ o.text := by
  intro h
  simp only [Object.text, List.mem_append, List.mem_cons, List.not_mem_nil, or_false] at h
  rcases h with (hopen | hfields) | hclose
  · exact absurd hopen (by decide)
  · rcases mem_or_of_mem_intercalate hfields with hcomma | ⟨field, hfield, hmem⟩
    · exact absurd hcomma (by decide)
    · obtain ⟨⟨key, value⟩, -, rfl⟩ := List.mem_map.mp hfield
      simp only [List.mem_append, List.mem_cons] at hmem
      rcases hmem with hkey | hcolon | hvalue
      · exact newline_notMem_quote key hkey
      · exact absurd hcolon (by decide)
      · exact newline_notMem_scalarText value hvalue
  · exact absurd hclose (by decide)

end FormDesk.Json
