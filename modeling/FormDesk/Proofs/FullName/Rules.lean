import FormDesk.FullName.Format
import Mathlib.Data.List.Basic
import Mathlib.Data.Prod.Lex

/-! The fault of a name is its least violation: rules come before parts. The check goes through
rules and parts in ascending order, so that the first violation it meets is the least one. -/
namespace FormDesk
open Text

/-- In a list that ascends, the first element with a property is the least one. -/
theorem find?_eq_some_iff_least {α β : Type} [Preorder β] {rank : α → β} {p : α → Bool} {a : α}
    {l : List α} (hascends : l.Pairwise fun b c => rank b < rank c) :
    l.find? p = some a ↔ a ∈ l ∧ p a = true ∧ ∀ b ∈ l, p b = true → rank a ≤ rank b := by
  induction l with
  | nil => simp
  | cons b l ih =>
    obtain ⟨hfirst, hascends⟩ := List.pairwise_cons.mp hascends
    by_cases hb : p b = true
    · rw [List.find?_cons_of_pos hb, Option.some_inj]
      constructor
      · rintro rfl
        refine ⟨List.mem_cons_self, hb, List.forall_mem_cons.mpr ⟨fun _ => le_rfl, ?_⟩⟩
        exact fun c hc _ => (hfirst c hc).le
      · rintro ⟨ha, -, hleast⟩
        rcases List.mem_cons.mp ha with rfl | ha
        · rfl
        · exact absurd (hleast b List.mem_cons_self hb) (hfirst a ha).not_ge
    · rw [List.find?_cons_of_neg hb, ih hascends, List.forall_mem_cons]
      constructor
      · rintro ⟨ha, hp, hleast⟩
        exact ⟨List.mem_cons_of_mem b ha, hp, fun h => absurd h hb, hleast⟩
      · rintro ⟨ha, hp, -, hleast⟩
        rcases List.mem_cons.mp ha with rfl | ha
        · exact absurd hp hb
        · exact ⟨ha, hp, hleast⟩

/-- The order in which the parts of a name are checked. -/
def NamePart.rank : NamePart → Nat
  | .surname => 0
  | .firstName => 1
  | .patronymic => 2

namespace NameRule
variable {rule : NameRule} {s : List Char}

/-- The order in which the rules are applied. -/
def rank : NameRule → Nat
  | .minimumLength => 0
  | .characterSet => 1
  | .lettersOnly => 2

/-- What remains of a part without hyphens and blanks. -/
def letters (s : List Char) : List Char := s.filter fun c => c != '-' && !isBlank c

inductive Violates : NameRule → List Char → Prop
  | short {s : List Char} : s.length < 2 → Violates .minimumLength s
  | foreign {s : List Char} {c : Char} : c ∈ s → isNameLetter c = false → c ≠ '-' →
      isBlank c = false → Violates .characterSet s
  | letterless {s : List Char} : letters s = [] → Violates .lettersOnly s
  | foreignLetter {s : List Char} {c : Char} : c ∈ letters s → isNameLetter c = false →
      Violates .lettersOnly s

theorem mem_all (rule : NameRule) : rule ∈ all := by
  cases rule <;> simp [all]

theorem isBroken_characterSet_iff : characterSet.isBroken s = false ↔
    ∀ c ∈ s, (isNameLetter c || isSeparator c) = true := by
  simp only [isBroken, List.any_eq_false, Bool.and_eq_true, Bool.not_eq_true', Bool.or_eq_true,
    not_and_or, Bool.not_eq_false]

theorem isBroken_lettersOnly_iff : lettersOnly.isBroken s = false ↔
    (∃ c ∈ s, isSeparator c = false) ∧
      ∀ c ∈ s, isSeparator c = false → isNameLetter c = true := by
  simp [isBroken]

theorem isSeparator_eq_false_iff {c : Char} :
    isSeparator c = false ↔ c ≠ '-' ∧ isBlank c = false := by
  simp [isSeparator]

theorem letters_eq (s : List Char) : letters s = s.filter (!isSeparator ·) := by
  simp only [letters, isSeparator, Bool.not_or, bne]

theorem isBroken_iff_violates : rule.isBroken s = true ↔ rule.Violates s := by
  cases rule with
  | minimumLength =>
    have hlength : minimumLength.isBroken s = true ↔ s.length < 2 := by simp [isBroken]
    rw [hlength]
    constructor
    · exact .short
    · intro h
      cases h with
      | short hshort => exact hshort
  | characterSet =>
    have hforeign : characterSet.isBroken s = true ↔
        ∃ c ∈ s, isNameLetter c = false ∧ c ≠ '-' ∧ isBlank c = false := by
      simp only [isBroken, List.any_eq_true, Bool.and_eq_true, Bool.not_eq_true',
        isSeparator_eq_false_iff]
    rw [hforeign]
    constructor
    · rintro ⟨c, hc, hletter, hhyphen, hblank⟩
      exact .foreign hc hletter hhyphen hblank
    · intro h
      cases h with
      | foreign hc hletter hhyphen hblank => exact ⟨_, hc, hletter, hhyphen, hblank⟩
  | lettersOnly =>
    have hletters : lettersOnly.isBroken s = true ↔
        letters s = [] ∨ ∃ c ∈ letters s, isNameLetter c = false := by
      rw [letters_eq]
      simp only [isBroken, Bool.or_eq_true, List.isEmpty_iff, List.any_eq_true, Bool.not_eq_true']
    rw [hletters]
    constructor
    · rintro (hnone | ⟨c, hc, hletter⟩)
      · exact .letterless hnone
      · exact .foreignLetter hc hletter
    · intro h
      cases h with
      | letterless hnone => exact Or.inl hnone
      | foreignLetter hc hletter => exact Or.inr ⟨_, hc, hletter⟩

/-- Where only letters, hyphens and blanks stand, the last rule asks for a letter and no more. -/
theorem Violates.separators (h : lettersOnly.Violates s) (hset : ¬ characterSet.Violates s) :
    ∀ c ∈ s, c = '-' ∨ isBlank c = true := by
  cases h with
  | letterless hnone =>
    intro c hc
    have hout := List.filter_eq_nil_iff.mp hnone c hc
    by_contra hnot
    rw [not_or, Bool.not_eq_true] at hnot
    exact hout (by simp [hnot])
  | foreignLetter hc hletter =>
    obtain ⟨hmem, hkept⟩ := List.mem_filter.mp hc
    simp only [Bool.and_eq_true, bne_iff_ne, Bool.not_eq_true'] at hkept
    exact absurd (.foreign hmem hletter hkept.1 hkept.2) hset

end NameRule

namespace FullName
variable {n : FullName}

theorem eq_of_mem_parts {part : NamePart} {s t : List Char} (hs : (part, s) ∈ n.parts)
    (ht : (part, t) ∈ n.parts) : s = t := by
  cases part <;> simp_all [parts]

theorem parts_ascend : n.parts.Pairwise fun p q => p.1.rank < q.1.rank := by
  cases hpatronymic : n.patronymic <;> simp [parts, hpatronymic, NamePart.rank]

/-- Every rule with every part, in the order of the check. -/
def checks (n : FullName) : List (NameRule × NamePart × List Char) :=
  NameRule.all.flatMap fun rule => n.parts.map (Prod.mk rule)

theorem mem_checks {rule : NameRule} {p : NamePart × List Char} :
    (rule, p) ∈ n.checks ↔ p ∈ n.parts := by
  simp [checks, rule.mem_all]

def checkRank (k : NameRule × NamePart × List Char) : ℕ ×ₗ ℕ := toLex (k.1.rank, k.2.1.rank)

theorem checks_ascend : n.checks.Pairwise fun k l => checkRank k < checkRank l := by
  have hrules : NameRule.all.Pairwise fun rule other => rule.rank < other.rank := by decide
  apply List.pairwise_flatMap.mpr
  constructor
  · intro rule _
    apply List.pairwise_map.mpr
    apply parts_ascend.imp
    intro p q hrank
    exact Prod.Lex.toLex_lt_toLex.mpr (Or.inr ⟨rfl, hrank⟩)
  · apply hrules.imp
    intro rule other hrank k hk l hl
    obtain ⟨p, -, rfl⟩ := List.mem_map.mp hk
    obtain ⟨q, -, rfl⟩ := List.mem_map.mp hl
    exact Prod.Lex.toLex_lt_toLex.mpr (Or.inl hrank)

/-- The check is one search through rules and parts. -/
theorem check_eq_find? (n : FullName) : n.check =
    match n.checks.find? (fun k => k.1.isBroken k.2.2) with
    | some k => .error (.broken k.1 k.2.1)
    | none => .ok () := by
  have hsearch : (NameRule.all.findSome? fun rule =>
      (rule.firstBroken? n).map (NameFault.broken rule)) =
        (n.checks.find? fun k => k.1.isBroken k.2.2).map fun k => .broken k.1 k.2.1 := by
    rw [checks, List.find?_flatMap, List.map_findSome?]
    congr 1
    funext rule
    rw [Function.comp_apply, List.find?_map, Option.map_map, NameRule.firstBroken?, Option.map_map]
    rfl
  rw [check, hsearch]
  cases n.checks.find? fun k => k.1.isBroken k.2.2 <;> rfl

theorem check_eq_ok_iff :
    n.check = .ok () ↔ ∀ rule : NameRule, ∀ p ∈ n.parts, rule.isBroken p.2 = false := by
  have hnone : (n.checks.find? fun k => k.1.isBroken k.2.2) = none ↔
      ∀ rule : NameRule, ∀ p ∈ n.parts, rule.isBroken p.2 = false := by
    simp only [List.find?_eq_none, Prod.forall, mem_checks, Bool.not_eq_true]
  rw [← hnone, check_eq_find?]
  cases n.checks.find? fun k => k.1.isBroken k.2.2 <;> simp

theorem exists_of_check_eq_error {fault : NameFault} (h : n.check = .error fault) :
    ∃ rule part, fault = .broken rule part := by
  rw [check_eq_find?] at h
  cases hfind : n.checks.find? fun k => k.1.isBroken k.2.2 with
  | none =>
    rw [hfind] at h
    cases h
  | some k =>
    rw [hfind] at h
    cases h
    exact ⟨_, _, rfl⟩

/-- Some part violates the rule, and no violation comes before this one. -/
structure IsLeastViolation (n : FullName) (rule : NameRule) (part : NamePart) : Prop where
  violated : ∃ s, (part, s) ∈ n.parts ∧ rule.Violates s
  least : ∀ p ∈ n.parts, ∀ other : NameRule, other.Violates p.2 →
    toLex (rule.rank, part.rank) ≤ toLex (other.rank, p.1.rank)

theorem find?_checks_iff {rule : NameRule} {p : NamePart × List Char} :
    (n.checks.find? fun k => k.1.isBroken k.2.2) = some (rule, p) ↔
      p ∈ n.parts ∧ rule.Violates p.2 ∧ ∀ q ∈ n.parts, ∀ other : NameRule, other.Violates q.2 →
        toLex (rule.rank, p.1.rank) ≤ toLex (other.rank, q.1.rank) := by
  rw [find?_eq_some_iff_least checks_ascend, mem_checks, NameRule.isBroken_iff_violates]
  refine and_congr_right fun _ => and_congr_right fun _ => ?_
  constructor
  · intro h q hq other hother
    exact h (other, q) (mem_checks.mpr hq) (NameRule.isBroken_iff_violates.mpr hother)
  · intro h k hk hbroken
    exact h k.2 (mem_checks.mp hk) k.1 (NameRule.isBroken_iff_violates.mp hbroken)

theorem check_eq_error_iff {fault : NameFault} : n.check = .error fault ↔
    ∃ rule part, fault = .broken rule part ∧ n.IsLeastViolation rule part := by
  rw [check_eq_find?]
  constructor
  · intro h
    cases hfind : n.checks.find? fun k => k.1.isBroken k.2.2 with
    | none =>
      rw [hfind] at h
      cases h
    | some k =>
      obtain ⟨hpart, hviolates, hleast⟩ := find?_checks_iff.mp hfind
      rw [hfind] at h
      cases h
      exact ⟨k.1, k.2.1, rfl, ⟨k.2.2, hpart, hviolates⟩, hleast⟩
  · rintro ⟨rule, part, rfl, ⟨s, hpart, hviolates⟩, hleast⟩
    have hfind : (n.checks.find? fun k => k.1.isBroken k.2.2) = some (rule, (part, s)) :=
      find?_checks_iff.mpr ⟨hpart, hviolates, hleast⟩
    rw [hfind]

/-- A name is refused for its least violation. A part without foreign characters is refused for its
letters only if it has none. -/
theorem check_tells_least_violation (n : FullName) :
    (n.check = .ok () ↔ ∀ p ∈ n.parts, ∀ rule : NameRule, ¬ rule.Violates p.2) ∧
    (∀ fault, n.check = .error fault ↔
      ∃ rule part, fault = .broken rule part ∧ n.IsLeastViolation rule part) ∧
    ∀ part s, n.check = .error (.broken .lettersOnly part) → (part, s) ∈ n.parts →
      ∀ c ∈ s, c = '-' ∨ isBlank c = true := by
  refine ⟨?_, fun fault => check_eq_error_iff, ?_⟩
  · rw [check_eq_ok_iff]
    constructor
    · intro h p hp rule hviolates
      have hbroken := NameRule.isBroken_iff_violates.mpr hviolates
      rw [h rule p hp] at hbroken
      cases hbroken
    · intro h rule p hp
      rw [← Bool.not_eq_true, NameRule.isBroken_iff_violates]
      exact h p hp rule
  · intro part s hcheck hs
    obtain ⟨rule, part', hfault, hviolation⟩ := check_eq_error_iff.mp hcheck
    cases hfault
    obtain ⟨t, ht, hviolates⟩ := hviolation.violated
    obtain rfl := eq_of_mem_parts hs ht
    apply hviolates.separators
    intro hset
    have hle := hviolation.least _ hs .characterSet hset
    rw [Prod.Lex.toLex_le_toLex] at hle
    simp [NameRule.rank] at hle

end FullName

end FormDesk
