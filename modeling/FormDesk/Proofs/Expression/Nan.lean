import FormDesk.Proofs.Binary64.Nan
import FormDesk.Proofs.Expression.Sign

/-! The sign of a value, and where a NaN comes from: a term that multiplies an infinity and a zero.
Sums add no other way. -/
namespace FormDesk.Expression
open Binary64

/-- The product of the first factors of a term and the factor behind them are an infinity and a
zero. -/
def MeetsInfinityAndZero (term : List Binary64) : Prop :=
  ∃ front y back p, term = front ++ y :: back ∧ product? front = some p ∧ InfinityAndZero p y

theorem unsigned_of_literal? {p : List Char} {x : Binary64} (h : literal? p = some x) :
    Unsigned x := by
  obtain ⟨n, -, rfl⟩ := Option.map_eq_some_iff.mp h
  exact unsigned_toBinary64 n

theorem ne_nan_of_literal? {p : List Char} {x : Binary64} (h : literal? p = some x) :
    x ≠ .nan := by
  obtain ⟨n, -, rfl⟩ := Option.map_eq_some_iff.mp h
  rw [Numeral.toBinary64, ofQuotient]
  exact ofRounded_ne_nan _ _

theorem exists_literal?_of_mem_factors? {text : List Char} {terms : List (List Binary64)}
    (h : factors? text = some terms) {term : List Binary64} (hterm : term ∈ terms) {x : Binary64}
    (hx : x ∈ term) : ∃ p, literal? p = some x := by
  obtain ⟨part, -, hpart⟩ := exists_mem_of_mapM h hterm
  obtain ⟨p, -, hp⟩ := exists_mem_of_mapM hpart hx
  exact ⟨p, hp⟩

theorem factors?_ne_nil {text : List Char} {terms : List (List Binary64)}
    (h : factors? text = some terms) : terms ≠ [] := by
  rintro rfl
  rw [factors?, mapM_eq_some_iff, List.map_nil, List.map_eq_nil_iff] at h
  exact List.splitOn_ne_nil _ _ h

theorem unsigned_of_product? {term : List Binary64} (h : ∀ x ∈ term, Unsigned x) {p : Binary64}
    (hp : product? term = some p) : Unsigned p := by
  cases term with
  | nil => cases hp
  | cons x xs =>
    rw [List.forall_mem_cons] at h
    obtain rfl := Option.some.inj hp
    exact h.1.foldl_mul h.2

theorem product?_eq_nan_iff {term : List Binary64} (h : ∀ x ∈ term, x ≠ .nan) :
    product? term = some .nan ↔ MeetsInfinityAndZero term := by
  cases term with
  | nil =>
    constructor
    · intro hp
      cases hp
    · rintro ⟨front, y, back, p, hcut, -⟩
      simp at hcut
  | cons x xs =>
    rw [List.forall_mem_cons] at h
    rw [product?, Option.some.injEq, foldl_mul_eq_nan_iff h.1 h.2]
    constructor
    · rintro ⟨front, y, back, rfl, hpair⟩
      exact ⟨x :: front, y, back, _, rfl, rfl, hpair⟩
    · rintro ⟨front, y, back, p, hcut, hp, hpair⟩
      cases front with
      | nil => cases hp
      | cons z front =>
        obtain ⟨rfl, rfl⟩ := List.cons.inj hcut
        obtain rfl := Option.some.inj hp
        exact ⟨front, y, back, rfl, hpair⟩

/-- The negative zero that a sum starts from gives way to the first term. -/
theorem foldl_add_zero_eq_nan_iff {products : List Binary64} (hne : products ≠ [])
    (h : ∀ p ∈ products, Unsigned p) :
    products.foldl (· + ·) (.zero true) = .nan ↔ .nan ∈ products := by
  obtain ⟨p, ps, rfl⟩ := List.exists_cons_of_ne_nil hne
  rw [List.forall_mem_cons] at h
  rw [List.foldl_cons, zero_true_add, h.1.foldl_add_eq_nan_iff h.2, List.mem_cons, eq_comm]

/-- A value is no NaN unless a term multiplies an infinity and a zero. -/
theorem eq_nan_iff_of_sumOfProducts? {text : List Char} {v : Binary64}
    (h : sumOfProducts? text = some v) : v = .nan ↔
      ∃ terms, factors? text = some terms ∧ ∃ term ∈ terms, MeetsInfinityAndZero term := by
  obtain ⟨terms, products, hterms, hproducts, rfl⟩ := sumOfProducts?_eq_some_iff.mp h
  have hlit : ∀ term ∈ terms, ∀ x ∈ term, ∃ p, literal? p = some x :=
    fun _ hterm _ hx => exists_literal?_of_mem_factors? hterms hterm hx
  have hmem : ∀ p, p ∈ products ↔ ∃ term ∈ terms, product? term = some p := by
    intro p
    rw [← List.mem_map, hproducts, List.mem_map_of_injective (Option.some_injective _)]
  have hunsigned : ∀ p ∈ products, Unsigned p := by
    intro p hp
    obtain ⟨term, hterm, hproduct⟩ := (hmem p).mp hp
    refine unsigned_of_product? (fun x hx => ?_) hproduct
    obtain ⟨text', hx'⟩ := hlit term hterm x hx
    exact unsigned_of_literal? hx'
  have hne : products ≠ [] := by
    rintro rfl
    rw [List.map_nil, List.map_eq_nil_iff] at hproducts
    exact factors?_ne_nil hterms hproducts
  have hterm : ∀ term ∈ terms, product? term = some .nan ↔ MeetsInfinityAndZero term := by
    intro term hterm
    refine product?_eq_nan_iff fun x hx => ?_
    obtain ⟨text', hx'⟩ := hlit term hterm x hx
    exact ne_nan_of_literal? hx'
  rw [foldl_add_zero_eq_nan_iff hne hunsigned, hmem]
  constructor
  · rintro ⟨term, hmem', hnan⟩
    exact ⟨terms, hterms, term, hmem', (hterm term hmem').mp hnan⟩
  · rintro ⟨terms', hterms', term, hmem', hmeets⟩
    cases hterms.symm.trans hterms'
    exact ⟨term, hmem', (hterm term hmem').mpr hmeets⟩

/-- A value has no sign, not even zero, and it is a NaN just when a term that is multiplied from
the left meets an infinity and a zero. -/
theorem sign_and_nan_of_evaluate {s : List Char} {v : Binary64} (h : evaluate s = .ok v) :
    Unsigned v ∧ v.toBits < 2 ^ 63 ∧ (v = .nan ↔
      ∃ terms, factors? (unblank s) = some terms ∧ ∃ term ∈ terms, MeetsInfinityAndZero term) := by
  have hsign : Unsigned v := unsigned_of_evaluate h
  have hbit : v.toBits < 2 ^ 63 := unsigned_iff_toBits_lt.mp hsign
  exact ⟨hsign, hbit, eq_nan_iff_of_sumOfProducts? (sumOfProducts?_of_evaluate h)⟩

/-- A literal of 309 nines is an infinity, and zero times it is a NaN that the sum keeps. -/
theorem sign_and_nan_of_zero_times_nines :
    evaluate ("1 + 0 * ".toList ++ List.replicate 309 '9') = .ok .nan ∧ Unsigned .nan ∧
      ∃ terms, factors? (unblank ("1 + 0 * ".toList ++ List.replicate 309 '9')) = some terms ∧
        ∃ term ∈ terms, MeetsInfinityAndZero term := by
  have hv : evaluate ("1 + 0 * ".toList ++ List.replicate 309 '9') = .ok .nan := by
    decide +kernel
  obtain ⟨hsign, -, hnan⟩ := sign_and_nan_of_evaluate hv
  exact ⟨hv, hsign, hnan.mp rfl⟩

end FormDesk.Expression
