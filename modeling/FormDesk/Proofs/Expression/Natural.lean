import FormDesk.Proofs.Binary64.Natural
import FormDesk.Proofs.Expression.Evaluate
import FormDesk.Proofs.ValueText.ReadBack

/-! Sums of products of natural numbers. While every literal, every running product and every
running sum is at most `2 ^ 53`, the value is the exact one and is written with all its digits. -/
namespace FormDesk
open Binary64

namespace Expression
open Grammar

/-- Literals of digits alone, with an operator between neighbours. -/
def naturalExpression : RegularExpression Char := chain (oneOrMore digit)

/-- The natural numbers between the `*` of each part between the `+`. -/
def naturals (text : List Char) : List (List Nat) :=
  (text.splitOn '+').map fun term => (term.splitOn '*').map (Nat.ofDigitChars 10 · 0)

def exactSum (terms : List (List Nat)) : Nat := (terms.map List.prod).sum

/-- No literal, no running product of a term and no running sum of terms passes `2 ^ 53`. -/
structure FitsExactly (terms : List (List Nat)) : Prop where
  literal_le : ∀ term ∈ terms, ∀ n ∈ term, n ≤ exactLimit
  product_le : ∀ term ∈ terms, ∀ front ∈ term.inits, front.prod ≤ exactLimit
  sum_le : ∀ front ∈ terms.inits, exactSum front ≤ exactLimit

instance (terms : List (List Nat)) : Decidable (FitsExactly terms) :=
  decidable_of_iff
    ((∀ term ∈ terms, ∀ n ∈ term, n ≤ exactLimit) ∧
      (∀ term ∈ terms, ∀ front ∈ term.inits, front.prod ≤ exactLimit) ∧
      ∀ front ∈ terms.inits, exactSum front ≤ exactLimit)
    ⟨fun ⟨h₁, h₂, h₃⟩ => ⟨h₁, h₂, h₃⟩, fun ⟨h₁, h₂, h₃⟩ => ⟨h₁, h₂, h₃⟩⟩

theorem mem_naturalExpression_iff {text : List Char} : text ∈ naturalExpression.matches' ↔
    ∀ p ∈ pieces text, p ≠ [] ∧ p.all Char.isDigit = true := by
  have hfree : ∀ p ∈ (oneOrMore digit).matches', OperatorFree p := by
    intro p hp c hc
    have hdigit := List.all_eq_true.mp (mem_oneOrMore_digit.mp hp).2 c hc
    exact isOperator_of_isLiteral (by rw [isLiteral, hdigit, Bool.true_or])
  rw [naturalExpression, mem_chain hfree]
  simp only [mem_oneOrMore_digit]

theorem mem_expression_of_natural {text : List Char} (h : text ∈ naturalExpression.matches') :
    text ∈ expression.matches' := by
  rw [mem_naturalExpression_iff] at h
  rw [expression, mem_chain fun p => operatorFree_of_mem_numeral]
  intro p hp
  obtain ⟨hne, hdigits⟩ := h p hp
  exact mem_numeral.mpr ⟨⟨p, []⟩, hdigits, rfl, by simpa using hne, Or.inl ⟨rfl, rfl⟩⟩

theorem point_notMem_of_natural {text : List Char} (h : text ∈ naturalExpression.matches') :
    '.' ∉ text := by
  intro hpoint
  rcases mem_piece_or_isOperator hpoint with ⟨p, hp, hmem⟩ | hop
  · have hdigits := (mem_naturalExpression_iff.mp h p hp).2
    exact Numeral.notMem_of_all_isDigit hdigits rfl hmem
  · exact absurd hop (by decide)

/-- A literal without a point writes a natural number. -/
theorem literal?_eq_ofNat {p : List Char} {x : Binary64} (h : literal? p = some x)
    (hpoint : '.' ∉ p) : literal? p = some (ofNat (Nat.ofDigitChars 10 p 0)) := by
  obtain ⟨n, hn, -⟩ := Option.map_eq_some_iff.mp h
  have hspells : n.Spells p := Numeral.ofText?_eq_some_iff.mp hn
  rcases hspells.spelling with ⟨hwhole, hfraction⟩ | hcut
  · have hvalue : n.toBinary64 = ofNat (Nat.ofDigitChars 10 p 0) := by
      rw [Numeral.toBinary64, Numeral.scaled, Numeral.places, hfraction, List.append_nil, ← hwhole,
        List.length_nil, Nat.pow_zero, ofNat]
    rw [literal?, hn, Option.map_some, hvalue]
  · exact absurd (hcut ▸ by simp) hpoint

theorem mem_of_mem_splitOn {d : Char} {s w : List Char} (h : w ∈ s.splitOn d) {c : Char}
    (hc : c ∈ w) : c ∈ s := by
  rw [List.splitOn_eq_splitOnP] at h
  exact Text.mem_of_mem_splitOnP h hc

/-- Without a point the factors are the natural numbers of the text. -/
theorem factors?_eq_naturals {text : List Char} {terms : List (List Binary64)}
    (h : factors? text = some terms) (hpoint : '.' ∉ text) :
    factors? text = some ((naturals text).map (·.map ofNat)) := by
  rw [factors?, mapM_eq_some_iff, naturals, List.map_map, List.map_map]
  refine List.map_congr_left fun part hpart => ?_
  obtain ⟨term, -, hterm⟩ := exists_eq_some_of_mapM h hpart
  rw [Function.comp_apply, Function.comp_apply, mapM_eq_some_iff, List.map_map, List.map_map]
  refine List.map_congr_left fun p hp => ?_
  obtain ⟨x, -, hx⟩ := exists_eq_some_of_mapM hterm hp
  exact literal?_eq_ofNat hx fun hc =>
    hpoint (mem_of_mem_splitOn hpart (mem_of_mem_splitOn hp hc))

theorem product?_map_ofNat {term : List Nat} (hne : term ≠ [])
    (hlit : ∀ n ∈ term, n ≤ exactLimit) (h : ∀ front ∈ term.inits, front.prod ≤ exactLimit) :
    product? (term.map ofNat) = some (ofNat term.prod) := by
  obtain ⟨x, xs, rfl⟩ := List.exists_cons_of_ne_nil hne
  rw [List.forall_mem_cons] at hlit
  rw [List.inits_cons, List.forall_mem_cons, List.forall_mem_map] at h
  have hrun : ∀ front ∈ xs.inits, x * front.prod ≤ exactLimit := by
    intro front hfront
    have hnext := h.2 front hfront
    rwa [List.prod_cons] at hnext
  rw [List.map_cons, product?, foldl_mul_ofNat hlit.2 hrun, List.prod_cons]

/-- The negative zero that a sum starts from does not make it inexact. -/
theorem foldl_add_zero_map_ofNat {products : List Nat} (hne : products ≠ [])
    (h : ∀ front ∈ products.inits, front.sum ≤ exactLimit) :
    (products.map ofNat).foldl (· + ·) (.zero true) = ofNat products.sum := by
  obtain ⟨p, ps, rfl⟩ := List.exists_cons_of_ne_nil hne
  rw [List.inits_cons, List.forall_mem_cons, List.forall_mem_map] at h
  have hrun : ∀ front ∈ ps.inits, p + front.sum ≤ exactLimit := by
    intro front hfront
    have hnext := h.2 front hfront
    rwa [List.sum_cons] at hnext
  rw [List.map_cons, List.foldl_cons, zero_true_add, foldl_add_ofNat hrun, List.sum_cons]

theorem naturals_ne_nil (text : List Char) : naturals text ≠ [] := by
  intro h
  exact List.splitOn_ne_nil _ _ (List.map_eq_nil_iff.mp h)

theorem ne_nil_of_mem_naturals {text : List Char} {term : List Nat} (h : term ∈ naturals text) :
    term ≠ [] := by
  obtain ⟨part, -, rfl⟩ := List.mem_map.mp h
  intro hnil
  exact List.splitOn_ne_nil _ _ (List.map_eq_nil_iff.mp hnil)

/-- The sum of products is exact. -/
theorem sumOfProducts?_eq_ofNat {text : List Char} {v : Binary64}
    (h : sumOfProducts? text = some v) (hpoint : '.' ∉ text) (hfits : FitsExactly (naturals text)) :
    v = ofNat (exactSum (naturals text)) := by
  obtain ⟨terms, products, hterms, hproducts, rfl⟩ := sumOfProducts?_eq_some_iff.mp h
  have hterms' := factors?_eq_naturals hterms hpoint
  obtain rfl := Option.some.inj (hterms.symm.trans hterms')
  have hproducts' : products = ((naturals text).map List.prod).map ofNat := by
    apply List.map_injective_iff.mpr (Option.some_injective Binary64)
    rw [← hproducts, List.map_map, List.map_map, List.map_map]
    refine List.map_congr_left fun term hterm => ?_
    exact product?_map_ofNat (ne_nil_of_mem_naturals hterm) (hfits.literal_le term hterm)
      (hfits.product_le term hterm)
  have hne : (naturals text).map List.prod ≠ [] := by
    rw [ne_eq, List.map_eq_nil_iff]
    exact naturals_ne_nil text
  rw [hproducts', foldl_add_zero_map_ofNat hne ?_, exactSum]
  intro front hfront
  obtain ⟨terms', hterms', rfl⟩ := List.mem_map.mp (List.map_inits .. ▸ hfront)
  exact hfits.sum_le terms' hterms'

end Expression

namespace ValueText

/-- A natural number is written with all its digits, whatever the precision. -/
theorem plain_ofNat {n : Nat} (h : n ≤ exactLimit) {p : Nat} (hp : p ≤ maxPrecision) :
    plain (.finite false (.ofNat n h)) p = .ok (Nat.toDigits 10 n) := by
  have hwhole : (Magnitude.ofNat n h).isWhole = true := by
    rw [Magnitude.isWhole, beq_iff_eq, Magnitude.units_ofNat]
    exact Nat.mul_mod_left n one
  have hvalue : (Magnitude.ofNat n h).whole = n := by
    rw [Magnitude.whole, Magnitude.units_ofNat, Nat.mul_div_cancel n Binary64.one_pos]
  rw [plain_finite _ hp, Magnitude.rounded_of_isWhole hwhole, Numeral.text_ofScaled_mul, hvalue]

end ValueText

namespace Expression

/-- Arithmetic on natural numbers is exact while it stays within `2 ^ 53`: the expression is
accepted, its value is the natural number, and that number is what is copied. -/
theorem evaluate_exact {text : List Char} (htext : text ∈ naturalExpression.matches')
    (hfits : FitsExactly (naturals text)) :
    (feedback text).isValid = true ∧ ∃ m : Magnitude, evaluate text = .ok (.finite false m) ∧
      m.units = exactSum (naturals text) * one ∧
      ∀ p ≤ ValueText.maxPrecision, ValueText.plain (.finite false m) p =
        .ok (Nat.toDigits 10 (exactSum (naturals text))) := by
  obtain ⟨hcheck, v, hv, hsum⟩ := evaluate_of_mem_expression (mem_expression_of_natural htext)
  have hlimit : exactSum (naturals text) ≤ exactLimit :=
    hfits.sum_le _ (by rw [List.mem_inits])
  have hvalue := sumOfProducts?_eq_ofNat hsum (point_notMem_of_natural htext) hfits
  rw [ofNat_eq hlimit] at hvalue
  refine ⟨by rw [feedback, hcheck], .ofNat _ hlimit, by rw [hv, hvalue],
    Magnitude.units_ofNat _ hlimit, ?_⟩
  intro p hp
  exact ValueText.plain_ofNat hlimit hp

/-- Zeros before the digits, and a sum that just reaches `2 ^ 53`. -/
theorem evaluate_exact_at_limit :
    "007*1286742750677284+0*9+4".toList ∈ naturalExpression.matches' ∧
      FitsExactly (naturals "007*1286742750677284+0*9+4".toList) ∧
      (feedback "007*1286742750677284+0*9+4".toList).isValid = true ∧
      ∃ m : Magnitude, evaluate "007*1286742750677284+0*9+4".toList = .ok (.finite false m) ∧
        m.units = 9007199254740992 * one ∧
        ∀ p ≤ ValueText.maxPrecision,
          ValueText.plain (.finite false m) p = .ok "9007199254740992".toList := by
  have htext : "007*1286742750677284+0*9+4".toList ∈ naturalExpression.matches' := by
    rw [mem_naturalExpression_iff]
    decide
  have hfits : FitsExactly (naturals "007*1286742750677284+0*9+4".toList) := by decide
  have hsum : exactSum (naturals "007*1286742750677284+0*9+4".toList) = 9007199254740992 := by
    decide
  obtain ⟨hvalid, m, hv, hunits, hplain⟩ := evaluate_exact htext hfits
  rw [hsum] at hunits hplain
  have hdigits : Nat.toDigits 10 9007199254740992 = "9007199254740992".toList := by decide
  exact ⟨htext, hfits, hvalid, m, hv, hunits, hdigits ▸ hplain⟩

end Expression

end FormDesk
