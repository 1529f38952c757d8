import FormDesk.Proofs.Answer

/-! What comes of a submitted expression: it fails on one account, and the object that is written
for a value holds the value as a number unless it is not finite. -/
namespace FormDesk.Calculation
open Binary64 ValueText Text

variable {settings : DisplaySettings} {s : List Char}

/-- The text to copy is written whenever the text to show is. -/
theorem ofText_eq_error_iff {e : PrecisionTooLarge} : ofText settings s = .error e ↔
    ∃ v, Expression.evaluate s = .ok v ∧ displayed v settings = .error e := by
  unfold ofText
  constructor
  · intro h
    cases hv : Expression.evaluate s with
    | error fault =>
      rw [hv] at h
      cases h
    | ok v =>
      rw [hv] at h
      cases hdisplayed : displayed v settings with
      | error e' =>
        simp only [hdisplayed] at h
        cases h
        exact ⟨v, rfl, hdisplayed⟩
      | ok t =>
        cases hcopied : plain v settings.precision.toNat with
        | error e' =>
          rw [displayed, hcopied] at hdisplayed
          cases hdisplayed
        | ok copied =>
          simp only [hdisplayed, hcopied] at h
          cases h
  · rintro ⟨v, hv, hdisplayed⟩
    rw [hv]
    simp only [hdisplayed]
    rfl

/-- The answer to an expression has its value or the message of its fault. There is none just when
a value that needs places is to be written with too many. -/
theorem ofText_total_or_precision (settings : DisplaySettings) (s : List Char) :
    (∀ e, ofText settings s = .error e ↔ e = ⟨settings.precision.toNat⟩ ∧
      maxPrecision < settings.precision.toNat ∧
        ∃ v, Expression.evaluate s = .ok v ∧ NeedsPlaces v) ∧
    ∀ c, ofText settings s = .ok c → c.expression = trim s ∧
      ((∃ v, Expression.evaluate s = .ok v ∧ c.isSuccess = true ∧ c.value? = some v) ∨
        ∃ fault, Expression.evaluate s = .error fault ∧ c.isSuccess = false ∧
          c.message? = some fault.message) := by
  constructor
  · intro e
    rw [ofText_eq_error_iff]
    constructor
    · rintro ⟨v, hv, hdisplayed⟩
      obtain ⟨he, hlarge, hplaces⟩ := displayed_eq_error_iff.mp hdisplayed
      exact ⟨he, hlarge, v, hv, hplaces⟩
    · rintro ⟨he, hlarge, v, hv, hplaces⟩
      exact ⟨v, hv, displayed_eq_error_iff.mpr ⟨he, hlarge, hplaces⟩⟩
  · intro c hc
    rcases ofText_eq_ok hc with ⟨fault, hfault, rfl⟩ | ⟨v, displayed, copied, hv, -, rfl⟩
    · exact ⟨rfl, Or.inr ⟨fault, hfault, rfl, rfl⟩⟩
    · exact ⟨rfl, Or.inl ⟨v, hv, rfl, rfl⟩⟩

/-- One half needs a place, and one more place than the most is asked for. -/
theorem not_forall_exists_ofText : ¬ ∀ settings s, ∃ c, ofText settings s = .ok c := by
  intro h
  obtain ⟨c, hc⟩ := h { precision := 65536 } "0.5".toList
  have herror : ofText { precision := 65536 } "0.5".toList = .error ⟨65536⟩ := by decide +kernel
  rw [herror] at hc
  cases hc

theorem text_toJson_computed (expression : List Char) (v : Binary64)
    (displayed copied : List Char) : (computed expression v displayed copied).toJson.text =
      '{' :: "\"success\":true,\"result\":".toList ++ Json.numberText v ++ ['}'] := by
  have hsuccess : Json.quote "success".toList = "\"success\"".toList := by decide
  have hresult : Json.quote "result".toList = "\"result\"".toList := by decide
  have hnumber : (Json.Scalar.number v).text = Json.numberText v := rfl
  simp only [toJson, Json.Object.text, List.map_cons, List.map_nil, hsuccess, hresult, hnumber,
    List.intercalate_cons_cons, List.intercalate_singleton, List.append_assoc]
  rfl

/-- The object that is written for a value holds the value as a number, or null when the value is
not finite. -/
theorem text_toJson_ofText {v : Binary64} (hp : settings.precision.toNat ≤ maxPrecision)
    (hv : Expression.evaluate s = .ok v) : ∃ c N, ofText settings s = .ok c ∧
      c.toJson.text = '{' :: "\"success\":true,\"result\":".toList ++ N ++ ['}'] ∧
      (N ∈ Json.Grammar.number.matches' ∧ ofText? N = some v ↔ v.isFinite = true) ∧
      (v.isFinite = false → N = "null".toList) := by
  obtain ⟨c, hc⟩ := exists_ofText hp s
  rcases ofText_eq_ok hc with ⟨fault, hfault, -⟩ | ⟨w, displayed, copied, hw, -, rfl⟩
  · rw [hfault] at hv
    cases hv
  · obtain rfl : w = v := Except.ok.inj (hw.symm.trans hv)
    refine ⟨_, Json.numberText w, hc, text_toJson_computed .., ?_, ?_⟩
    · cases w with
      | finite negative m => exact ⟨fun _ => rfl, fun _ => Json.numberText_finite negative m⟩
      | nan => exact ⟨fun h => absurd h.1 Json.Grammar.null_notMem_number, nofun⟩
      | infinity negative => exact ⟨fun h => absurd h.1 Json.Grammar.null_notMem_number, nofun⟩
    · cases w with
      | finite negative m => exact nofun
      | nan => exact fun _ => rfl
      | infinity negative => exact fun _ => rfl

/-- All 17 digits of a sum of tenths are written. -/
theorem text_toJson_ofText_tenths : ∃ v, Expression.evaluate "0.1 + 0.2".toList = .ok v ∧
    ∃ c N, ofText {} "0.1 + 0.2".toList = .ok c ∧
      c.toJson.text = '{' :: "\"success\":true,\"result\":".toList ++ N ++ ['}'] ∧
      (N ∈ Json.Grammar.number.matches' ∧ ofText? N = some v ↔ v.isFinite = true) ∧
      (v.isFinite = false → N = "null".toList) := by
  let sum : Binary64 := .finite false (.ofSignificand 5404319552844596 1020 (by decide) (by decide))
  have hsum : Expression.evaluate "0.1 + 0.2".toList = .ok sum := by decide +kernel
  exact ⟨sum, hsum, text_toJson_ofText (by decide) hsum⟩

/-- The value of 309 nines is infinite. -/
theorem not_forall_exists_number : ¬ ∀ (settings : DisplaySettings) (s : List Char) (v : Binary64),
    settings.precision.toNat ≤ maxPrecision → Expression.evaluate s = .ok v →
      ∃ c N, ofText settings s = .ok c ∧
        c.toJson.text = '{' :: "\"success\":true,\"result\":".toList ++ N ++ ['}'] ∧
        N ∈ Json.Grammar.number.matches' ∧ ofText? N = some v := by
  intro h
  have hvalue : Expression.evaluate (List.replicate 309 '9') = .ok (.infinity false) := by
    decide +kernel
  obtain ⟨c, N, hc, htext, hnumber, -⟩ := h {} _ _ (by decide) hvalue
  rcases ofText_eq_ok hc with ⟨fault, hfault, -⟩ | ⟨v, displayed, copied, hv, -, rfl⟩
  · rw [hfault] at hvalue
    cases hvalue
  · obtain rfl : v = .infinity false := Except.ok.inj (hv.symm.trans hvalue)
    rw [text_toJson_computed, List.append_cancel_right_eq, List.append_cancel_left_eq] at htext
    rw [← htext] at hnumber
    exact Json.Grammar.null_notMem_number hnumber

end FormDesk.Calculation
