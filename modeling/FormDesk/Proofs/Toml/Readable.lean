import FormDesk.Proofs.Toml.Document

/-! Whether all numbers of a document have values, and whether its keys are distinct. A table is
readable when it was before and all that was added to it is, in whatever order and spelling; so a
document is readable when each of its definitions is. -/
namespace FormDesk.Toml

theorem entriesReadable_iff {es : Entries} :
    entriesReadable es = true ↔ ∀ e ∈ es, e.2.isReadable = true := by
  induction es with
  | nil => simp [entriesReadable]
  | cons e es ih => rw [entriesReadable, Bool.and_eq_true_iff, ih, List.forall_mem_cons]

theorem tablesReadable_append (earlier : List Entries) (last : Entries) :
    tablesReadable (earlier ++ [last]) = (tablesReadable earlier && entriesReadable last) := by
  induction earlier with
  | nil => simp [tablesReadable]
  | cons es earlier ih => simp [tablesReadable, ih, Bool.and_assoc]

section
variable {es es' : Entries} {key : Key} {keys : List Key} {v w : Value} {old : Option Value}
  {ds : List Definition} {f : Option Value → Option Value} {p : Prop}

theorem entriesReadable_under_iff : entriesReadable (es.under key) = true ↔
    ∀ u ∈ es.lookup key, entriesReadable u.entries = true := by
  unfold Entries.under
  cases es.lookup key <;> simp [entriesReadable]

/-- What is renewed at a key makes the same difference to the table as it does at the key. -/
theorem entriesReadable_put_iff
    (hw : w.isReadable = true ↔ (∀ u ∈ es.lookup key, u.isReadable = true) ∧ p) :
    entriesReadable (es.put key w) = true ↔ entriesReadable es = true ∧ p := by
  induction es with
  | nil => simpa [Entries.put, entriesReadable] using hw
  | cons e es ih =>
    obtain ⟨k, v⟩ := e
    by_cases hk : k = key
    · subst hk
      have hv : w.isReadable = true ↔ v.isReadable = true ∧ p := by simpa using hw
      rw [Entries.put, if_pos rfl, entriesReadable, entriesReadable, Bool.and_eq_true_iff,
        Bool.and_eq_true_iff, hv, and_right_comm]
    · have hrest : w.isReadable = true ↔ (∀ u ∈ es.lookup key, u.isReadable = true) ∧ p := by
        simpa [List.lookup_cons, beq_false_of_ne (Ne.symm hk)] using hw
      rw [Entries.put, if_neg hk, entriesReadable, entriesReadable, Bool.and_eq_true_iff,
        Bool.and_eq_true_iff, ih hrest, and_assoc]

theorem Renewed.isReadable_iff {inner : Entries} (h : Renewed inner old w)
    (hinner : entriesReadable inner = true ↔
      (∀ u ∈ old, entriesReadable u.entries = true) ∧ p) :
    w.isReadable = true ↔ (∀ u ∈ old, u.isReadable = true) ∧ p := by
  cases h with
  | missing origin => simpa [Value.isReadable] using hinner
  | table origin old => simpa [Value.isReadable, Value.entries] using hinner
  | tables earlier old =>
    have hlast : entriesReadable inner = true ↔ entriesReadable old = true ∧ p := by
      simpa [Value.entries] using hinner
    simp [Value.isReadable, hlast, and_assoc]

theorem entriesReadable_define_iff (h : es.define keys v = some es') :
    entriesReadable es' = true ↔ entriesReadable es = true ∧ v.isReadable = true := by
  induction keys generalizing es es' with
  | nil => cases h
  | cons key keys ih =>
    obtain ⟨w, rfl, ⟨-, hkey, rfl⟩ | ⟨inner, hinner, hw⟩⟩ := Entries.define_cons h
    · exact entriesReadable_put_iff (by simp [hkey])
    · refine entriesReadable_put_iff (hw.isReadable_iff ?_)
      rw [ih hinner, entriesReadable_under_iff]

theorem entriesReadable_defineAll_iff (h : es.defineAll ds = some es') :
    entriesReadable es' = true ↔ entriesReadable es = true ∧ ∀ d ∈ ds, d.2.isReadable = true := by
  induction ds generalizing es with
  | nil =>
    cases h
    simp
  | cons d ds ih =>
    obtain ⟨next, hnext, h⟩ := Option.bind_eq_some_iff.mp h
    rw [ih h, entriesReadable_define_iff hnext, List.forall_mem_cons, and_assoc]

theorem entriesReadable_alter_iff (h : es.alter f keys = some es')
    (hf : ∀ old w, f old = some w →
      (w.isReadable = true ↔ (∀ u ∈ old, u.isReadable = true) ∧ p)) :
    entriesReadable es' = true ↔ entriesReadable es = true ∧ p := by
  induction keys generalizing es es' with
  | nil => cases h
  | cons key keys ih =>
    obtain ⟨w, rfl, ⟨-, hw⟩ | ⟨inner, hinner, hw⟩⟩ := Entries.alter_cons h
    · exact entriesReadable_put_iff (hf _ w hw)
    · refine entriesReadable_put_iff (hw.isReadable_iff ?_)
      rw [ih hinner, entriesReadable_under_iff]

theorem isReadable_openTable_iff (h : openTable ds old = some w) : w.isReadable = true ↔
    (∀ u ∈ old, u.isReadable = true) ∧ ∀ d ∈ ds, d.2.isReadable = true := by
  unfold openTable at h
  split at h
  · obtain ⟨es, hes, rfl⟩ := Option.map_eq_some_iff.mp h
    rw [Value.isReadable, entriesReadable_defineAll_iff hes]
    simp [entriesReadable]
  · obtain ⟨es, hes, rfl⟩ := Option.map_eq_some_iff.mp h
    rw [Value.isReadable, entriesReadable_defineAll_iff hes]
    simp [Value.isReadable]
  · cases h

theorem isReadable_addTable_iff (h : addTable ds old = some w) : w.isReadable = true ↔
    (∀ u ∈ old, u.isReadable = true) ∧ ∀ d ∈ ds, d.2.isReadable = true := by
  unfold addTable at h
  split at h
  · obtain ⟨es, hes, rfl⟩ := Option.map_eq_some_iff.mp h
    rw [Value.isReadable, Bool.and_eq_true_iff, entriesReadable_defineAll_iff hes]
    simp [entriesReadable, tablesReadable]
  · obtain ⟨es, hes, rfl⟩ := Option.map_eq_some_iff.mp h
    rw [Value.isReadable, Bool.and_eq_true_iff, entriesReadable_defineAll_iff hes,
      tablesReadable_append]
    simp [entriesReadable, Value.isReadable]
  · cases h

theorem Section.readable_absolute_iff (s : Section) :
    (∀ d ∈ s.absolute, d.2.isReadable = true) ↔ ∀ d ∈ s.definitions, d.2.isReadable = true := by
  rw [Section.absolute, List.forall_mem_cons, List.forall_mem_map]
  exact and_iff_right rfl

theorem entriesReadable_addSection_iff {s : Section} (h : es.addSection s = some es') :
    entriesReadable es' = true ↔
      entriesReadable es = true ∧ ∀ d ∈ s.absolute, d.2.isReadable = true := by
  rw [s.readable_absolute_iff]
  unfold Entries.addSection at h
  split at h
  · exact entriesReadable_alter_iff h fun _ _ => isReadable_openTable_iff
  · exact entriesReadable_alter_iff h fun _ _ => isReadable_addTable_iff

end

/-- Every number that is written in the document has a value, whatever key it stands under. -/
def Document.IsReadable (d : Document) : Prop := ∀ x ∈ d.absolute, x.2.isReadable = true

theorem Document.isReadable_iff {d : Document} {es : Entries} (h : d.entries? = some es) :
    d.IsReadable ↔ entriesReadable es = true := by
  obtain ⟨root, sections⟩ := d
  obtain ⟨start, hstart, hfold⟩ := Option.bind_eq_some_iff.mp h
  suffices entriesReadable es = true ↔ entriesReadable start = true ∧
      ∀ x ∈ sections.flatMap Section.absolute, x.2.isReadable = true by
    rw [this, entriesReadable_defineAll_iff hstart, Document.IsReadable, Document.absolute,
      List.forall_mem_append]
    simp [entriesReadable]
  clear hstart h
  induction sections generalizing start with
  | nil =>
    cases hfold
    simp
  | cons s sections ih =>
    obtain ⟨next, hnext, hfold⟩ := Option.bind_eq_some_iff.mp hfold
    rw [ih next hfold, entriesReadable_addSection_iff hnext, List.flatMap_cons,
      List.forall_mem_append, and_assoc]

/-- No key stands twice in the table. -/
def Entries.HasDistinctKeys (es : Entries) : Prop := (es.map Prod.fst).Nodup

/-- No key stands twice in the table, nor in a table in it. -/
structure Entries.IsDistinct (es : Entries) : Prop where
  keys : es.HasDistinctKeys
  under : ∀ key, (es.under key).HasDistinctKeys

namespace Entries
variable {es es' : Entries} {key : Key} {keys : List Key} {v w : Value}
  {f : Option Value → Option Value}

theorem hasDistinctKeys_nil : HasDistinctKeys [] := List.nodup_nil

theorem mem_keys_put {k : Key} (hk : k ∈ (es.put key w).map Prod.fst) :
    k = key ∨ k ∈ es.map Prod.fst := by
  induction es with
  | nil => simpa [put] using hk
  | cons e es ih =>
    obtain ⟨k', u⟩ := e
    unfold put at hk
    split_ifs at hk
    · exact Or.inr hk
    · rcases List.mem_cons.mp hk with rfl | hk
      · exact Or.inr List.mem_cons_self
      · exact (ih hk).imp_right (List.mem_cons_of_mem k')

theorem HasDistinctKeys.put (h : es.HasDistinctKeys) : (es.put key w).HasDistinctKeys := by
  unfold HasDistinctKeys at h ⊢
  induction es with
  | nil => simp [Entries.put]
  | cons e es ih =>
    obtain ⟨k, u⟩ := e
    obtain ⟨hk, hes⟩ := List.nodup_cons.mp h
    unfold Entries.put
    split_ifs with heq
    · exact h
    · refine List.nodup_cons.mpr ⟨fun hmem => ?_, ih hes⟩
      exact (mem_keys_put hmem).elim heq hk

theorem HasDistinctKeys.lookup_of_mem (h : es.HasDistinctKeys) (hmem : (key, v) ∈ es) :
    es.lookup key = some v := by
  unfold HasDistinctKeys at h
  induction es with
  | nil => cases hmem
  | cons e es ih =>
    obtain ⟨k, u⟩ := e
    obtain ⟨hk, hes⟩ := List.nodup_cons.mp h
    rw [List.lookup_cons]
    rcases List.mem_cons.mp hmem with heq | hrest
    · cases heq
      simp
    · have hne : key ≠ k := by
        rintro rfl
        exact hk (List.mem_map.mpr ⟨_, hrest, rfl⟩)
      rw [beq_false_of_ne hne]
      exact ih hes hrest

theorem HasDistinctKeys.define (h : es.HasDistinctKeys) (hes : es.define keys v = some es') :
    es'.HasDistinctKeys := by
  cases keys with
  | nil => cases hes
  | cons key keys =>
    obtain ⟨w, rfl, -⟩ := define_cons hes
    exact h.put

theorem HasDistinctKeys.defineAll {ds : List Definition} (h : es.HasDistinctKeys)
    (hes : es.defineAll ds = some es') : es'.HasDistinctKeys := by
  induction ds generalizing es with
  | nil =>
    cases hes
    exact h
  | cons d ds ih =>
    obtain ⟨next, hnext, hes⟩ := Option.bind_eq_some_iff.mp hes
    exact ih (h.define hnext) hes

theorem HasDistinctKeys.alter (h : es.HasDistinctKeys) (hes : es.alter f keys = some es') :
    es'.HasDistinctKeys := by
  cases keys with
  | nil => cases hes
  | cons key keys =>
    obtain ⟨w, rfl, -⟩ := alter_cons hes
    exact h.put

namespace IsDistinct

theorem entries_of_mem (h : es.IsDistinct) : ∀ u ∈ es.lookup key, u.entries.HasDistinctKeys := by
  intro u hu
  have hunder := h.under key
  rwa [Entries.under, hu] at hunder

theorem put (h : es.IsDistinct) (hw : w.entries.HasDistinctKeys) : (es.put key w).IsDistinct where
  keys := h.keys.put
  under k := by
    rw [Entries.under, lookup_put]
    split_ifs
    · exact hw
    · exact h.under k

theorem define (h : es.IsDistinct) (hv : v.entries.HasDistinctKeys)
    (hes : es.define keys v = some es') : es'.IsDistinct := by
  cases keys with
  | nil => cases hes
  | cons key keys =>
    obtain ⟨w, rfl, ⟨-, -, rfl⟩ | ⟨inner, hinner, hw⟩⟩ := define_cons hes
    · exact h.put hv
    · refine h.put ?_
      rw [hw.entries_eq]
      exact (h.under key).define hinner

theorem defineAll {ds : List Definition} (h : es.IsDistinct)
    (hds : ∀ d ∈ ds, d.2.entries.HasDistinctKeys) (hes : es.defineAll ds = some es') :
    es'.IsDistinct := by
  induction ds generalizing es with
  | nil =>
    cases hes
    exact h
  | cons d ds ih =>
    obtain ⟨hd, hds⟩ := List.forall_mem_cons.mp hds
    obtain ⟨next, hnext, hes⟩ := Option.bind_eq_some_iff.mp hes
    exact ih (h.define hd hnext) hds hes

theorem alter (h : es.IsDistinct) (hes : es.alter f keys = some es')
    (hf : ∀ old w, f old = some w → (∀ u ∈ old, u.entries.HasDistinctKeys) →
      w.entries.HasDistinctKeys) : es'.IsDistinct := by
  cases keys with
  | nil => cases hes
  | cons key keys =>
    obtain ⟨w, rfl, ⟨-, hw⟩ | ⟨inner, hinner, hw⟩⟩ := alter_cons hes
    · exact h.put (hf _ w hw h.entries_of_mem)
    · refine h.put ?_
      rw [hw.entries_eq]
      exact (h.under key).alter hinner

end IsDistinct

end Entries

section
variable {es es' : Entries} {ds : List Definition} {old : Option Value} {w : Value}

theorem hasDistinctKeys_openTable (h : openTable ds old = some w)
    (hold : ∀ u ∈ old, u.entries.HasDistinctKeys) : w.entries.HasDistinctKeys := by
  unfold openTable at h
  split at h
  · obtain ⟨es, hes, rfl⟩ := Option.map_eq_some_iff.mp h
    exact Entries.hasDistinctKeys_nil.defineAll hes
  · obtain ⟨es, hes, rfl⟩ := Option.map_eq_some_iff.mp h
    exact Entries.HasDistinctKeys.defineAll (hold _ rfl) hes
  · cases h

theorem hasDistinctKeys_addTable (h : addTable ds old = some w) : w.entries.HasDistinctKeys := by
  unfold addTable at h
  split at h
  · obtain ⟨es, hes, rfl⟩ := Option.map_eq_some_iff.mp h
    exact Entries.hasDistinctKeys_nil.defineAll hes
  · obtain ⟨es, hes, rfl⟩ := Option.map_eq_some_iff.mp h
    exact Entries.hasDistinctKeys_nil.defineAll hes
  · cases h

theorem Entries.IsDistinct.addSection {s : Section} (hd : es.IsDistinct)
    (h : es.addSection s = some es') : es'.IsDistinct := by
  unfold Entries.addSection at h
  split at h
  · exact hd.alter h fun _ _ hw hold => hasDistinctKeys_openTable hw hold
  · exact hd.alter h fun _ _ hw _ => hasDistinctKeys_addTable hw

/-- Headers make all their tables themselves; only a definition before the first of them puts a
whole value into the root table. -/
theorem Document.isDistinct {d : Document} (h : d.entries? = some es)
    (hroot : ∀ x ∈ d.root, x.2.entries.HasDistinctKeys) : es.IsDistinct := by
  obtain ⟨root, sections⟩ := d
  obtain ⟨start, hstart, hfold⟩ := Option.bind_eq_some_iff.mp h
  have hnil : Entries.IsDistinct [] := ⟨List.nodup_nil, fun _ => List.nodup_nil⟩
  have hdistinct := hnil.defineAll hroot hstart
  clear hstart h hroot
  induction sections generalizing start with
  | nil =>
    cases hfold
    exact hdistinct
  | cons s sections ih =>
    obtain ⟨next, hnext, hfold⟩ := Option.bind_eq_some_iff.mp hfold
    exact ih next hfold (hdistinct.addSection hnext)

end

section
variable {s rest : List Char} {v : Value}

theorem Value.entries_ofInteger (n : Int) : (ofInteger n).entries = [] := by
  unfold ofInteger
  split_ifs <;> rfl

theorem Value.entries_ofFloat (negative : Bool) (digits : Numeral) (power : Int) :
    (ofFloat negative digits power).entries = [] := by
  unfold ofFloat
  split <;> rfl

/-- A token is no table. -/
theorem Value.entries_of_ofToken? (h : ofToken? s = some v) : v.entries = [] := by
  unfold ofToken? at h
  split at h
  · cases h
    rfl
  split at h
  · cases h
    rfl
  split at h
  · cases h
    rfl
  simp only [Option.or_eq_some_iff, Option.map_eq_some_iff, Option.ite_none_right_eq_some] at h
  obtain ((⟨x, -, rfl⟩ | ⟨-, n, -, rfl⟩) | ⟨-, parts, -, rfl⟩) | ⟨-, -, h⟩ := h
  · rfl
  · exact entries_ofInteger n
  · exact entries_ofFloat _ _ _
  · cases h
    rfl

theorem entries_of_token (h : token s = some (v, rest)) : v.entries = [] := by
  unfold token at h
  dsimp only at h
  split at h
  · split_ifs at h
    · obtain ⟨w, hw, h⟩ := Option.map_eq_some_iff.mp h
      cases h
      exact Value.entries_of_ofToken? hw
    · obtain ⟨w, hw, h⟩ := Option.map_eq_some_iff.mp h
      cases h
      exact Value.entries_of_ofToken? hw
  · obtain ⟨w, hw, h⟩ := Option.map_eq_some_iff.mp h
    cases h
    exact Value.entries_of_ofToken? hw

/-- A table in braces is made by its definitions, so that its keys are distinct. -/
theorem hasDistinctKeys_of_value {depth : Nat} (h : value depth s = some (v, rest)) :
    v.entries.HasDistinctKeys := by
  unfold value at h
  split at h
  · split at h
    · cases h
    · obtain ⟨w, -, h⟩ := Option.map_eq_some_iff.mp h
      cases h
      exact Entries.hasDistinctKeys_nil
  · split at h
    · cases h
    · obtain ⟨⟨ds, s⟩, -, h⟩ := Option.bind_eq_some_iff.mp h
      obtain ⟨es, hes, h⟩ := Option.bind_eq_some_iff.mp h
      cases h
      exact Entries.hasDistinctKeys_nil.defineAll hes
  · obtain ⟨w, -, h⟩ := Option.map_eq_some_iff.mp h
    cases h
    exact Entries.hasDistinctKeys_nil
  · obtain ⟨w, -, h⟩ := Option.map_eq_some_iff.mp h
    cases h
    exact Entries.hasDistinctKeys_nil
  · rw [entries_of_token h]
    exact Entries.hasDistinctKeys_nil

theorem exists_value_of_definition {skip : List Char → List Char} {value : Text.Reader Value}
    {d : Definition} (h : definition skip value s = some (d, rest)) :
    ∃ t, value t = some (d.2, rest) := by
  obtain ⟨⟨path, s⟩, -, h⟩ := Option.bind_eq_some_iff.mp h
  dsimp only at h
  split at h
  · next t _ =>
    obtain ⟨⟨v, rest'⟩, hv, h⟩ := Option.bind_eq_some_iff.mp h
    cases h
    exact ⟨_, hv⟩
  · cases h

theorem hasDistinctKeys_of_definitions {n : Nat} {ds : List Definition}
    (h : definitions n s = some (ds, rest)) : ∀ d ∈ ds, d.2.entries.HasDistinctKeys := by
  induction n generalizing s ds with
  | zero =>
    cases h
    exact List.forall_mem_nil _
  | succ n ih =>
    unfold definitions at h
    split at h
    · cases h
      exact List.forall_mem_nil _
    · cases h
      exact List.forall_mem_nil _
    · obtain ⟨⟨d, s⟩, hd, h⟩ := Option.bind_eq_some_iff.mp h
      obtain ⟨s, -, h⟩ := Option.bind_eq_some_iff.mp h
      obtain ⟨⟨ds, s⟩, hds, h⟩ := Option.bind_eq_some_iff.mp h
      cases h
      obtain ⟨t, hvalue⟩ := exists_value_of_definition hd
      exact List.forall_mem_cons.mpr ⟨hasDistinctKeys_of_value hvalue, ih hds⟩

theorem Document.hasDistinctKeys_root {d : Document} (h : ofText? s = some d) :
    ∀ x ∈ d.root, x.2.entries.HasDistinctKeys := by
  obtain ⟨s, -, h⟩ := Option.bind_eq_some_iff.mp h
  obtain ⟨⟨root, rest⟩, hroot, h⟩ := Option.bind_eq_some_iff.mp h
  obtain ⟨sections, -, h⟩ := Option.bind_eq_some_iff.mp h
  cases h
  exact hasDistinctKeys_of_definitions hroot

end

end FormDesk.Toml
