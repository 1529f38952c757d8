import FormDesk.Proofs.Toml.Paths
import FormDesk.Toml.Document

/-! What a document holds. It is read as definitions and sections, and at every path it holds what
one of them places there, wherever it stands and however its path is spelled; only a header that
adds to an array of tables hides what was behind its path before. -/
namespace FormDesk.Toml

def Header.path : Header → List Key
  | .table path => path
  | .element path => path

/-- The definitions of a section, with the path of its header before their own. The header defines
an empty table. -/
def Section.absolute (s : Section) : List Definition :=
  (s.header.path, .table .header []) :: s.definitions.map fun d => (s.header.path ++ d.1, d.2)

/-- A document as it is written: the definitions before the first header, and the sections. -/
structure Document where
  root : List Definition
  sections : List Section

namespace Document

def ofText? (s : List Char) : Option Document := do
  let s ← unifyLineEnds (dropMark s)
  let (root, s) ← definitions s.length s
  return ⟨root, ← Toml.sections s.length s⟩

/-- The root table of a document. There is none when something is defined twice. -/
def entries? (d : Document) : Option Entries := do
  d.sections.foldlM Entries.addSection (← Entries.defineAll [] d.root)

/-- All definitions of a document, with the paths of the headers before their own. -/
def absolute (d : Document) : List Definition := d.root ++ d.sections.flatMap Section.absolute

/-- What a document places at a path. -/
def Places (d : Document) (path : List Key) (n : Node) : Prop :=
  ∃ x ∈ d.absolute, x.Places path n

end Document

theorem Entries.ofText?_eq (s : List Char) :
    ofText? s = (Document.ofText? s).bind Document.entries? := by
  unfold ofText? Document.ofText?
  cases unifyLineEnds (dropMark s) with
  | none => rfl
  | some s =>
    simp only [Option.bind_eq_bind, Option.bind_some]
    cases definitions s.length s with
    | none => rfl
    | some read =>
      obtain ⟨root, rest⟩ := read
      simp only [Option.bind_some]
      cases hrest : sections rest.length rest with
      | none => cases Entries.defineAll [] root <;> rfl
      | some ss => cases hroot : Entries.defineAll [] root <;> simp [Document.entries?, hroot]

section
variable {es es' : Entries} {ds : List Definition} {path rest : List Key} {n : Node}
  {old : Option Value} {w : Value}

/-- What a section places behind the path of its header. -/
def Opened (ds : List Definition) (rest : List Key) (n : Node) : Prop :=
  Entries.node? [] rest = some n ∨ ∃ d ∈ ds, d.Places rest n

theorem Section.exists_places_iff (s : Section) :
    (∃ d ∈ s.absolute, d.Places path n) ↔ Along (Opened s.definitions) s.header.path path n := by
  unfold Section.absolute
  generalize s.header.path = keys
  induction keys generalizing path with
  | nil => simp [Along, Opened, Definition.Places, Entries.node?]
  | cons key keys ih =>
    cases path with
    | nil => simp [Along, Definition.Places]
    | cons k path =>
      rw [along_cons_cons, ← ih]
      by_cases hk : k = key
      · simp [Along, Definition.Places, hk]
      · simp [Along, Definition.Places, hk]

theorem node?_openTable_iff (h : openTable ds old = some w) : w.node? rest = some n ↔
    (∃ u, old = some u ∧ u.node? rest = some n) ∨ Opened ds rest n := by
  unfold openTable at h
  split at h
  · obtain ⟨es, hes, rfl⟩ := Option.map_eq_some_iff.mp h
    rw [Value.node?_table, Entries.node?_defineAll_iff hes, Opened]
    exact (or_iff_right nofun).symm
  · next es =>
    obtain ⟨es', hes', rfl⟩ := Option.map_eq_some_iff.mp h
    have hnil : Entries.node? [] rest = some n → Entries.node? es rest = some n := by
      intro hrest
      obtain ⟨rfl, rfl⟩ := Entries.node?_empty_iff.mp hrest
      rfl
    simp only [Value.node?_table, Entries.node?_defineAll_iff hes', Opened, Option.some.injEq,
      exists_eq_left', ← or_assoc, or_iff_left_of_imp hnil]
  · cases h

theorem node?_addTable_iff (h : addTable ds old = some w) : w.node? rest = some n ↔
    Opened ds rest n := by
  unfold addTable at h
  split at h
  · obtain ⟨es, hes, rfl⟩ := Option.map_eq_some_iff.mp h
    rw [Value.node?_tables, Entries.node?_defineAll_iff hes, Opened]
  · obtain ⟨es, hes, rfl⟩ := Option.map_eq_some_iff.mp h
    rw [Value.node?_tables, Entries.node?_defineAll_iff hes, Opened]
  · cases h

theorem node_eq_of_addTable {u : Value} (h : addTable ds (some u) = some w) :
    u.node = .inner := by
  cases u with
  | tables earlier last => rfl
  | _ => cases h

/-- A section adds what it places, unless it hides what was behind its path. -/
theorem Entries.node?_addSection_iff {s : Section} (h : es.addSection s = some es')
    (hpath : ∀ keys rest, s.header = .element keys → path = keys ++ rest → rest = []) :
    es'.node? path = some n ↔ es.node? path = some n ∨ ∃ d ∈ s.absolute, d.Places path n := by
  rw [Section.exists_places_iff]
  unfold Entries.addSection at h
  cases hheader : s.header with
  | table keys =>
    rw [hheader] at h
    exact Entries.node?_alter_iff h fun rest _ old w hw => node?_openTable_iff hw
  | element keys =>
    rw [hheader] at h
    refine Entries.node?_alter_iff h fun rest hrest old w hw => ?_
    obtain rfl : rest = [] := hpath keys rest hheader hrest
    rw [node?_addTable_iff hw]
    refine (or_iff_right_of_imp ?_).symm
    rintro ⟨u, rfl, hu⟩
    have hn : some u.node = some n := hu
    rw [node_eq_of_addTable hw] at hn
    exact Or.inl hn

theorem Document.node?_iff {d : Document} (h : d.entries? = some es)
    (hpath : ∀ s ∈ d.sections, ∀ keys rest, s.header = .element keys → path = keys ++ rest →
      rest = []) :
    es.node? path = some n ↔ Entries.node? [] path = some n ∨ d.Places path n := by
  obtain ⟨root, sections⟩ := d
  obtain ⟨start, hstart, hfold⟩ := Option.bind_eq_some_iff.mp h
  suffices es.node? path = some n ↔ start.node? path = some n ∨
      ∃ x ∈ sections.flatMap Section.absolute, x.Places path n by
    rw [this, Entries.node?_defineAll_iff hstart, or_assoc]
    simp only [Document.Places, Document.absolute, List.mem_append, or_and_right, exists_or]
  clear hstart h
  induction sections generalizing start with
  | nil =>
    cases hfold
    simp
  | cons s sections ih =>
    obtain ⟨next, hnext, hfold⟩ := Option.bind_eq_some_iff.mp hfold
    obtain ⟨hs, hsections⟩ := List.forall_mem_cons.mp hpath
    rw [ih hsections next hfold, Entries.node?_addSection_iff hnext hs, or_assoc]
    simp only [List.flatMap_cons, List.mem_append, or_and_right, exists_or]

end

/-- There is an array of tables at a key. -/
def Entries.HoldsTables (es : Entries) (key : Key) : Prop :=
  ∃ u, es.lookup key = some u ∧ u.isTables = true

section
variable {es es' : Entries} {key t : Key} {w : Value}

theorem Entries.HoldsTables.put (h : es.HoldsTables t)
    (hw : ∀ u ∈ es.lookup key, u.isTables = true → w.isTables = true) :
    (es.put key w).HoldsTables t := by
  obtain ⟨u, hu, htables⟩ := h
  unfold Entries.HoldsTables
  rw [Entries.lookup_put]
  split_ifs with hkey
  · subst hkey
    exact ⟨w, rfl, hw u hu htables⟩
  · exact ⟨u, hu, htables⟩

theorem openTable_of_isTables {ds : List Definition} {u : Value} (hu : u.isTables = true) :
    openTable ds (some u) = none := by
  cases u with
  | tables earlier last => rfl
  | _ => cases hu

theorem isTables_addTable {ds : List Definition} {old : Option Value}
    (h : addTable ds old = some w) : w.isTables = true := by
  unfold addTable at h
  split at h
  · obtain ⟨es, -, rfl⟩ := Option.map_eq_some_iff.mp h
    rfl
  · obtain ⟨es, -, rfl⟩ := Option.map_eq_some_iff.mp h
    rfl
  · cases h

theorem Entries.HoldsTables.alter {f : Option Value → Option Value} {keys : List Key}
    (ht : es.HoldsTables t) (h : es.alter f keys = some es')
    (hf : ∀ u w, u.isTables = true → f (some u) = some w → w.isTables = true) :
    es'.HoldsTables t := by
  cases keys with
  | nil => cases h
  | cons key keys =>
    obtain ⟨w, rfl, ⟨-, hw⟩ | ⟨inner, -, hw⟩⟩ := Entries.alter_cons h
    · refine ht.put fun u hu htables => ?_
      rw [hu] at hw
      exact hf u w htables hw
    · refine ht.put fun u hu htables => ?_
      rwa [← hw.isTables_eq_of_mem u hu]

/-- An array of tables stays one. -/
theorem Entries.HoldsTables.addSection {s : Section} (ht : es.HoldsTables t)
    (h : es.addSection s = some es') : es'.HoldsTables t := by
  unfold Entries.addSection at h
  split at h
  · refine ht.alter h fun u w hu hw => ?_
    rw [openTable_of_isTables hu] at hw
    cases hw
  · exact ht.alter h fun u w _ hw => isTables_addTable hw

theorem Entries.holdsTables_of_element {s : Section} {keys : List Key}
    (h : es.addSection s = some es') (hs : s.header = .element keys) :
    keys ≠ [] ∧ ∀ t, keys = [t] → es'.HoldsTables t := by
  simp only [Entries.addSection, hs] at h
  refine ⟨?_, ?_⟩
  · rintro rfl
    cases h
  · rintro t rfl
    obtain ⟨w, rfl, ⟨-, hw⟩ | ⟨inner, hinner, -⟩⟩ := Entries.alter_cons h
    · refine ⟨w, ?_, isTables_addTable hw⟩
      rw [Entries.lookup_put, if_pos rfl]
    · cases hinner

theorem Entries.HoldsTables.addSections {sections : List Section} (ht : es.HoldsTables t)
    (h : sections.foldlM Entries.addSection es = some es') : es'.HoldsTables t := by
  induction sections generalizing es with
  | nil =>
    cases h
    exact ht
  | cons s sections ih =>
    obtain ⟨next, hnext, hrest⟩ := Option.bind_eq_some_iff.mp h
    exact ih (ht.addSection hnext) hrest

/-- A header of a document that adds to an array of tables has a path, and the array is there. -/
theorem Document.holdsTables_of_element {d : Document} (h : d.entries? = some es) {s : Section}
    (hs : s ∈ d.sections) {keys : List Key} (hheader : s.header = .element keys) :
    keys ≠ [] ∧ ∀ t, keys = [t] → es.HoldsTables t := by
  obtain ⟨root, sections⟩ := d
  obtain ⟨start, -, hfold⟩ := Option.bind_eq_some_iff.mp h
  clear h
  change s ∈ sections at hs
  change sections.foldlM Entries.addSection start = some es at hfold
  induction sections generalizing start with
  | nil => cases hs
  | cons first sections ih =>
    obtain ⟨next, hnext, hrest⟩ := Option.bind_eq_some_iff.mp hfold
    rcases List.mem_cons.mp hs with rfl | hs
    · obtain ⟨hne, htables⟩ := Entries.holdsTables_of_element hnext hheader
      exact ⟨hne, fun t ht => (htables t ht).addSections hrest⟩
    · exact ih next hs hrest

end

end FormDesk.Toml
