import FormDesk.Proofs.Toml.Readable
import FormDesk.Settings
import Mathlib.Algebra.Group.Int.Defs
import Mathlib.Data.Option.Basic
import Mathlib.Tactic.Choose

/-! The settings of a document, field by field. A field is what the document places at its path, or
its default. Of all else in the document only one thing counts: whether its numbers have values. -/
namespace FormDesk
open Toml

/-- A text that is a document in which nothing is defined twice. Its numbers need not have
values. -/
structure Toml.ValidDocument where
  text : List Char
  document : Document
  entries : Entries
  ofText?_eq : Document.ofText? text = some document
  entries?_eq : document.entries? = some entries

namespace Settings

inductive Field where
  | thousandsSeparators
  | precision
  | copyResults
  deriving DecidableEq, Repr

namespace Field

def table : Field → Key
  | .thousandsSeparators => "display".toList
  | .precision => "display".toList
  | .copyResults => "clipboard".toList

def key : Field → Key
  | .thousandsSeparators => "thousands_separators".toList
  | .precision => "precision".toList
  | .copyResults => "copy_results".toList

def path (f : Field) : List Key := [f.table, f.key]

/-- A field of settings as a value. -/
def value (f : Field) (settings : Settings) : Value :=
  match f with
  | .thousandsSeparators => .boolean settings.display.thousandsSeparators
  | .precision => .integer settings.display.precision.toNat
  | .copyResults => .boolean settings.clipboard.copyResults

theorem forall_iff {p : Field → Prop} :
    (∀ f, p f) ↔ p .thousandsSeparators ∧ p .precision ∧ p .copyResults where
  mp h := ⟨h _, h _, h _⟩
  mpr h f := by
    obtain ⟨hthousands, hprecision, hcopy⟩ := h
    cases f <;> assumption

/-- Settings that take each field from settings of its own. -/
def gather (s : Field → Settings) : Settings where
  display :=
    { thousandsSeparators := (s .thousandsSeparators).display.thousandsSeparators
      precision := (s .precision).display.precision }
  clipboard := { copyResults := (s .copyResults).clipboard.copyResults }

end Field

end Settings

/-- What is at a key is a table, if there is anything. -/
def Toml.Entries.TableAt (es : Entries) (key : Key) : Prop :=
  ∀ v, es.lookup key = some v → ∃ origin inner, v = .table origin inner

/-- The tables of the settings are tables where they are present. -/
def Toml.Entries.HasSettingsTables (es : Entries) : Prop :=
  ∀ f : Settings.Field, es.TableAt f.table

namespace Toml

section
variable {es : Entries} {key : Key} {v : Value}

theorem Value.hasFields_table_iff {keys : List Key} {origin : Origin} :
    (Value.table origin es).hasFields keys = true ↔
      ∀ e ∈ es, e.1 ∈ keys ∨ e.2.isReadable = true := by
  simp [hasFields, List.all_eq_true]

/-- A table from which fields are read is readable when their values are, since all others have to
be. -/
theorem entriesReadable_iff_hasFields (hd : es.HasDistinctKeys) (origin : Origin)
    (keys : List Key) : entriesReadable es = true ↔ (Value.table origin es).hasFields keys = true ∧
      ∀ key ∈ keys, ∀ v ∈ es.lookup key, v.isReadable = true := by
  rw [entriesReadable_iff, Value.hasFields_table_iff]
  constructor
  · intro h
    refine ⟨fun e he => Or.inr (h e he), fun key _ v hv => ?_⟩
    obtain ⟨before, behind, rfl, -⟩ := List.lookup_eq_some_iff.mp hv
    exact h (key, v) (by simp)
  · -- A key that stood twice would be looked up once, and its second value passed over.
    intro h e he
    obtain ⟨hothers, hkeys⟩ := h
    obtain ⟨key, v⟩ := e
    rcases hothers _ he with hkey | hv
    · exact hkeys key hkey v (hd.lookup_of_mem he)
    · exact hv

theorem entriesReadable_under_iff_lookup (hkey : es.TableAt key) :
    entriesReadable (es.under key) = true ↔ ∀ v ∈ es.lookup key, v.isReadable = true := by
  rw [entriesReadable_under_iff]
  refine forall₂_congr fun v hv => ?_
  obtain ⟨origin, inner, rfl⟩ := hkey v hv
  rfl

theorem isReadable_of_field {w default : Value} (hw : w.isReadable = true)
    (h : ((es.lookup key).map Value.node).getD (.leaf default) = .leaf w) :
    ∀ v ∈ es.lookup key, v.isReadable = true := by
  intro v hv
  rw [hv] at h
  cases v <;> cases h <;> exact hw

theorem Entries.node?_pair (es : Entries) (t key : Key) :
    es.node? [t, key] = ((es.under t).lookup key).map Value.node := by
  rw [Entries.node?_cons, Entries.under]
  cases es.lookup t with
  | none => rfl
  | some v =>
    cases hkey : v.entries.lookup key <;> simp [Value.node?, hkey]

theorem Value.fieldOr_table {α : Type} (origin : Origin) (es : Entries) (position : Nat) (key : Key)
    (default : α) (read? : Value → Option α) :
    (Value.table origin es).fieldOr position key default read? =
      (es.lookup key).elim (some default) read? := by
  unfold fieldOr field?
  cases hv : es.lookup key <;> simp only [hv, Option.elim]

/-- A table that is missing is as good as an empty one. -/
theorem Value.fieldOr_table_eq {α : Type} {origin : Origin} {position : Nat} {default : α}
    {read? : Value → Option α} (hdefault : read? (.table .header []) = some default)
    (horigin : ∀ origin inner, read? (.table origin inner) = read? (.table .header inner))
    (hkey : es.TableAt key) :
    (Value.table origin es).fieldOr position key default read? =
      read? (.table .header (es.under key)) := by
  rw [fieldOr_table]
  unfold Entries.under
  cases hv : es.lookup key with
  | none => exact hdefault.symm
  | some v =>
    obtain ⟨origin, inner, rfl⟩ := hkey v hv
    exact horigin origin inner

/-- A field is what stands at its key, or else its default. -/
theorem Value.fieldOr_table_eq_some_iff {α : Type} {origin : Origin} {position : Nat}
    {default a : α} {read? : Value → Option α} {write : α → Value}
    (hread : ∀ v a, read? v = some a ↔ v.node = .leaf (write a))
    (hwrite : Function.Injective write) :
    (Value.table origin es).fieldOr position key default read? = some a ↔
      ((es.lookup key).map Value.node).getD (.leaf (write default)) = .leaf (write a) := by
  rw [fieldOr_table]
  cases es.lookup key with
  | none => simp [hwrite.eq_iff]
  | some v => simp [hread]

theorem Value.boolean?_eq_some_iff (v : Value) (b : Bool) :
    v.boolean? = some b ↔ v.node = .leaf (.boolean b) := by
  cases v <;> simp [boolean?, node]

theorem Value.word?_eq_some_iff (v : Value) (w : UInt64) :
    v.word? = some w ↔ v.node = .leaf (.integer w.toNat) := by
  cases v with
  | integer n =>
    have hlt : w.toNat < 2 ^ 64 := w.toNat_lt
    simp only [word?, node, Option.ite_none_right_eq_some, Option.some.injEq, Node.leaf.injEq,
      Value.integer.injEq]
    constructor
    · rintro ⟨⟨hnonneg, hn⟩, rfl⟩
      have hsmall : n.toNat < UInt64.size := by
        change n.toNat < 2 ^ 64
        omega
      rw [UInt64.toNat_ofNat_of_lt' hsmall]
      omega
    · rintro rfl
      exact ⟨⟨by omega, by omega⟩, by simp⟩
  | _ => simp [word?, node]

theorem Value.fieldOr_boolean?_eq_some_iff {origin : Origin} {position : Nat} {default b : Bool} :
    (Value.table origin es).fieldOr position key default (·.boolean?) = some b ↔
      ((es.lookup key).map Value.node).getD (.leaf (.boolean default)) = .leaf (.boolean b) :=
  fieldOr_table_eq_some_iff boolean?_eq_some_iff fun _ _ h => Value.boolean.inj h

theorem Value.fieldOr_word?_eq_some_iff {origin : Origin} {position : Nat} {default w : UInt64} :
    (Value.table origin es).fieldOr position key default (·.word?) = some w ↔
      ((es.lookup key).map Value.node).getD (.leaf (.integer default.toNat)) =
        .leaf (.integer w.toNat) :=
  fieldOr_table_eq_some_iff word?_eq_some_iff fun _ _ h =>
    UInt64.toNat_inj.mp (Int.ofNat.inj (Value.integer.inj h))

end

end Toml

section
variable {es : Entries} {settings : Settings}

theorem DisplaySettings.ofValue?_eq_some_iff {display : DisplaySettings}
    (hd : es.HasDistinctKeys) : ofValue? (.table .header es) = some display ↔
      entriesReadable es = true ∧
        ((es.lookup "thousands_separators".toList).map Value.node).getD (.leaf (.boolean true)) =
          .leaf (.boolean display.thousandsSeparators) ∧
        ((es.lookup "precision".toList).map Value.node).getD (.leaf (.integer 10)) =
          .leaf (.integer display.precision.toNat) := by
  rw [entriesReadable_iff_hasFields hd .header
    ["thousands_separators".toList, "precision".toList], List.forall_mem_cons,
    List.forall_mem_singleton]
  unfold DisplaySettings.ofValue?
  simp only [Option.bind_eq_bind, Option.pure_def, Option.bind_eq_some_iff, Option.guard_eq_some',
    Value.fieldOr_boolean?_eq_some_iff, Value.fieldOr_word?_eq_some_iff]
  constructor
  · intro h
    obtain ⟨-, hfields, separators, hseparators, precision, hprecision, h⟩ := h
    cases h
    exact ⟨⟨hfields, isReadable_of_field rfl hseparators, isReadable_of_field rfl hprecision⟩,
      hseparators, hprecision⟩
  · intro h
    obtain ⟨⟨hfields, -⟩, hseparators, hprecision⟩ := h
    exact ⟨(), hfields, _, hseparators, _, hprecision, rfl⟩

theorem ClipboardSettings.ofValue?_eq_some_iff {clipboard : ClipboardSettings}
    (hd : es.HasDistinctKeys) : ofValue? (.table .header es) = some clipboard ↔
      entriesReadable es = true ∧
        ((es.lookup "copy_results".toList).map Value.node).getD (.leaf (.boolean false)) =
          .leaf (.boolean clipboard.copyResults) := by
  rw [entriesReadable_iff_hasFields hd .header ["copy_results".toList], List.forall_mem_singleton]
  unfold ClipboardSettings.ofValue?
  simp only [Option.bind_eq_bind, Option.pure_def, Option.bind_eq_some_iff, Option.guard_eq_some',
    Value.fieldOr_boolean?_eq_some_iff]
  constructor
  · intro h
    obtain ⟨-, hfields, copy, hcopy, h⟩ := h
    cases h
    exact ⟨⟨hfields, isReadable_of_field rfl hcopy⟩, hcopy⟩
  · intro h
    obtain ⟨⟨hfields, -⟩, hcopy⟩ := h
    exact ⟨(), hfields, _, hcopy, rfl⟩

/-- Settings are those of a document when all numbers have values and each field is what stands at
its path, or else its default. -/
theorem Settings.ofDocument?_eq_some_iff (hd : es.IsDistinct) (ht : es.HasSettingsTables) :
    ofDocument? es = some settings ↔ entriesReadable es = true ∧
      ∀ f : Field, (es.node? f.path).getD (.leaf (f.value {})) = .leaf (f.value settings) := by
  have hdisplay : es.TableAt "display".toList := ht .precision
  have hclipboard : es.TableAt "clipboard".toList := ht .copyResults
  rw [entriesReadable_iff_hasFields hd.keys .header ["display".toList, "clipboard".toList],
    List.forall_mem_cons, List.forall_mem_singleton]
  unfold ofDocument?
  simp only [Option.bind_eq_bind, Option.pure_def, Option.bind_eq_some_iff, Option.guard_eq_some']
  rw [Value.fieldOr_table_eq (by decide) (fun _ _ => rfl) hdisplay,
    Value.fieldOr_table_eq (by decide) (fun _ _ => rfl) hclipboard]
  simp only [DisplaySettings.ofValue?_eq_some_iff (hd.under _),
    ClipboardSettings.ofValue?_eq_some_iff (hd.under _),
    entriesReadable_under_iff_lookup hdisplay, entriesReadable_under_iff_lookup hclipboard,
    Field.forall_iff, Field.path, Entries.node?_pair]
  constructor
  · intro h
    obtain ⟨-, hfields, display, ⟨hreadable, hseparators, hprecision⟩, clipboard,
      ⟨hreadable', hcopy⟩, h⟩ := h
    cases h
    exact ⟨⟨hfields, hreadable, hreadable'⟩, hseparators, hprecision, hcopy⟩
  · intro h
    obtain ⟨⟨hfields, hreadable, hreadable'⟩, hseparators, hprecision, hcopy⟩ := h
    exact ⟨(), hfields, _, ⟨hreadable, hseparators, hprecision⟩, _, ⟨hreadable', hcopy⟩, rfl⟩

end

/-- What a valid document holds at the path of a field is what it places there. -/
theorem Toml.ValidDocument.node?_iff (d : ValidDocument) (ht : d.entries.HasSettingsTables)
    (f : Settings.Field) {n : Node} :
    d.entries.node? f.path = some n ↔ d.document.Places f.path n := by
  rw [Document.node?_iff d.entries?_eq, or_iff_right]
  · intro hnil
    obtain ⟨hpath, -⟩ := Entries.node?_empty_iff.mp hnil
    cases hpath
  · intro s hs keys rest hheader hpath
    obtain ⟨hne, htables⟩ := Document.holdsTables_of_element d.entries?_eq hs hheader
    cases keys with
    | nil => exact absurd rfl hne
    | cons t keys =>
      cases keys with
      | nil =>
        obtain ⟨rfl, -⟩ := List.cons.inj hpath
        obtain ⟨u, hu, hutables⟩ := htables f.table rfl
        obtain ⟨origin, inner, rfl⟩ := ht f u hu
        cases hutables
      | cons key keys =>
        obtain ⟨-, hrest⟩ := List.cons.inj hpath
        obtain ⟨-, hnil⟩ := List.cons.inj hrest
        exact (List.append_eq_nil_iff.mp hnil.symm).2

theorem Toml.ValidDocument.ofToml?_eq (d : ValidDocument) :
    Settings.ofToml? d.text = Settings.ofDocument? d.entries := by
  unfold Settings.ofToml?
  rw [Entries.ofText?_eq, d.ofText?_eq, Option.bind_some, d.entries?_eq]
  rfl

theorem Toml.ValidDocument.isDistinct (d : ValidDocument) : d.entries.IsDistinct :=
  Document.isDistinct d.entries?_eq (Document.hasDistinctKeys_root d.ofText?_eq)

theorem Toml.ValidDocument.isReadable_iff (d : ValidDocument) :
    d.document.IsReadable ↔ entriesReadable d.entries = true :=
  Document.isReadable_iff d.entries?_eq

theorem Toml.ValidDocument.ofToml?_eq_some_iff (d : ValidDocument)
    (ht : d.entries.HasSettingsTables) {settings : Settings} :
    Settings.ofToml? d.text = some settings ↔ d.document.IsReadable ∧ ∀ f : Settings.Field,
      (d.entries.node? f.path).getD (.leaf (f.value {})) = .leaf (f.value settings) := by
  rw [d.ofToml?_eq, Settings.ofDocument?_eq_some_iff d.isDistinct ht, d.isReadable_iff]

/-- A field behind a dotted key, beside a table of no field. -/
def Toml.ValidDocument.dotted : ValidDocument where
  text := "clipboard.copy_results=true\n[x]\n".toList
  document :=
    ⟨[(["clipboard".toList, "copy_results".toList], .boolean true)], [⟨.table ["x".toList], []⟩]⟩
  entries := [("clipboard".toList, .table .dotted [("copy_results".toList, .boolean true)]),
    ("x".toList, .table .header [])]
  ofText?_eq := rfl
  entries?_eq := rfl

end FormDesk
