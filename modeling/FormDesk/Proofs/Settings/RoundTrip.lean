import FormDesk.Proofs.Settings.Fields
import FormDesk.Proofs.Toml.Number
import FormDesk.Proofs.Toml.Written

/-! The text of settings is a valid document that holds each field at its path, so that the settings
are read back from it. -/
namespace FormDesk.Settings
open Toml

attribute [local instance (high)] instPowNat

namespace Field

def bareKey (f : Field) : BareKey where
  key := f.key
  ne_nil := by cases f <;> decide
  isBareKey := List.all_eq_true.mp (by cases f <;> rfl)

def bareTable (f : Field) : BareKey where
  key := f.table
  ne_nil := by cases f <;> decide
  isBareKey := List.all_eq_true.mp (by cases f <;> rfl)

/-- The token that is written for a field. -/
def token (f : Field) (settings : Settings) : List Char :=
  match f with
  | .thousandsSeparators => booleanText settings.display.thousandsSeparators
  | .precision => Nat.toDigits 10 settings.display.precision.toNat
  | .copyResults => booleanText settings.clipboard.copyResults

end Field

theorem ofToken?_booleanText (b : Bool) : Value.ofToken? (booleanText b) = some (.boolean b) := by
  cases b <;> rfl

theorem all_isTokenChar_booleanText (b : Bool) : (booleanText b).all isTokenChar = true := by
  cases b <;> rfl

theorem return_notMem_booleanText (b : Bool) : '\r' ∉ booleanText b := by
  cases b <;> decide

theorem booleanText_ne_nil (b : Bool) : booleanText b ≠ [] := by
  cases b <;> decide

theorem all_isTokenChar_toDigits (n : Nat) : (Nat.toDigits 10 n).all isTokenChar = true := by
  refine List.all_eq_true.mpr fun c hc => isTokenChar_of_isBareKey ?_
  have hdigit : c.isDigit = true := List.all_eq_true.mp (Numeral.all_isDigit_toDigits n) c hc
  simp [isBareKey, Char.isAlphanum, hdigit]

/-- The line of a field. -/
def Field.line (f : Field) (settings : Settings) : PlainLine where
  key := f.bareKey
  token := f.token settings
  value := f.value settings
  ne_nil := by
    cases f with
    | precision => exact Nat.toDigits_ne_nil
    | _ => exact booleanText_ne_nil _
  isTokenChar := by
    refine List.all_eq_true.mp ?_
    cases f with
    | precision => exact all_isTokenChar_toDigits _
    | _ => exact all_isTokenChar_booleanText _
  return_notMem := by
    cases f with
    | precision => exact Numeral.notMem_of_all_isDigit (Numeral.all_isDigit_toDigits _) (by decide)
    | _ => exact return_notMem_booleanText _
  ofToken?_eq := by
    cases f with
    | precision =>
      have hlt : settings.display.precision.toNat < 2 ^ 64 := UInt64.toNat_lt _
      exact Value.ofToken?_toDigits (by omega)
    | _ => exact ofToken?_booleanText _

/-- The sections of the text of settings. -/
def plain (settings : Settings) : List PlainSection :=
  [⟨Field.precision.bareTable,
    [Field.thousandsSeparators.line settings, Field.precision.line settings]⟩,
   ⟨Field.copyResults.bareTable, [Field.copyResults.line settings]⟩]

theorem toToml_eq_document (settings : Settings) :
    settings.toToml = PlainSection.document settings.plain := by
  have hdisplay : "[display]\nthousands_separators = ".toList =
      '[' :: "display".toList ++ "]\n".toList ++ "thousands_separators".toList ++ " = ".toList := rfl
  have hprecision : "\nprecision = ".toList = '\n' :: "precision".toList ++ " = ".toList := rfl
  have hclipboard : "\n\n[clipboard]\ncopy_results = ".toList = '\n' :: '\n' :: '[' ::
      "clipboard".toList ++ "]\n".toList ++ "copy_results".toList ++ " = ".toList := rfl
  have htext : settings.toToml =
      "[display]\nthousands_separators = ".toList ++
        booleanText settings.display.thousandsSeparators ++ "\nprecision = ".toList ++
        Nat.toDigits 10 settings.display.precision.toNat ++
        "\n\n[clipboard]\ncopy_results = ".toList ++
        booleanText settings.clipboard.copyResults ++ ['\n'] := rfl
  have hplain : PlainSection.document settings.plain =
      '[' :: "display".toList ++ "]\n".toList ++
        (("thousands_separators".toList ++ " = ".toList ++
            booleanText settings.display.thousandsSeparators ++ ['\n']) ++
          (("precision".toList ++ " = ".toList ++
            Nat.toDigits 10 settings.display.precision.toNat ++ ['\n']) ++ [])) ++
      '\n' :: ('[' :: "clipboard".toList ++ "]\n".toList ++
        (("copy_results".toList ++ " = ".toList ++
          booleanText settings.clipboard.copyResults ++ ['\n']) ++ [])) := rfl
  rw [htext, hplain, hdisplay, hprecision, hclipboard]
  simp only [List.append_assoc, List.cons_append, List.nil_append, List.append_nil]

/-- The text of settings as a document. -/
def written (settings : Settings) : ValidDocument where
  text := settings.toToml
  document := ⟨[], settings.plain.map PlainSection.toSection⟩
  entries :=
    [("display".toList, .table .header
      [("thousands_separators".toList, .boolean settings.display.thousandsSeparators),
        ("precision".toList, .integer settings.display.precision.toNat)]),
     ("clipboard".toList, .table .header
      [("copy_results".toList, .boolean settings.clipboard.copyResults)])]
  ofText?_eq := by rw [toToml_eq_document, Document.ofText?_document]
  entries?_eq := rfl

theorem hasSettingsTables_written (settings : Settings) :
    settings.written.entries.HasSettingsTables := by
  intro f v hv
  cases f <;> cases hv <;> exact ⟨_, _, rfl⟩

theorem node?_written (settings : Settings) (f : Field) :
    settings.written.entries.node? f.path = some (.leaf (f.value settings)) := by
  cases f <;> rfl

/-- Settings are read back from their text. -/
theorem ofToml?_toToml (settings : Settings) : ofToml? settings.toToml = some settings := by
  refine (settings.written.ofToml?_eq_some_iff settings.hasSettingsTables_written).mpr
    ⟨settings.written.isReadable_iff.mpr rfl, fun f => ?_⟩
  rw [node?_written, Option.getD_some]

end FormDesk.Settings
