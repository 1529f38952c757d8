import FormDesk.Proofs.Json.Number
import FormDesk.Proofs.Text.Words
import FormDesk.Text.Basic

/-! A reader of flat objects without blanks, and what it finds in the text of an object: the keys
and the values as they are, but null in the place of a number that is not finite. -/
namespace FormDesk.Json
open Binary64

/-- The members of an object in order, with nothing in the place of null. -/
abbrev Fields := List (List Char × Option Scalar)

/-- The character that an escape stands for, and the length of the escape after its backslash. One
that needs two escapes is not read. -/
def escaped? : List Char → Option (Char × Nat)
  | '"' :: _ => some ('"', 1)
  | '\\' :: _ => some ('\\', 1)
  | '/' :: _ => some ('/', 1)
  | 'b' :: _ => some ('\x08', 1)
  | 'f' :: _ => some ('\x0c', 1)
  | 'n' :: _ => some ('\n', 1)
  | 'r' :: _ => some ('\r', 1)
  | 't' :: _ => some ('\t', 1)
  | 'u' :: s => (Text.scalar? 4 s).map (·, 5)
  | _ => none

/-- Reads a string behind its opening quote. -/
def stringBody : Text.Reader (List Char)
  | [] => none
  | '"' :: s => some ([], s)
  | '\\' :: s => do
    let (c, n) ← escaped? s
    let (t, rest) ← stringBody (s.drop n)
    return (c :: t, rest)
  | c :: s =>
    if 0x20 ≤ c.toNat then do
      let (t, rest) ← stringBody s
      return (c :: t, rest)
    else none
termination_by s => s.length
decreasing_by all_goals simp only [List.length_cons, List.length_drop]; omega

def literal? (s : List Char) : Option (Option Scalar) :=
  if s ∈ Grammar.number.matches' then (ofText? s).map fun v => some (.number v)
  else if s = "true".toList then some (some (.boolean true))
  else if s = "false".toList then some (some (.boolean false))
  else if s = "null".toList then some none
  else none

def isEnd (c : Char) : Bool := c == ',' || c == '}'

/-- Reads a value: a string, or a literal up to the end of the member. -/
def value : Text.Reader (Option Scalar)
  | '"' :: s => (stringBody s).map fun (t, rest) => (some (.string t), rest)
  | s => (literal? (s.takeWhile (!isEnd ·))).map (·, s.dropWhile (!isEnd ·))

def member : Text.Reader (List Char × Option Scalar)
  | '"' :: s => match stringBody s with
    | some (key, ':' :: s) => (value s).map fun (v, rest) => ((key, v), rest)
    | _ => none
  | _ => none

theorem length_stringBody {s t rest : List Char} (h : stringBody s = some (t, rest)) :
    rest.length < s.length := by
  fun_induction stringBody s generalizing t with
  | case1 => cases h
  | case2 s =>
    cases h
    exact Nat.lt_succ_self _
  | case3 s ih =>
    obtain ⟨⟨c, n⟩, -, h⟩ := Option.bind_eq_some_iff.mp h
    obtain ⟨⟨t, rest⟩, hbody, h⟩ := Option.bind_eq_some_iff.mp h
    cases h
    have hlt := ih n hbody
    rw [List.length_drop] at hlt
    rw [List.length_cons]
    omega
  | case4 c s hquote hescape hplain ih =>
    obtain ⟨⟨t, rest⟩, hbody, h⟩ := Option.bind_eq_some_iff.mp h
    cases h
    have hlt := ih hbody
    rw [List.length_cons]
    omega
  | case5 => cases h

theorem length_value {s rest : List Char} {v : Option Scalar} (h : value s = some (v, rest)) :
    rest.length ≤ s.length := by
  unfold value at h
  split at h
  · obtain ⟨⟨t, rest⟩, hbody, h⟩ := Option.map_eq_some_iff.mp h
    cases h
    have hlt := length_stringBody hbody
    rw [List.length_cons]
    omega
  · obtain ⟨v, -, h⟩ := Option.map_eq_some_iff.mp h
    cases h
    exact (List.dropWhile_sublist _).length_le

theorem length_member {s rest : List Char} {field : List Char × Option Scalar}
    (h : member s = some (field, rest)) : rest.length < s.length := by
  unfold member at h
  split at h
  · split at h
    · next hbody =>
      obtain ⟨⟨v, rest⟩, hvalue, h⟩ := Option.map_eq_some_iff.mp h
      cases h
      have hkey := length_stringBody hbody
      have hrest := length_value hvalue
      rw [List.length_cons] at hkey ⊢
      omega
    · cases h
  · cases h

/-- Reads the members of an object with the brace behind them. -/
def members? (s : List Char) : Option Fields :=
  match _ : member s with
  | some (field, ',' :: rest) => (members? rest).map (field :: ·)
  | some (field, ['}']) => some [field]
  | _ => none
termination_by s.length
decreasing_by
  have hlt := length_member ‹_›
  rw [List.length_cons] at hlt
  omega

/-- Reads an object that is the whole of a text. -/
def fields? : List Char → Option Fields
  | '{' :: s => if s = ['}'] then some [] else members? s
  | _ => none

theorem stringBody_escaped {u s : List Char} {c : Char}
    (h : escaped? (u ++ s) = some (c, u.length)) :
    stringBody ('\\' :: (u ++ s)) = (stringBody s).map fun p => (c :: p.1, p.2) := by
  rw [stringBody, h]
  simp only [Option.bind_eq_bind, Option.bind_some, List.drop_left]
  cases stringBody s with
  | none => rfl
  | some body => rfl

theorem stringBody_plain {c : Char} {s : List Char} (hquote : c ≠ '"') (hbackslash : c ≠ '\\')
    (hplain : 0x20 ≤ c.toNat) :
    stringBody (c :: s) = (stringBody s).map fun p => (c :: p.1, p.2) := by
  rw [stringBody, if_pos hplain]
  · cases stringBody s with
    | none => rfl
    | some body => rfl
  · exact hquote
  · exact hbackslash

/-- The digits of an escaped control character give its code point. -/
theorem escaped?_unicodeEscape {c : Char} (h : c.toNat < 0x20) (s : List Char) :
    escaped? ((unicodeEscape c).drop 1 ++ s) = some (c, 5) := by
  have hall : ∀ n < 0x20, Text.scalar? 4 ['0', '0', Nat.digitChar (n / 16),
      Nat.digitChar (n % 16)] = some (Char.ofNat n) := by decide
  have hscalar := hall c.toNat h
  rw [Char.ofNat_toNat] at hscalar
  calc escaped? ((unicodeEscape c).drop 1 ++ s)
      = (Text.scalar? 4 ['0', '0', Nat.digitChar (c.toNat / 16),
          Nat.digitChar (c.toNat % 16)]).map (·, 5) := rfl
    _ = some (c, 5) := by rw [hscalar, Option.map_some]

/-- One character is read, then the string. -/
theorem stringBody_escape (c : Char) (s : List Char) :
    stringBody (escape c ++ s) = (stringBody s).map fun p => (c :: p.1, p.2) := by
  unfold escape
  split
  case h_8 _ hquote hbackslash _ _ _ _ _ =>
    split_ifs with hcontrol
    · exact stringBody_escaped (escaped?_unicodeEscape hcontrol s)
    · exact stringBody_plain hquote hbackslash (Nat.le_of_not_lt hcontrol)
  all_goals exact stringBody_escaped (s := s) rfl

theorem stringBody_flatMap_escape (t rest : List Char) :
    stringBody (t.flatMap escape ++ '"' :: rest) = some (t, rest) := by
  induction t with
  | nil => rw [List.flatMap_nil, List.nil_append, stringBody]
  | cons c t ih =>
    rw [List.flatMap_cons, List.append_assoc, stringBody_escape, ih, Option.map_some]

/-- A string is read back, whatever it holds. -/
theorem stringBody_quote (s rest : List Char) :
    ∃ t, quote s ++ rest = '"' :: t ∧ stringBody t = some (s, rest) := by
  refine ⟨s.flatMap escape ++ '"' :: rest, ?_, stringBody_flatMap_escape s rest⟩
  rw [quote, List.cons_append, List.cons_append, List.append_assoc, List.singleton_append]

/-- What a value is read as. -/
def Scalar.read : Scalar → Option Scalar
  | .boolean b => some (.boolean b)
  | .number v => if v.isFinite then some (.number v) else none
  | .string s => some (.string s)

/-- The text holds no character at which a value begins or ends. -/
def isInside (s : List Char) : Bool := s.all fun c => c != '"' && !isEnd c

theorem isInside_numberText (negative : Bool) (m : Magnitude) :
    isInside (numberText (.finite negative m)) = true := by
  refine List.all_eq_true.mpr fun c hc => ?_
  have hchar := List.all_eq_true.mp (all_isNumberChar_numberText negative m) c hc
  simp only [isEnd, Bool.and_eq_true, Bool.not_eq_true', Bool.or_eq_false_iff,
    beq_eq_false_iff_ne, bne_iff_ne]
  refine ⟨?_, ?_, ?_⟩ <;> rintro rfl <;> cases hchar

theorem value_of_literal? {s : List Char} {v : Option Scalar} (hs : isInside s = true)
    (hv : literal? s = some v) {c : Char} (hc : isEnd c = true) (rest : List Char) :
    value (s ++ c :: rest) = some (v, c :: rest) := by
  have hinside : ∀ d ∈ s, d ≠ '"' ∧ (!isEnd d) = true := by
    simpa only [isInside, List.all_eq_true, Bool.and_eq_true, bne_iff_ne] using hs
  have hpart : ∀ d ∈ s, (!isEnd d) = true := fun d hd => (hinside d hd).2
  have htake : (s ++ c :: rest).takeWhile (!isEnd ·) = s := by
    rw [List.takeWhile_append_of_pos hpart, List.takeWhile_cons_of_neg (by simp [hc]),
      List.append_nil]
  have hdrop : (s ++ c :: rest).dropWhile (!isEnd ·) = c :: rest := by
    rw [List.dropWhile_append_of_pos hpart, List.dropWhile_cons_of_neg (by simp [hc])]
  have hquote : ∀ t, s ++ c :: rest ≠ '"' :: t := by
    intro t ht
    cases s with
    | nil =>
      obtain ⟨rfl, -⟩ := List.cons.inj ht
      cases hc
    | cons d s =>
      obtain ⟨rfl, -⟩ := List.cons.inj ht
      exact (hinside '"' List.mem_cons_self).1 rfl
  unfold value
  split
  · next t ht => exact absurd ht (hquote t)
  · rw [htake, hdrop, hv, Option.map_some]

/-- Reading a value ends before the character that ends its member. -/
theorem value_text (v : Scalar) {c : Char} (hc : isEnd c = true) (rest : List Char) :
    value (v.text ++ c :: rest) = some (v.read, c :: rest) := by
  have hnull : literal? "null".toList = some none := by decide
  cases v with
  | boolean b =>
    have hliteral : literal? (Scalar.boolean b).text = some (some (.boolean b)) := by
      cases b <;> decide
    exact value_of_literal? (by cases b <;> rfl) hliteral hc rest
  | number v =>
    cases v with
    | nan => exact value_of_literal? rfl hnull hc rest
    | infinity negative => exact value_of_literal? rfl hnull hc rest
    | finite negative m =>
      obtain ⟨hnumber, hread⟩ := numberText_finite negative m
      refine value_of_literal? (isInside_numberText negative m) ?_ hc rest
      rw [literal?, if_pos hnumber, hread]
      rfl
  | string s =>
    obtain ⟨t, htext, hbody⟩ := stringBody_quote s (c :: rest)
    rw [Scalar.text, htext, value, hbody]
    rfl

def memberText (field : List Char × Scalar) : List Char := quote field.1 ++ ':' :: field.2.text

theorem member_memberText (field : List Char × Scalar) {c : Char} (hc : isEnd c = true)
    (rest : List Char) :
    member (memberText field ++ c :: rest) = some ((field.1, field.2.read), c :: rest) := by
  obtain ⟨t, htext, hbody⟩ := stringBody_quote field.1 (':' :: (field.2.text ++ c :: rest))
  rw [memberText, List.append_assoc, List.cons_append, htext, member, hbody]
  simp only [value_text field.2 hc rest, Option.map_some]

theorem members?_of_comma {s rest : List Char} {field : List Char × Option Scalar}
    (h : member s = some (field, ',' :: rest)) :
    members? s = (members? rest).map (field :: ·) := by
  rw [members?]
  split
  · next heq =>
    rw [h] at heq
    cases heq
    rfl
  · next heq =>
    rw [h] at heq
    cases heq
  · next hcomma _ => exact absurd h (hcomma _ _)

theorem members?_of_brace {s : List Char} {field : List Char × Option Scalar}
    (h : member s = some (field, ['}'])) : members? s = some [field] := by
  rw [members?]
  split
  · next heq =>
    rw [h] at heq
    cases heq
  · next heq =>
    rw [h] at heq
    cases heq
    rfl
  · next hbrace => exact absurd h (hbrace _)

/-- What an object is read as. -/
def Object.read (o : Object) : Fields := o.map fun field => (field.1, field.2.read)

theorem members?_text {o : Object} (hne : o ≠ []) :
    members? (List.intercalate [','] (o.map memberText) ++ ['}']) = some o.read := by
  induction o with
  | nil => exact absurd rfl hne
  | cons field o ih =>
    cases o with
    | nil =>
      have hmember := member_memberText field (c := '}') rfl []
      rw [List.map_singleton, List.intercalate_singleton, members?_of_brace hmember]
      rfl
    | cons next o =>
      have hmember := member_memberText field (c := ',') rfl
        (List.intercalate [','] ((next :: o).map memberText) ++ ['}'])
      have hsplit : List.intercalate [','] ((field :: next :: o).map memberText) ++ ['}'] =
          memberText field ++
            ',' :: (List.intercalate [','] ((next :: o).map memberText) ++ ['}']) := by
        simp only [List.map_cons, List.intercalate_cons_cons, List.append_assoc,
          List.singleton_append]
        rfl
      rw [hsplit, members?_of_comma hmember, ih (List.cons_ne_nil _ _)]
      rfl

/-- The text of an object is read back. -/
theorem fields?_text (o : Object) : fields? o.text = some o.read := by
  have htext : o.text = '{' :: (List.intercalate [','] (o.map memberText) ++ ['}']) := rfl
  rw [htext, fields?]
  cases o with
  | nil => rfl
  | cons field o =>
    refine (if_neg fun hempty => ?_).trans (members?_text (List.cons_ne_nil field o))
    have hnil := List.append_left_eq_self.mp hempty
    have hquote : '"' ∈ memberText field := List.mem_cons_self
    have hmem : '"' ∈ List.intercalate [','] ((field :: o).map memberText) :=
      Text.mem_intercalate_of_mem (List.mem_map_of_mem List.mem_cons_self) hquote
    rw [hnil] at hmem
    cases hmem

end FormDesk.Json
