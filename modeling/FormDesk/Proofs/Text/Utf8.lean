import FormDesk.Proofs.Text.Cut
import FormDesk.Text.Basic

/-! Texts as bytes, and the lines of an input and of an output. The bytes below 128 are characters
of their own, so that a line feed or a carriage return in the bytes is one in the text. -/
namespace FormDesk.Text

/-- A line feed ends a line, whatever comes after it. -/
theorem byteLines_append_lineFeed (a b : List UInt8) : byteLines (a ++ lineFeed :: b) =
    (a.splitOnP (· == lineFeed)).map dropReturn ++ byteLines b := by
  have hcut : (a ++ lineFeed :: b).splitOnP (· == lineFeed) =
      a.splitOnP (· == lineFeed) ++ b.splitOnP (· == lineFeed) :=
    List.splitOnP_append_cons a b (beq_self_eq_true lineFeed)
  have hne := List.splitOnP_ne_nil (· == lineFeed) b
  unfold byteLines
  simp only [hcut, List.dropLast_append_of_ne_nil hne, List.map_append, List.append_assoc,
    List.getLast?_append_of_ne_nil _ hne]

@[simp] theorem byteLines_nil : byteLines [] = [] := rfl

/-- The input is empty or ends with a line feed, so that what is added begins a line. -/
def EndsLine (a : List UInt8) : Prop := a = [] ∨ a.getLast? = some lineFeed

theorem EndsLine.byteLines_append {a : List UInt8} (h : EndsLine a) (b : List UInt8) :
    byteLines (a ++ b) = byteLines a ++ byteLines b := by
  rcases h with rfl | hlast
  · rfl
  · obtain ⟨a, rfl⟩ := List.getLast?_eq_some_iff.mp hlast
    rw [List.append_assoc, List.singleton_append, byteLines_append_lineFeed,
      byteLines_append_lineFeed, byteLines_nil, List.append_nil]

/-- Lines that are written with a line feed after each are read back. -/
theorem splitOn_flatMap_newline {lines : List (List Char)} (h : ∀ line ∈ lines, '\n' ∉ line) :
    (lines.flatMap (· ++ ['\n'])).splitOn '\n' = lines ++ [[]] := by
  induction lines with
  | nil => rfl
  | cons line lines ih =>
    obtain ⟨hline, hlines⟩ := List.forall_mem_cons.mp h
    have hpart : ∀ c ∈ line, (c == '\n') = false := fun c hc =>
      beq_false_of_ne fun hnewline => hline (hnewline ▸ hc)
    rw [List.flatMap_cons, List.append_assoc, List.singleton_append, List.splitOn,
      splitOnP_part_cons hpart rfl, ← List.splitOn, ih hlines, List.cons_append]

/-- The bytes of a text. -/
def utf8 (s : List Char) : List UInt8 := s.flatMap String.utf8EncodeChar

theorem utf8_append (s t : List Char) : utf8 (s ++ t) = utf8 s ++ utf8 t := List.flatMap_append

theorem utf8Encode_eq (s : List Char) : s.utf8Encode.data.toList = utf8 s := by
  simp [List.utf8Encode, utf8]

theorem ofUtf8?_utf8 (s : List Char) : ofUtf8? (utf8 s) = some s := by
  rw [← utf8Encode_eq, ofUtf8?_utf8Encode]

theorem ofUtf8?_eq_some_iff {bytes : List UInt8} {s : List Char} :
    ofUtf8? bytes = some s ↔ bytes = utf8 s := by
  constructor
  · intro h
    obtain ⟨chars, hchars, rfl⟩ := Option.map_eq_some_iff.mp h
    have hsome : (ByteArray.utf8Decode? ⟨bytes.toArray⟩).isSome = true := by
      rw [hchars]
      rfl
    have hencode := ByteArray.utf8Encode_get_utf8Decode? (h := hsome)
    simp only [hchars, Option.get_some] at hencode
    rw [← utf8Encode_eq, hencode]
  · intro h
    rw [h, ofUtf8?_utf8]

theorem utf8EncodeChar_of_lt {c : Char} (h : c.toNat < 128) :
    String.utf8EncodeChar c = [UInt8.ofNat c.toNat] := if_pos (Nat.lt_succ_iff.mp h)

theorem le_toNat_of_mem_utf8EncodeChar {c : Char} (hc : 128 ≤ c.toNat) {b : UInt8}
    (h : b ∈ String.utf8EncodeChar c) : 128 ≤ b.toNat := by
  change 128 ≤ c.val.toNat at hc
  unfold String.utf8EncodeChar at h
  dsimp only at h
  split_ifs at h with hone htwo hthree
  · omega
  all_goals simp only [List.mem_cons, List.not_mem_nil, or_false] at h
  · rcases h with rfl | rfl <;> rw [UInt8.toNat_ofNat'] <;> omega
  · rcases h with rfl | rfl | rfl <;> rw [UInt8.toNat_ofNat'] <;> omega
  · rcases h with rfl | rfl | rfl | rfl <;> rw [UInt8.toNat_ofNat'] <;> omega

/-- A byte below 128 is the whole of its character. -/
theorem utf8EncodeChar_of_mem {c d : Char} (hd : d.toNat < 128)
    (h : UInt8.ofNat d.toNat ∈ String.utf8EncodeChar c) : c = d := by
  have hbyte : (UInt8.ofNat d.toNat).toNat = d.toNat := by
    rw [UInt8.toNat_ofNat']
    omega
  rcases Nat.lt_or_ge c.toNat 128 with hc | hc
  · rw [utf8EncodeChar_of_lt hc, List.mem_singleton] at h
    have heq := congrArg UInt8.toNat h
    rw [hbyte, UInt8.toNat_ofNat'] at heq
    exact Char.toNat_inj.mp (by omega)
  · have hle := le_toNat_of_mem_utf8EncodeChar hc h
    omega

theorem lineFeed_notMem_utf8 {s : List Char} (h : '\n' ∉ s) : lineFeed ∉ utf8 s := by
  intro hmem
  obtain ⟨c, hc, hbyte⟩ := List.mem_flatMap.mp hmem
  have hnewline : c = '\n' := utf8EncodeChar_of_mem (d := '\n') (by decide) hbyte
  exact h (hnewline ▸ hc)

/-- A carriage return behind bytes is one behind their text. -/
theorem ofUtf8?_append_return (bytes : List UInt8) :
    ofUtf8? (bytes ++ [carriageReturn]) = (ofUtf8? bytes).map (· ++ ['\r']) := by
  have hreturn : utf8 ['\r'] = [carriageReturn] := by decide
  refine Option.ext fun s => ?_
  rw [ofUtf8?_eq_some_iff, Option.map_eq_some_iff]
  constructor
  · intro h
    rcases List.eq_nil_or_concat' s with rfl | ⟨t, c, rfl⟩
    · exact absurd h (List.append_ne_nil_of_right_ne_nil _ (List.cons_ne_nil _ _))
    have hsplit : utf8 (t ++ [c]) = utf8 t ++ String.utf8EncodeChar c := by
      rw [utf8_append, utf8, utf8, List.flatMap_singleton]
    have hlast : (String.utf8EncodeChar c).getLast? = some carriageReturn := by
      rw [← List.getLast?_append_of_ne_nil (utf8 t) String.utf8EncodeChar_ne_nil, ← hsplit,
        ← h, List.getLast?_concat]
    obtain rfl : c = '\r' :=
      utf8EncodeChar_of_mem (d := '\r') (by decide) (List.mem_of_getLast? hlast)
    rw [utf8_append, hreturn, List.append_cancel_right_eq] at h
    exact ⟨t, ofUtf8?_eq_some_iff.mpr h, rfl⟩
  · rintro ⟨t, ht, rfl⟩
    rw [utf8_append, hreturn, ofUtf8?_eq_some_iff.mp ht]

/-- The words of a line that can be read. -/
def words? (line : List UInt8) : Option (List (List Char)) := (ofUtf8? line).map words

theorem words?_append_return (bytes : List UInt8) :
    words? (bytes ++ [carriageReturn]) = words? bytes := by
  have hreturn : ∀ s : List Char, words (s ++ ['\r']) = words s := fun s => by
    rw [words_append_of_isBlank (by decide)]
    exact List.append_nil _
  rw [words?, ofUtf8?_append_return, Option.map_map]
  exact Option.map_congr fun s _ => hreturn s

theorem words?_dropReturn (line : List UInt8) :
    words? (dropReturn line) = words? line := by
  unfold dropReturn
  split_ifs with hlast
  · obtain ⟨bytes, rfl⟩ := List.getLast?_eq_some_iff.mp hlast
    rw [List.dropLast_concat, words?_append_return]
  · rfl

/-- The input with a carriage return before every line feed. -/
def withReturns (input : List UInt8) : List UInt8 :=
  input.flatMap fun b => if b = lineFeed then [carriageReturn, lineFeed] else [b]

theorem byteLines_part_cons {line : List UInt8} (h : lineFeed ∉ line) (rest : List UInt8) :
    byteLines (line ++ lineFeed :: rest) = dropReturn line :: byteLines rest := by
  have hpart : ∀ b ∈ line, (b == lineFeed) = false :=
    fun b hb => beq_false_of_ne (ne_of_mem_of_not_mem hb h)
  rw [byteLines_append_lineFeed, List.splitOnP_eq_singleton hpart]
  rfl

theorem byteLines_utf8 {s : List Char} (h : '\n' ∉ s) :
    byteLines (utf8 s ++ [lineFeed]) = [dropReturn (utf8 s)] :=
  byteLines_part_cons (lineFeed_notMem_utf8 h) []

theorem withReturns_of_notMem {line : List UInt8} (h : lineFeed ∉ line) :
    withReturns line = line := by
  have hbyte : ∀ b ∈ line, (if b = lineFeed then [carriageReturn, lineFeed] else [b]) = [b] :=
    fun b hb => if_neg (ne_of_mem_of_not_mem hb h)
  rw [withReturns, List.flatMap_congr hbyte, List.flatMap_singleton']

theorem withReturns_part_cons {line : List UInt8} (h : lineFeed ∉ line) (rest : List UInt8) :
    withReturns (line ++ lineFeed :: rest) =
      (line ++ [carriageReturn]) ++ lineFeed :: withReturns rest := by
  rw [withReturns, List.flatMap_append, ← withReturns, withReturns_of_notMem h,
    List.append_assoc]
  rfl

/-- Line ends of either form divide an input into the same lines. -/
theorem words?_byteLines_withReturns (input : List UInt8) :
    (byteLines (withReturns input)).map words? = (byteLines input).map words? := by
  induction input using cutInduction (p := (· == lineFeed)) with
  | part line hline =>
    rw [withReturns_of_notMem fun hmem => by simpa using hline lineFeed hmem]
  | step line b rest hline hb ih =>
    obtain rfl : b = lineFeed := by simpa using hb
    have hmem : lineFeed ∉ line := fun hmem => by simpa using hline lineFeed hmem
    have hreturn : lineFeed ∉ line ++ [carriageReturn] := by
      rw [List.mem_append, not_or]
      exact ⟨hmem, by decide⟩
    rw [withReturns_part_cons hmem, byteLines_part_cons hreturn, byteLines_part_cons hmem,
      List.map_cons, List.map_cons, ih, words?_dropReturn, words?_append_return,
      words?_dropReturn]

end FormDesk.Text
