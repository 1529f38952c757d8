/-! Texts: blanks and words, the lines of an input in bytes, and what is read from the front of a
text. -/
namespace FormDesk.Text

/-- The characters with the Unicode property `White_Space`. -/
def isBlank (c : Char) : Bool :=
  let n := c.toNat
  (0x9 ≤ n && n ≤ 0xD) || n == 0x20 || n == 0x85 || n == 0xA0 || n == 0x1680 ||
    (0x2000 ≤ n && n ≤ 0x200A) || n == 0x2028 || n == 0x2029 || n == 0x202F || n == 0x205F ||
    n == 0x3000

/-- Drops the members of a class from both ends of a text. -/
def trimBy (p : Char → Bool) (s : List Char) : List Char :=
  ((s.dropWhile p).reverse.dropWhile p).reverse

def trim (s : List Char) : List Char := trimBy isBlank s

/-- The maximal runs of non-blank characters, in order. -/
def words (s : List Char) : List (List Char) :=
  (s.splitOnP isBlank).filter (!·.isEmpty)

theorem words_append_of_isBlank {c : Char} (h : isBlank c = true) (s t : List Char) :
    words (s ++ c :: t) = words s ++ words t := by
  simp [words, List.splitOnP_append_cons s t h]

theorem words_cons_of_isBlank {c : Char} (h : isBlank c = true) (s : List Char) :
    words (c :: s) = words s := by
  simpa [words] using words_append_of_isBlank h [] s

def unwords (ws : List (List Char)) : List Char := List.intercalate [' '] ws

def ofUtf8? (bytes : List UInt8) : Option (List Char) :=
  (ByteArray.utf8Decode? ⟨bytes.toArray⟩).map Array.toList

@[simp] theorem ofUtf8?_utf8Encode (s : List Char) :
    ofUtf8? s.utf8Encode.data.toList = some s := by
  have h : (⟨s.utf8Encode.data.toList.toArray⟩ : ByteArray) = s.utf8Encode := by simp
  rw [ofUtf8?, h, List.utf8Decode?_utf8Encode]
  simp

def lineFeed : UInt8 := 10

def carriageReturn : UInt8 := 13

def dropReturn (line : List UInt8) : List UInt8 :=
  if line.getLast? = some carriageReturn then line.dropLast else line

/-- The lines of an input. A line ends at a line feed, and a carriage return before it does not
belong to the line; what follows the last line feed is a line unless it is empty. -/
def byteLines (bytes : List UInt8) : List (List UInt8) :=
  let pieces := bytes.splitOnP (· == lineFeed)
  pieces.dropLast.map dropReturn ++ pieces.getLast?.toList.filter (!·.isEmpty)

/-- Reads a value from the front of a text and leaves the rest. -/
abbrev Reader (α : Type) := List Char → Option (α × List Char)

def hexValue? (c : Char) : Option Nat :=
  if '0' ≤ c ∧ c ≤ '9' then some (c.toNat - '0'.toNat)
  else if 'a' ≤ c ∧ c ≤ 'f' then some (c.toNat - 'a'.toNat + 10)
  else if 'A' ≤ c ∧ c ≤ 'F' then some (c.toNat - 'A'.toNat + 10)
  else none

/-- The character whose code point is written with a number of hexadecimal digits. -/
def scalar? (width : Nat) (s : List Char) : Option Char := do
  let digits ← (s.take width).mapM hexValue?
  let n := digits.foldl (16 * · + ·) 0
  if digits.length = width ∧ n.isValidChar then some (Char.ofNat n) else none

end FormDesk.Text
