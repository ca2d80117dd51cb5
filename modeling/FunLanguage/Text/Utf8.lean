/-!
# Decoding UTF-8

Bytes are read one code point at a time. Where they hold none, the longest run of bytes that begins
one, or else one byte, makes an ill-formed piece. Strict decoding refuses such a piece, and lenient
decoding puts the replacement character U+FFFD in its place.
-/

namespace FunLanguage.Text.Utf8

/-- What has to follow in a code point that has begun: the number of bytes, and the bounds of the
first of them. All later ones are from 80 to BF. -/
structure Expected where
  count : Nat
  low : UInt8 := 0x80
  high : UInt8 := 0xBF
  deriving DecidableEq, Repr

/-- What has to follow a leading byte, and the bits of the code point that the byte holds. -/
def lead? (b : UInt8) : Option (Expected × Nat) :=
  if b ≤ 0x7F then some (⟨0, 0x80, 0xBF⟩, b.toNat)
  else if b < 0xC2 then none
  else if b ≤ 0xDF then some (⟨1, 0x80, 0xBF⟩, b.toNat - 0xC0)
  else if b = 0xE0 then some (⟨2, 0xA0, 0xBF⟩, b.toNat - 0xE0)
  else if b = 0xED then some (⟨2, 0x80, 0x9F⟩, b.toNat - 0xE0)
  else if b ≤ 0xEF then some (⟨2, 0x80, 0xBF⟩, b.toNat - 0xE0)
  else if b = 0xF0 then some (⟨3, 0x90, 0xBF⟩, b.toNat - 0xF0)
  else if b ≤ 0xF3 then some (⟨3, 0x80, 0xBF⟩, b.toNat - 0xF0)
  else if b = 0xF4 then some (⟨3, 0x80, 0x8F⟩, b.toNat - 0xF0)
  else none

/-- Reads `count` continuation bytes, the first of them from `low` to `high`, into the code point
that has the bits read so far in front; gives what is left of the bytes. There is no code point if a
byte does not fit, and that byte is left. -/
def continuation (bits : Nat) (low high : UInt8) :
    (count : Nat) → List UInt8 → Option Nat × List UInt8
  | 0, bytes => (some bits, bytes)
  | _ + 1, [] => (none, [])
  | count + 1, b :: bytes =>
    if low ≤ b ∧ b ≤ high then
      continuation (64 * bits + (b.toNat - 0x80)) 0x80 0xBF count bytes
    else (none, b :: bytes)

/-- Continuation bytes are taken from the front. -/
theorem continuation_length_le (bits : Nat) (low high : UInt8) (count : Nat) (bytes : List UInt8) :
    (continuation bits low high count bytes).2.length ≤ bytes.length := by
  induction count generalizing bits low high bytes with
  | zero => simp [continuation]
  | succ count ih =>
    cases bytes with
    | nil => simp [continuation]
    | cons b bytes =>
      simp only [continuation]
      split
      · exact Nat.le_succ_of_le (ih _ _ _ _)
      · exact Nat.le_refl _

/-- Reads the first piece of bytes that start with `b`: a character, or none if the piece is
ill-formed; gives what is left of the bytes. -/
def piece (b : UInt8) (bytes : List UInt8) : Option Char × List UInt8 :=
  match lead? b with
  | none => (none, bytes)
  | some (expected, bits) =>
    let (code?, rest) := continuation bits expected.low expected.high expected.count bytes
    (code?.map Char.ofNat, rest)

/-- A piece takes at least the leading byte. -/
theorem piece_length_le (b : UInt8) (bytes : List UInt8) :
    (piece b bytes).2.length ≤ bytes.length := by
  unfold piece
  split
  · exact Nat.le_refl _
  · exact continuation_length_le ..

/-- The pieces of a sequence of bytes, in order. -/
def pieces : List UInt8 → List (Option Char)
  | [] => []
  | b :: bytes => (piece b bytes).1 :: pieces (piece b bytes).2
termination_by bytes => bytes.length
decreasing_by
  have := piece_length_le b bytes
  simp only [List.length_cons]
  omega

/-- The text that the bytes encode, if no piece is ill-formed. -/
def decode? (bytes : List UInt8) : Option (List Char) :=
  (pieces bytes).mapM id

/-- The text that the bytes encode, with a replacement character for each ill-formed piece. -/
def decodeLenient (bytes : List UInt8) : List Char :=
  (pieces bytes).map (·.getD '\ufffd')

end FunLanguage.Text.Utf8
