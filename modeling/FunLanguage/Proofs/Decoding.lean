import FunLanguage.Text.Utf8
import Mathlib.Algebra.Group.Nat.Defs

/-!
# What decoding makes of bytes

Which text bytes hold is told by the encoding of characters alone: bytes that encode a character are
that character, and where they encode none, the longest part that begins an encoding, or else one
byte, is ill-formed and stands for U+FFFD (`Decoded`). Lenient decoding gives this text and no other
(`decodeLenient_eq_iff`).

No byte below 80 goes on with a character that has begun, so such a byte is a character wherever it
stands (`Decoded.append_cons`).
-/

namespace FunLanguage.Text.Utf8

/-! ## Texts in bytes -/

/-- The bytes of `part`, in front of `rest`, are ill-formed as one: no character is encoded in
front, and `part` is the longest part that begins an encoding, or one byte if none does. -/
structure IllFormed (part rest : List UInt8) : Prop where
  ne_nil : part ≠ []
  unencoded : ∀ c, ¬ String.utf8EncodeChar c <+: part ++ rest
  begins : part.length = 1 ∨ ∃ c, part <+: String.utf8EncodeChar c
  longest : ∀ c front, front <+: String.utf8EncodeChar c → front <+: part ++ rest →
    front.length ≤ part.length

/-- The text that bytes hold, where U+FFFD stands for each ill-formed part of them. -/
inductive Decoded : List UInt8 → List Char → Prop where
  | nil : Decoded [] []
  | character (c : Char) {rest : List UInt8} {cs : List Char} :
      Decoded rest cs → Decoded (String.utf8EncodeChar c ++ rest) (c :: cs)
  | illFormed {part rest : List UInt8} {cs : List Char} :
      IllFormed part rest → Decoded rest cs → Decoded (part ++ rest) ('\ufffd' :: cs)

variable {b x low high : UInt8} {bytes rest part tail : List UInt8} {bits count code : Nat}
  {expected : Expected} {c : Char} {cs ds : List Char}

/-! ## Codes cut into bytes -/

/-- The last bytes of a code, six bits of it in each. -/
def following : (count : Nat) → (code : Nat) → List UInt8
  | 0, _ => []
  | count + 1, code => .ofNat (code / 64 ^ count % 64 + 0x80) :: following count code

/-- The first of the following bytes, if there are any, is within the bounds. -/
def Fits (low high : UInt8) : (count : Nat) → (code : Nat) → Prop
  | 0, _ => True
  | count + 1, code =>
    low.toNat ≤ code / 64 ^ count % 64 + 0x80 ∧ code / 64 ^ count % 64 + 0x80 ≤ high.toNat

@[simp] theorem length_following (count code : Nat) : (following count code).length = count := by
  induction count with
  | zero => rfl
  | succ count ih => rw [following, List.length_cons, ih]

theorem toNat_ofNat_sextet (n : Nat) : (UInt8.ofNat (n % 64 + 0x80)).toNat = n % 64 + 0x80 := by
  rw [UInt8.toNat_ofNat']
  omega

theorem le_of_mem_following (h : x ∈ following count code) : 0x80 ≤ x := by
  induction count with
  | zero => cases h
  | succ count ih =>
    rcases List.mem_cons.mp h with rfl | h
    · rw [UInt8.le_iff_toNat_le, toNat_ofNat_sextet]
      exact Nat.le_add_left _ _
    · exact ih h

theorem fits_all (count code : Nat) : Fits 0x80 0xBF count code := by
  cases count with
  | zero => trivial
  | succ count =>
    simp only [Fits, UInt8.reduceToNat]
    omega

/-- The bounds of a following byte leave its two highest bits no choice. -/
theorem toNat_bounds (above : 0x80 ≤ low) (below : high ≤ 0xBF) (inside : low ≤ b ∧ b ≤ high) :
    0x80 ≤ b.toNat ∧ b.toNat ≤ 0xBF :=
  ⟨UInt8.le_iff_toNat_le.mp (UInt8.le_trans above inside.1),
    UInt8.le_iff_toNat_le.mp (UInt8.le_trans inside.2 below)⟩

/-- A following byte is read behind the bits of a code exactly if it holds the next six of them. -/
theorem div_eq_read_iff (bounds : 0x80 ≤ b.toNat ∧ b.toNat ≤ 0xBF) :
    code / 64 ^ count = 64 * bits + (b.toNat - 0x80) ↔
      code / 64 ^ (count + 1) = bits ∧ code / 64 ^ count % 64 + 0x80 = b.toNat := by
  rw [Nat.pow_succ, ← Nat.div_div_eq_div_mul]
  omega

theorem continuation_following (split : code / 64 ^ count = bits)
    (fits : Fits low high count code) :
    continuation bits low high count (following count code ++ rest) = (some code, rest) := by
  induction count generalizing bits low high with
  | zero =>
    rw [Nat.pow_zero, Nat.div_one] at split
    rw [← split]
    rfl
  | succ count ih =>
    have inside : low ≤ .ofNat (code / 64 ^ count % 64 + 0x80) ∧
        .ofNat (code / 64 ^ count % 64 + 0x80) ≤ high := by
      rw [UInt8.le_iff_toNat_le, UInt8.le_iff_toNat_le, toNat_ofNat_sextet]
      exact fits
    rw [following, List.cons_append, continuation, if_pos inside]
    refine ih ((div_eq_read_iff ?_).mpr ⟨split, (toNat_ofNat_sextet _).symm⟩) (fits_all count code)
    rw [toNat_ofNat_sextet]
    omega

theorem continuation_eq_some (above : 0x80 ≤ low) (below : high ≤ 0xBF)
    (h : continuation bits low high count bytes = (some code, rest)) :
    bytes = following count code ++ rest ∧ code / 64 ^ count = bits ∧ Fits low high count code := by
  induction count generalizing bits low high bytes with
  | zero =>
    cases h
    exact ⟨rfl, by simp, trivial⟩
  | succ count ih =>
    cases bytes with
    | nil => cases h
    | cons b bytes =>
      rw [continuation] at h
      split at h
      · next inside =>
        obtain ⟨rfl, split, -⟩ := ih (by decide) (by decide) h
        obtain ⟨split, same⟩ := (div_eq_read_iff (toNat_bounds above below inside)).mp split
        refine ⟨?_, split, ?_⟩
        · rw [following, same, UInt8.ofNat_toNat, List.cons_append]
        · rw [Fits, same, ← UInt8.le_iff_toNat_le, ← UInt8.le_iff_toNat_le]
          exact inside
      · cases h

/-- Whatever has been read begins some code. -/
theorem exists_fits (above : 0x80 ≤ low) (le : low ≤ high) (below : high ≤ 0xBF)
    (bits count : Nat) :
    ∃ code, code / 64 ^ (count + 1) = bits ∧ Fits low high (count + 1) code := by
  have bounds := toNat_bounds above below ⟨UInt8.le_refl low, le⟩
  have front : (64 * bits + (low.toNat - 0x80)) * 64 ^ count / 64 ^ count =
      64 * bits + (low.toNat - 0x80) := Nat.mul_div_cancel _ (Nat.pow_pos (by decide))
  obtain ⟨split, same⟩ := (div_eq_read_iff bounds).mp front
  refine ⟨_, split, ?_⟩
  rw [Fits, same]
  exact ⟨Nat.le_refl _, UInt8.le_iff_toNat_le.mp le⟩

/-- Where a code breaks off, what has been read begins one, and no more of the bytes does. -/
theorem continuation_eq_none (above : 0x80 ≤ low) (le : low ≤ high) (below : high ≤ 0xBF)
    (h : continuation bits low high count bytes = (none, rest)) :
    ∃ part, bytes = part ++ rest ∧
      (∃ code, code / 64 ^ count = bits ∧ Fits low high count code ∧
        part <+: following count code) ∧
      ∀ code front, code / 64 ^ count = bits → Fits low high count code →
        front <+: following count code → front <+: bytes →
          front.length ≤ part.length ∧ front.length < count := by
  induction count generalizing bits low high bytes with
  | zero => cases h
  | succ count ih =>
    obtain ⟨code, split, fits⟩ := exists_fits above le below bits count
    cases bytes with
    | nil =>
      cases h
      refine ⟨[], rfl, ⟨code, split, fits, List.nil_prefix⟩, fun _ front _ _ _ none => ?_⟩
      rw [List.prefix_nil.mp none]
      exact ⟨Nat.le_refl _, Nat.succ_pos _⟩
    | cons b bytes =>
      rw [continuation] at h
      split at h
      · next inside =>
        have bounds := toNat_bounds above below inside
        obtain ⟨part, rfl, ⟨code, split, fits, begun⟩, longest⟩ :=
          ih (by decide) (by decide) (by decide) h
        obtain ⟨split, same⟩ := (div_eq_read_iff bounds).mp split
        refine ⟨b :: part, rfl, ⟨code, split, ?_, ?_⟩,
          fun code' front split' fits' begins stands => ?_⟩
        · rw [Fits, same, ← UInt8.le_iff_toNat_le, ← UInt8.le_iff_toNat_le]
          exact inside
        · rw [following, same, UInt8.ofNat_toNat]
          exact (List.prefix_cons_inj b).mpr begun
        · cases front with
          | nil => exact ⟨Nat.zero_le _, Nat.succ_pos _⟩
          | cons x front =>
            obtain ⟨first, begins'⟩ := List.cons_prefix_cons.mp begins
            obtain ⟨rfl, stands'⟩ := List.cons_prefix_cons.mp stands
            have same := (congrArg UInt8.toNat first).trans (toNat_ofNat_sextet _)
            have split := (div_eq_read_iff bounds).mpr ⟨split', same.symm⟩
            obtain ⟨short, less⟩ := longest code' front split (fits_all count code') begins' stands'
            exact ⟨Nat.succ_le_succ short, Nat.succ_lt_succ less⟩
      · next outside =>
        cases h
        refine ⟨[], rfl, ⟨code, split, fits, List.nil_prefix⟩,
          fun code' front _ fits' begins stands => ?_⟩
        cases front with
        | nil => exact ⟨Nat.le_refl _, Nat.succ_pos _⟩
        | cons x front =>
          obtain ⟨rfl, -⟩ := List.cons_prefix_cons.mp begins
          obtain ⟨rfl, -⟩ := List.cons_prefix_cons.mp stands
          rw [UInt8.le_iff_toNat_le, UInt8.le_iff_toNat_le, toNat_ofNat_sextet] at outside
          exact absurd fits' outside

/-! ## Leading bytes -/

theorem bounds_of_lead? (h : lead? b = some (expected, bits)) :
    0x80 ≤ expected.low ∧ expected.low ≤ expected.high ∧ expected.high ≤ 0xBF := by
  unfold lead? at h
  repeat' split at h
  all_goals cases h
  all_goals decide

/-- What follows the leading byte with a value. -/
theorem lead?_ofNat {n : Nat} (h : n < 256) : lead? (.ofNat n) =
    if n ≤ 0x7F then some (⟨0, 0x80, 0xBF⟩, n)
    else if n < 0xC2 then none
    else if n ≤ 0xDF then some (⟨1, 0x80, 0xBF⟩, n - 0xC0)
    else if n = 0xE0 then some (⟨2, 0xA0, 0xBF⟩, n - 0xE0)
    else if n = 0xED then some (⟨2, 0x80, 0x9F⟩, n - 0xE0)
    else if n ≤ 0xEF then some (⟨2, 0x80, 0xBF⟩, n - 0xE0)
    else if n = 0xF0 then some (⟨3, 0x90, 0xBF⟩, n - 0xF0)
    else if n ≤ 0xF3 then some (⟨3, 0x80, 0xBF⟩, n - 0xF0)
    else if n = 0xF4 then some (⟨3, 0x80, 0x8F⟩, n - 0xF0)
    else none := by
  have value : (UInt8.ofNat n).toNat = n := by
    rw [UInt8.toNat_ofNat']
    omega
  simp only [lead?, UInt8.le_iff_toNat_le, UInt8.lt_iff_toNat_lt, ← UInt8.toNat_inj, value]
  rfl

/-- The number of bytes that follow the first one of a code. -/
def width (code : Nat) : Nat :=
  if code ≤ 0x7F then 0 else if code ≤ 0x7FF then 1 else if code ≤ 0xFFFF then 2 else 3

/-- What a first byte holds besides bits of the code, by the number of bytes that follow. -/
def mark : (count : Nat) → Nat
  | 0 => 0
  | 1 => 0xC0
  | 2 => 0xE0
  | _ => 0xF0

theorem utf8EncodeChar_eq (c : Char) : String.utf8EncodeChar c =
    .ofNat (mark (width c.toNat) + c.toNat / 64 ^ width c.toNat) ::
      following (width c.toNat) c.toNat := by
  have valid : c.toNat.isValidChar := c.valid
  have value : c.val.toNat = c.toNat := rfl
  simp only [String.utf8EncodeChar, value, width]
  generalize c.toNat = v at valid
  simp only [Nat.isValidChar] at valid
  split
  · simp [mark, following]
  · split
    · have lead : v / 64 % 32 + 192 = 192 + v / 64 := by omega
      simp [mark, following, lead]
    · split
      · have lead : v / 4096 % 16 + 224 = 224 + v / 4096 := by omega
        simp [mark, following, lead]
      · have lead : v / 262144 % 8 + 240 = 240 + v / 262144 := by omega
        simp [mark, following, lead]

/-- The first byte of a code leads the others. -/
theorem lead?_of_valid (valid : code.isValidChar) : ∃ expected,
    lead? (.ofNat (mark (width code) + code / 64 ^ width code)) =
      some (expected, code / 64 ^ width code) ∧
    expected.count = width code ∧ Fits expected.low expected.high (width code) code := by
  simp only [Nat.isValidChar] at valid
  unfold width
  split
  · refine ⟨⟨0, 0x80, 0xBF⟩, ?_, rfl, trivial⟩
    simp only [mark, Nat.pow_zero, Nat.div_one, Nat.zero_add]
    rw [lead?_ofNat (by omega), if_pos (by omega)]
  · split
    · refine ⟨⟨1, 0x80, 0xBF⟩, ?_, rfl, fits_all ..⟩
      simp only [mark, Nat.pow_one]
      rw [lead?_ofNat (by omega), if_neg (by omega), if_neg (by omega), if_pos (by omega),
        Nat.add_sub_cancel_left]
    · -- Longer codes go on in the rows of the table that have their width.
      split
      · simp only [mark, Nat.reducePow]
        rw [lead?_ofNat (by omega), if_neg (by omega), if_neg (by omega), if_neg (by omega)]
        simp only [Nat.add_sub_cancel_left]
        repeat' split
        all_goals first | omega | refine ⟨_, rfl, rfl, ?_⟩
        all_goals simp only [Fits, UInt8.reduceToNat, Nat.pow_one]
        all_goals omega
      · simp only [mark, Nat.reducePow]
        rw [lead?_ofNat (by omega), if_neg (by omega), if_neg (by omega), if_neg (by omega),
          if_neg (by omega), if_neg (by omega), if_neg (by omega)]
        simp only [Nat.add_sub_cancel_left]
        repeat' split
        all_goals first | omega | refine ⟨_, rfl, rfl, ?_⟩
        all_goals simp only [Fits, UInt8.reduceToNat, Nat.reducePow]
        all_goals omega

/-- What a leading byte and bytes that fit behind it hold is the code of a character. -/
theorem valid_of_lead? (h : lead? b = some (expected, bits))
    (split : code / 64 ^ expected.count = bits)
    (fits : Fits expected.low expected.high expected.count code) :
    code.isValidChar ∧ width code = expected.count ∧ b.toNat = mark expected.count + bits := by
  have value : b = .ofNat b.toNat := UInt8.ofNat_toNat.symm
  rw [value, lead?_ofNat b.toNat_lt] at h
  generalize b.toNat = n at h
  simp only [Nat.isValidChar]
  repeat' split at h
  all_goals cases h
  all_goals simp only [Fits, UInt8.reduceToNat, Nat.reducePow] at split fits
  all_goals refine ⟨by omega, ?_, by simp only [mark]; omega⟩
  all_goals simp only [width]; grind

/-! ## Characters read back -/

/-- An encoding is a leading byte with fitting bytes behind it. -/
theorem exists_lead (c : Char) : ∃ b expected,
    lead? b = some (expected, c.toNat / 64 ^ expected.count) ∧
    Fits expected.low expected.high expected.count c.toNat ∧
    String.utf8EncodeChar c = b :: following expected.count c.toNat := by
  have valid : c.toNat.isValidChar := c.valid
  obtain ⟨expected, leads, count, fits⟩ := lead?_of_valid valid
  rw [← count] at leads fits
  refine ⟨_, expected, leads, fits, ?_⟩
  rw [utf8EncodeChar_eq, ← count]

/-- A leading byte with fitting bytes behind it is an encoding. -/
theorem exists_encoded (leads : lead? b = some (expected, bits))
    (split : code / 64 ^ expected.count = bits)
    (fits : Fits expected.low expected.high expected.count code) :
    String.utf8EncodeChar (.ofNat code) = b :: following expected.count code := by
  obtain ⟨valid, width, first⟩ := valid_of_lead? leads split fits
  have value : (Char.ofNat code).toNat = code := by
    rw [Char.ofNat, dif_pos valid]
    rfl
  rw [utf8EncodeChar_eq, value, width, split, ← first, UInt8.ofNat_toNat]

theorem piece_encoded (c : Char) (rest : List UInt8) : ∃ b bytes,
    String.utf8EncodeChar c = b :: bytes ∧ piece b (bytes ++ rest) = (some c, rest) := by
  obtain ⟨b, expected, leads, fits, encoded⟩ := exists_lead c
  refine ⟨b, _, encoded, ?_⟩
  simp only [piece, leads, continuation_following rfl fits, Option.map_some, Char.ofNat_toNat]

theorem encoded_of_piece (h : piece b bytes = (some c, rest)) :
    b :: bytes = String.utf8EncodeChar c ++ rest := by
  unfold piece at h
  split at h
  · cases h
  · next expected bits leads =>
    obtain ⟨above, -, below⟩ := bounds_of_lead? leads
    rcases read : continuation bits expected.low expected.high expected.count bytes with
      ⟨_ | code, _⟩
    · rw [read] at h
      cases h
    · rw [read] at h
      cases h
      obtain ⟨rfl, split, fits⟩ := continuation_eq_some above below read
      rw [exists_encoded leads split fits, List.cons_append]

/-! ## Ill-formed parts -/

/-- An encoding of which something stands in front of bytes with a leading byte has that byte, and
the bytes that are to follow. -/
theorem front_of_encoded (leads : lead? b = some (expected, bits)) {front : List UInt8}
    (begins : x :: front <+: String.utf8EncodeChar c) (stands : x :: front <+: b :: bytes) :
    String.utf8EncodeChar c = b :: following expected.count c.toNat ∧
      c.toNat / 64 ^ expected.count = bits ∧
      Fits expected.low expected.high expected.count c.toNat ∧
      front <+: following expected.count c.toNat ∧ front <+: bytes := by
  obtain ⟨b', expected', leads', fits, encoded⟩ := exists_lead c
  rw [encoded] at begins
  obtain ⟨rfl, others⟩ := List.cons_prefix_cons.mp begins
  obtain ⟨rfl, others'⟩ := List.cons_prefix_cons.mp stands
  rw [leads] at leads'
  cases leads'
  exact ⟨encoded, rfl, fits, others, others'⟩

theorem illFormed_of_lead?_eq_none (none : lead? b = none) (rest : List UInt8) :
    IllFormed [b] rest := by
  have empty : ∀ c front, front <+: String.utf8EncodeChar c → front <+: [b] ++ rest →
      front = [] := by
    intro c front begins stands
    cases front with
    | nil => rfl
    | cons x front =>
      obtain ⟨b', expected, leads, -, encoded⟩ := exists_lead c
      rw [encoded] at begins
      obtain ⟨rfl, -⟩ := List.cons_prefix_cons.mp begins
      obtain ⟨rfl, -⟩ := List.cons_prefix_cons.mp stands
      rw [none] at leads
      cases leads
  refine ⟨List.cons_ne_nil _ _, fun c stands => ?_, .inl rfl, fun c front begins stands => ?_⟩
  · exact String.utf8EncodeChar_ne_nil (empty c _ List.prefix_rfl stands)
  · rw [empty c front begins stands]
    exact Nat.zero_le _

theorem illFormed_of_piece (h : piece b bytes = (none, rest)) :
    ∃ part, b :: bytes = part ++ rest ∧ IllFormed part rest := by
  unfold piece at h
  split at h
  · next leads =>
    cases h
    exact ⟨[b], rfl, illFormed_of_lead?_eq_none leads bytes⟩
  · next expected bits leads =>
    obtain ⟨above, le, below⟩ := bounds_of_lead? leads
    rcases read : continuation bits expected.low expected.high expected.count bytes with
      ⟨_ | code, _⟩
    · rw [read] at h
      cases h
      obtain ⟨part, rfl, ⟨code, split, fits, begun⟩, longest⟩ :=
        continuation_eq_none above le below read
      refine ⟨b :: part, rfl, List.cons_ne_nil _ _, fun c stands => ?_, .inr ⟨.ofNat code, ?_⟩,
        fun c front begins stands => ?_⟩
      · obtain ⟨x, front, encoded⟩ :=
          List.exists_cons_of_ne_nil (String.utf8EncodeChar_ne_nil (c := c))
        have begins : x :: front <+: String.utf8EncodeChar c := encoded ▸ List.prefix_rfl
        obtain ⟨same, split, fits, begins', stands'⟩ :=
          front_of_encoded leads begins (encoded ▸ stands)
        have shorter := (longest _ _ split fits begins' stands').2
        rw [encoded] at same
        cases same
        exact absurd shorter (by simp)
      · rw [exists_encoded leads split fits]
        exact (List.prefix_cons_inj b).mpr begun
      · cases front with
        | nil => exact Nat.zero_le _
        | cons x front =>
          obtain ⟨-, split, fits, begins', stands'⟩ := front_of_encoded leads begins stands
          exact Nat.succ_le_succ (longest _ _ split fits begins' stands').1
    · rw [read] at h
      cases h

theorem IllFormed.length_le {part' rest' : List UInt8} (h : IllFormed part rest)
    (h' : IllFormed part' rest') (same : part ++ rest = part' ++ rest') :
    part'.length ≤ part.length := by
  rcases h'.begins with one | ⟨c, begins⟩
  · rw [one]
    exact List.length_pos_iff.mpr h.ne_nil
  · exact h.longest c part' begins (same ▸ List.prefix_append part' rest')

/-- There is one way to cut off an ill-formed part. -/
theorem IllFormed.unique {part' rest' : List UInt8} (h : IllFormed part rest)
    (h' : IllFormed part' rest') (same : part ++ rest = part' ++ rest') :
    part = part' ∧ rest = rest' :=
  List.append_inj same (Nat.le_antisymm (h'.length_le h same.symm) (h.length_le h' same))

/-! ## Decoding -/

theorem decodeLenient_nil : decodeLenient [] = [] := by
  simp [decodeLenient, pieces]

theorem decodeLenient_cons {c? : Option Char} (h : piece b bytes = (c?, rest)) :
    decodeLenient (b :: bytes) = c?.getD '\ufffd' :: decodeLenient rest := by
  rw [decodeLenient, pieces, h]
  rfl

/-- A character is decoded from its encoding, whatever stands behind it. -/
theorem decodeLenient_encoded (c : Char) (rest : List UInt8) :
    decodeLenient (String.utf8EncodeChar c ++ rest) = c :: decodeLenient rest := by
  obtain ⟨b, bytes, encoded, read⟩ := piece_encoded c rest
  rw [encoded, List.cons_append, decodeLenient_cons read]
  rfl

theorem decodeLenient_illFormed (h : IllFormed part rest) :
    decodeLenient (part ++ rest) = '\ufffd' :: decodeLenient rest := by
  obtain ⟨b, bytes, cut⟩ :=
    List.exists_cons_of_ne_nil (List.append_ne_nil_of_left_ne_nil h.ne_nil rest)
  rcases read : piece b bytes with ⟨_ | c, rest'⟩
  · obtain ⟨part', cut', h'⟩ := illFormed_of_piece read
    obtain ⟨-, rfl⟩ := h.unique h' (cut.trans cut')
    rw [cut, decodeLenient_cons read]
    rfl
  · have encoded := encoded_of_piece read
    exact absurd (cut.trans encoded ▸ List.prefix_append _ rest') (h.unencoded c)

theorem decoded_decodeLenient (bytes : List UInt8) : Decoded bytes (decodeLenient bytes) := by
  induction bytes using pieces.induct with
  | case1 => exact decodeLenient_nil ▸ .nil
  | case2 b bytes ih =>
    rcases read : piece b bytes with ⟨_ | c, rest⟩
    · obtain ⟨part, cut, h⟩ := illFormed_of_piece read
      rw [read] at ih
      rw [decodeLenient_cons read, cut]
      exact .illFormed h ih
    · rw [read] at ih
      rw [decodeLenient_cons read, encoded_of_piece read]
      exact .character c ih

/-- Lenient decoding gives the text that bytes hold, and there is no other. -/
theorem decodeLenient_eq_iff : decodeLenient bytes = cs ↔ Decoded bytes cs := by
  refine ⟨fun same => same ▸ decoded_decodeLenient bytes, fun h => ?_⟩
  induction h with
  | nil => exact decodeLenient_nil
  | character c _ ih => rw [decodeLenient_encoded, ih]
  | illFormed h _ ih => rw [decodeLenient_illFormed h, ih]

/-! ## Bytes below 80 -/

/-- What stands in front of a byte below 80 and begins an encoding does not go past that byte. -/
theorem front_of_append_cons (ascii : x < 0x80) (nonempty : bytes ≠ []) {front : List UInt8}
    (begins : front <+: String.utf8EncodeChar c) (stands : front <+: bytes ++ x :: tail) :
    front <+: bytes := by
  by_cases short : front.length ≤ bytes.length
  · exact List.prefix_of_prefix_length_le stands (List.prefix_append ..) short
  · have reaches : bytes ++ [x] <+: front := by
      refine List.prefix_of_prefix_length_le ⟨tail, by simp⟩ stands ?_
      rw [List.length_append, List.length_singleton]
      omega
    obtain ⟨b, bytes, rfl⟩ := List.exists_cons_of_ne_nil nonempty
    obtain ⟨b', expected, -, -, encoded⟩ := exists_lead c
    have others := reaches.trans begins
    rw [encoded, List.cons_append, List.cons_prefix_cons] at others
    have within : x ∈ following expected.count c.toNat :=
      others.2.subset (List.mem_append_right _ List.mem_cons_self)
    exact absurd (le_of_mem_following within) (UInt8.not_le.mpr ascii)

/-- An ill-formed part is one in front of more bytes as well, if the first of these is below 80. -/
theorem IllFormed.append_cons (ascii : x < 0x80) (h : IllFormed part rest) (tail : List UInt8) :
    IllFormed part (rest ++ x :: tail) := by
  have nonempty : part ++ rest ≠ [] := List.append_ne_nil_of_left_ne_nil h.ne_nil rest
  refine ⟨h.ne_nil, fun c stands => ?_, h.begins, fun c front begins stands => ?_⟩
  · rw [← List.append_assoc] at stands
    exact h.unencoded c (front_of_append_cons ascii nonempty List.prefix_rfl stands)
  · rw [← List.append_assoc] at stands
    exact h.longest c front begins (front_of_append_cons ascii nonempty begins stands)

theorem utf8EncodeChar_ofNat (ascii : x < 0x80) : String.utf8EncodeChar (.ofNat x.toNat) = [x] := by
  have small : x ≤ 0x7F :=
    UInt8.le_iff_toNat_le.mpr (Nat.le_of_lt_succ (UInt8.lt_iff_toNat_lt.mp ascii))
  have leads : lead? x = some (⟨0, 0x80, 0xBF⟩, x.toNat) := by rw [lead?, if_pos small]
  exact exists_encoded leads (Nat.div_one _) trivial

/-- A byte below 80 is a character wherever it stands. -/
theorem Decoded.append_cons (ascii : x < 0x80) (h : Decoded bytes cs) (h' : Decoded tail ds) :
    Decoded (bytes ++ x :: tail) (cs ++ .ofNat x.toNat :: ds) := by
  induction h with
  | nil =>
    have first := Decoded.character (.ofNat x.toNat) h'
    rw [utf8EncodeChar_ofNat ascii] at first
    exact first
  | character c _ ih =>
    rw [List.append_assoc]
    exact .character c ih
  | illFormed h _ ih =>
    rw [List.append_assoc]
    exact .illFormed (h.append_cons ascii tail) ih

theorem decodeLenient_append_cons (ascii : x < 0x80) (bytes tail : List UInt8) :
    decodeLenient (bytes ++ x :: tail) =
      decodeLenient bytes ++ .ofNat x.toNat :: decodeLenient tail :=
  decodeLenient_eq_iff.mpr (.append_cons ascii (decoded_decodeLenient _) (decoded_decodeLenient _))

/-- A character with an encoding of one byte comes from that byte, unless it stands for an
ill-formed part. -/
theorem Decoded.mem_of_mem (own : String.utf8EncodeChar c = [x]) (plain : c ≠ '\ufffd')
    (h : Decoded bytes cs) (mem : c ∈ cs) : x ∈ bytes := by
  induction h with
  | nil => cases mem
  | character d _ ih =>
    rcases List.mem_cons.mp mem with rfl | mem
    · rw [own]
      exact List.mem_cons_self
    · exact List.mem_append_right _ (ih mem)
  | illFormed _ _ ih =>
    rcases List.mem_cons.mp mem with rfl | mem
    · exact absurd rfl plain
    · exact List.mem_append_right _ (ih mem)

end FunLanguage.Text.Utf8
