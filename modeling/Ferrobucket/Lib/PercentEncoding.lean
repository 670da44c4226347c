import Mathlib.Data.Fintype.Basic
import Ferrobucket.Lib.Text
/-! Percent-encoding of UTF-8 text, as the `percent-encoding` crate documents it: a
byte that is not ASCII or that the set contains becomes `%HH` in upper case; decoding
turns every `%` with two hexadecimal digits back and leaves all other bytes. -/
namespace PercentEncoding
open Text

/-- The ASCII bytes that are to be encoded. -/
abbrev AsciiSet := UInt8 → Bool

def AsciiSet.add (set : AsciiSet) (byte : UInt8) : AsciiSet := fun b => b = byte || set b

def isAlphanumeric (b : UInt8) : Bool :=
  (48 ≤ b && b ≤ 57) || (65 ≤ b && b ≤ 90) || (97 ≤ b && b ≤ 122)

def nonAlphanumeric : AsciiSet := fun b => !isAlphanumeric b

def shouldPercentEncode (set : AsciiSet) (b : UInt8) : Bool := 128 ≤ b || set b

def hexDigit (n : Nat) : UInt8 := if n < 10 then UInt8.ofNat (48 + n) else UInt8.ofNat (55 + n)

def hexValue (b : UInt8) : Option Nat :=
  if 48 ≤ b ∧ b ≤ 57 then some (b.toNat - 48)
  else if 65 ≤ b ∧ b ≤ 70 then some (b.toNat - 55)
  else if 97 ≤ b ∧ b ≤ 102 then some (b.toNat - 87)
  else none

def encodeByte (set : AsciiSet) (b : UInt8) : Bytes :=
  if shouldPercentEncode set b then [37, hexDigit (b.toNat / 16), hexDigit (b.toNat % 16)] else [b]

/-- ASCII bytes as a string. -/
def ascii (bytes : Bytes) : Str := bytes.map fun b => Char.ofNat b.toNat

def utf8PercentEncode (text : Str) (set : AsciiSet) : Str :=
  ascii ((utf8 text).flatMap (encodeByte set))

/-- The byte that `%` and the bytes after it stand for. -/
def escaped (b : UInt8) (rest : Bytes) : Option UInt8 :=
  if b = 37 then
    match rest with
    | high :: low :: _ =>
        match hexValue high, hexValue low with
        | some x, some y => some (UInt8.ofNat (16 * x + y))
        | _, _ => none
    | _ => none
  else none

/-- Decode after passing over the digits of an escape that was already read. -/
def decodeFrom : Nat → Bytes → Bytes
  | _, [] => []
  | skip + 1, _ :: rest => decodeFrom skip rest
  | 0, b :: rest =>
      match escaped b rest with
      | some byte => byte :: decodeFrom 2 rest
      | none => b :: decodeFrom 0 rest

def percentDecode (bytes : Bytes) : Bytes := decodeFrom 0 bytes

/-- `percent_decode_str` followed by `decode_utf8`. -/
def percentDecodeStr (text : Str) : Option Str := fromUtf8 (percentDecode (utf8 text))

theorem hex_value_digit (n : Nat) (small : n < 16) : hexValue (hexDigit n) = some n := by
  have all : ∀ n : Fin 16, hexValue (hexDigit n.val) = some n.val := by decide
  exact all ⟨n, small⟩

theorem hex_digit_alphanumeric (n : Nat) (small : n < 16) : isAlphanumeric (hexDigit n) = true := by
  have all : ∀ n : Fin 16, isAlphanumeric (hexDigit n.val) = true := by decide
  exact all ⟨n, small⟩

theorem encode_byte_cases (set : AsciiSet) (b : UInt8) :
    (shouldPercentEncode set b = true ∧
      encodeByte set b = [37, hexDigit (b.toNat / 16), hexDigit (b.toNat % 16)]) ∨
    (shouldPercentEncode set b = false ∧ encodeByte set b = [b]) := by
  cases kept : shouldPercentEncode set b <;> simp [encodeByte, kept]

theorem decode_encode_byte (set : AsciiSet) (percent : set 37 = true) (b : UInt8) (rest : Bytes) :
    percentDecode (encodeByte set b ++ rest) = b :: percentDecode rest := by
  have bound := b.toNat_lt
  rcases encode_byte_cases set b with ⟨_, shape⟩ | ⟨kept, shape⟩
  · have byte : escaped 37 (hexDigit (b.toNat / 16) :: hexDigit (b.toNat % 16) :: rest) = some b := by
      simp only [escaped, if_true, hex_value_digit _ (show b.toNat / 16 < 16 by omega),
        hex_value_digit _ (show b.toNat % 16 < 16 by omega), Nat.div_add_mod, UInt8.ofNat_toNat]
    simp only [shape, List.cons_append, List.nil_append, percentDecode, decodeFrom, byte]
  · have other : b ≠ 37 := by
      rintro rfl
      simp [shouldPercentEncode, percent] at kept
    have plain : escaped b rest = none := by simp [escaped, other]
    simp only [shape, List.cons_append, List.nil_append, percentDecode, decodeFrom, plain]

theorem percent_decode_encode (set : AsciiSet) (percent : set 37 = true) (bytes : Bytes) :
    percentDecode (bytes.flatMap (encodeByte set)) = bytes := by
  induction bytes with
  | nil => rfl
  | cons b rest ih =>
      rw [List.flatMap_cons, decode_encode_byte set percent, ih]

theorem utf8_ascii (bytes : Bytes) (small : ∀ b ∈ bytes, b < 128) : utf8 (ascii bytes) = bytes := by
  induction bytes with
  | nil => rfl
  | cons b rest ih =>
      have head : b.toNat < 128 := UInt8.lt_iff_toNat_lt.mp (small b List.mem_cons_self)
      have tail := ih fun c member => small c (List.mem_cons_of_mem b member)
      have single : String.utf8EncodeChar (Char.ofNat b.toNat) = [b] := by
        have value := byte_char_code b
        rw [encode_char_ascii (by omega), value, UInt8.ofNat_toNat]
      simp only [utf8, ascii, List.map_cons, List.flatMap_cons, single] at *
      rw [tail, List.singleton_append]

/-- Without a `%` there is nothing to decode. -/
theorem percent_decode_plain {bytes : Bytes} (plain : 37 ∉ bytes) : percentDecode bytes = bytes := by
  induction bytes with
  | nil => rfl
  | cons b rest ih =>
      have other : b ≠ 37 := fun same => plain (same ▸ List.mem_cons_self)
      have tail := ih fun member => plain (List.mem_cons_of_mem b member)
      have none : escaped b rest = none := by simp [escaped, other]
      rw [percentDecode] at tail ⊢
      rw [decodeFrom, none]
      exact congrArg (b :: ·) tail

/-- Every encoded byte is ASCII and is a letter, a digit, a kept byte or `%`. -/
theorem encoded_mem (set : AsciiSet) (bytes : Bytes) (c : UInt8)
    (member : c ∈ bytes.flatMap (encodeByte set)) :
    c = 37 ∨ isAlphanumeric c = true ∨ shouldPercentEncode set c = false := by
  obtain ⟨b, _, inside⟩ := List.mem_flatMap.mp member
  have bound := b.toNat_lt
  rcases encode_byte_cases set b with ⟨_, shape⟩ | ⟨kept, shape⟩
  · rw [shape] at inside
    simp only [List.mem_cons, List.not_mem_nil, or_false] at inside
    rcases inside with rfl | rfl | rfl
    · exact Or.inl rfl
    · exact Or.inr (Or.inl (hex_digit_alphanumeric _ (by omega)))
    · exact Or.inr (Or.inl (hex_digit_alphanumeric _ (by omega)))
  · rw [shape] at inside
    have same : c = b := by simpa using inside
    exact Or.inr (Or.inr (same ▸ kept))

theorem alphanumeric_iff (b : UInt8) : isAlphanumeric b = true ↔
    (48 ≤ b.toNat ∧ b.toNat ≤ 57) ∨ (65 ≤ b.toNat ∧ b.toNat ≤ 90) ∨ (97 ≤ b.toNat ∧ b.toNat ≤ 122) := by
  simp only [isAlphanumeric, Bool.or_eq_true, Bool.and_eq_true, decide_eq_true_eq,
    UInt8.le_iff_toNat_le, UInt8.reduceToNat, or_assoc]

theorem alphanumeric_ascii (b : UInt8) (letter : isAlphanumeric b = true) : b < 128 := by
  have ranges := (alphanumeric_iff b).mp letter
  simp only [UInt8.lt_iff_toNat_lt, UInt8.reduceToNat]
  omega

theorem encoded_ascii (set : AsciiSet) (bytes : Bytes) (c : UInt8)
    (member : c ∈ bytes.flatMap (encodeByte set)) : c < 128 := by
  rcases encoded_mem set bytes c member with rfl | letter | kept
  · decide
  · exact alphanumeric_ascii c letter
  · simp only [shouldPercentEncode, Bool.or_eq_false_iff, decide_eq_false_iff_not] at kept
    exact UInt8.not_le.mp kept.1

/-- Decoding undoes encoding, provided the set contains `%` itself. -/
theorem percent_decode_str_encode (set : AsciiSet) (percent : set 37 = true) (text : Str) :
    percentDecodeStr (utf8PercentEncode text set) = some text := by
  rw [percentDecodeStr, utf8PercentEncode, utf8_ascii _ (encoded_ascii set (utf8 text)),
    percent_decode_encode set percent, fromUtf8_utf8]

/-! ### The encoded forms among all byte strings -/

section Forms
variable (set : AsciiSet)

/-- Is each byte the encoding of what it stands for? Escapes must be in upper case and
needed, and what needs an escape must have one. -/
def encodedFrom : Nat → Bytes → Bool
  | _, [] => true
  | skip + 1, _ :: rest => encodedFrom skip rest
  | 0, b :: rest =>
      match escaped b rest with
      | some byte => shouldPercentEncode set byte && encodeByte set byte = b :: rest.take 2 &&
          encodedFrom 2 rest
      | none => !shouldPercentEncode set b && encodedFrom 0 rest

def isEncoded (bytes : Bytes) : Bool := encodedFrom set 0 bytes

variable {set}

theorem escaped_some {b byte : UInt8} {rest : Bytes} (found : escaped b rest = some byte) :
    b = 37 ∧ ∃ high low more, rest = high :: low :: more := by
  unfold escaped at found
  split at found
  · next percent =>
      split at found
      · next high low more => exact ⟨percent, high, low, more, rfl⟩
      · cases found
  · cases found

theorem encoded_from_iff (percent : set 37 = true) (skip : Nat) (bytes : Bytes) :
    encodedFrom set skip bytes = true ↔
      (decodeFrom skip bytes).flatMap (encodeByte set) = bytes.drop skip := by
  induction bytes generalizing skip with
  | nil => cases skip <;> simp [encodedFrom, decodeFrom]
  | cons b rest ih =>
      cases skip with
      | succ skip => simpa only [encodedFrom, decodeFrom, List.drop_succ_cons] using ih skip
      | zero =>
          cases found : escaped b rest with
          | some byte =>
              obtain ⟨rfl, high, low, more, rfl⟩ := escaped_some found
              have later := ih 2
              simp only [encodedFrom, decodeFrom, List.drop_succ_cons, List.drop_zero] at later
              simp only [encodedFrom, decodeFrom, found, List.flatMap_cons, List.drop_zero,
                Bool.and_eq_true, List.take_succ_cons, List.take_zero]
              rcases encode_byte_cases set byte with ⟨needed, shape⟩ | ⟨kept, shape⟩
              · rw [shape]
                simp [needed, later, and_assoc]
              · -- A kept byte stands for itself, and `%` is not kept.
                rw [shape]
                constructor
                · rintro ⟨⟨needed, _⟩, _⟩
                  rw [kept] at needed
                  cases needed
                · intro same
                  rw [List.singleton_append, List.cons.injEq] at same
                  rw [same.1] at kept
                  simp [shouldPercentEncode, percent] at kept
          | none =>
              simp only [encodedFrom, decodeFrom, found, List.flatMap_cons, List.drop_zero,
                Bool.and_eq_true, Bool.not_eq_true', ih 0]
              rcases encode_byte_cases set b with ⟨needed, shape⟩ | ⟨kept, shape⟩
              · rw [shape, needed]
                constructor
                · rintro ⟨impossible, _⟩
                  cases impossible
                · intro same
                  -- The byte would be a `%` with digits after it, which is an escape.
                  simp only [List.cons_append, List.nil_append, List.cons.injEq] at same
                  have bound := b.toNat_lt
                  have escape : escaped b rest ≠ none := by
                    rw [← same.2, ← same.1]
                    simp only [escaped, if_true]
                    rw [hex_value_digit _ (show (37 : UInt8).toNat / 16 < 16 by decide),
                      hex_value_digit _ (show (37 : UInt8).toNat % 16 < 16 by decide)]
                    simp
                  exact absurd found escape
              · rw [shape, kept]
                simp

/-- The encoded forms are what decodes and encodes back to itself. -/
theorem is_encoded_iff (percent : set 37 = true) (bytes : Bytes) :
    isEncoded set bytes = true ↔ (percentDecode bytes).flatMap (encodeByte set) = bytes :=
  encoded_from_iff percent 0 bytes

end Forms

/-! ### What decoding leaves alone -/

/-- Does a `%` with two hexadecimal digits stand anywhere in the bytes? -/
def hasEscape : Bytes → Bool
  | [] => false
  | b :: rest => (escaped b rest).isSome || hasEscape rest

theorem decode_from_length (skip : Nat) (bytes : Bytes) :
    (decodeFrom skip bytes).length ≤ bytes.length - skip := by
  induction bytes generalizing skip with
  | nil => cases skip <;> simp [decodeFrom]
  | cons b rest ih =>
      cases skip with
      | succ skip =>
          have shorter := ih skip
          simp only [decodeFrom, List.length_cons]
          omega
      | zero =>
          cases found : escaped b rest with
          | some byte =>
              have shorter := ih 2
              simp only [decodeFrom, found, List.length_cons]
              omega
          | none =>
              have shorter := ih 0
              simp only [decodeFrom, found, List.length_cons]
              omega

theorem percent_decode_length (bytes : Bytes) : (percentDecode bytes).length ≤ bytes.length :=
  decode_from_length 0 bytes

/-- Decoding keeps a text as it is exactly when nothing in it reads as an escape: an
escape makes the text shorter. -/
theorem percent_decode_same_iff (bytes : Bytes) :
    percentDecode bytes = bytes ↔ hasEscape bytes = false := by
  induction bytes with
  | nil => simp [percentDecode, decodeFrom, hasEscape]
  | cons b rest ih =>
      cases found : escaped b rest with
      | some byte =>
          obtain ⟨rfl, high, low, more, rfl⟩ := escaped_some found
          have shorter := decode_from_length 2 (high :: low :: more)
          constructor
          · intro same
            have lengths := congrArg List.length same
            simp only [percentDecode, decodeFrom, found, List.length_cons] at lengths shorter
            omega
          · intro clear
            simp [hasEscape, found] at clear
      | none =>
          simp only [hasEscape, found, Option.isSome_none, Bool.false_or, ← ih, percentDecode,
            decodeFrom, List.cons.injEq, true_and]

theorem percent_decode_str_same_iff (text : Str) :
    percentDecodeStr text = some text ↔ hasEscape (utf8 text) = false := by
  rw [← percent_decode_same_iff, percentDecodeStr]
  constructor
  · intro read
    exact (utf8_fromUtf8 read).symm
  · intro same
    rw [same, fromUtf8_utf8]

theorem percent_decode_str_length {text decoded : Str} (read : percentDecodeStr text = some decoded) :
    (utf8 decoded).length ≤ (utf8 text).length := by
  have bytes := utf8_fromUtf8 read
  rw [bytes]
  exact percent_decode_length (utf8 text)

/-- An ASCII text without `%` decodes to itself. -/
theorem percent_decode_ascii {text : Str} (ascii : ∀ c ∈ text, c.toNat < 128) (clear : '%' ∉ text) :
    percentDecode (utf8 text) = utf8 text := by
  apply percent_decode_plain
  intro member
  obtain ⟨c, inside, byte⟩ := List.mem_flatMap.mp member
  rw [encode_char_ascii (ascii c inside), List.mem_singleton] at byte
  have value : c.toNat = '%'.toNat := by
    have same := congrArg UInt8.toNat byte
    have small := ascii c inside
    simp only [UInt8.toNat_ofNat', UInt8.reduceToNat] at same
    rw [Nat.mod_eq_of_lt (by omega)] at same
    exact same.symm
  have letter : c = '%' := by
    rw [← Char.ofNat_toNat c, value, Char.ofNat_toNat]
  exact clear (letter ▸ inside)

/-! ### What encoding leaves alone -/

/-- Two encoders of single items, the first never longer than the second, agree on a list
exactly when they agree on its items. -/
theorem flatMap_same_iff {α β : Type} {f g : α → List β}
    (shorter : ∀ a, (f a).length ≤ (g a).length) (items : List α) :
    items.flatMap f = items.flatMap g ↔ ∀ a ∈ items, f a = g a := by
  have whole : ∀ items : List α, (items.flatMap f).length ≤ (items.flatMap g).length := by
    intro items
    induction items with
    | nil => simp
    | cons a rest ih =>
        have first := shorter a
        rw [List.flatMap_cons, List.flatMap_cons, List.length_append, List.length_append]
        omega
  induction items with
  | nil => simp
  | cons a rest ih =>
      rw [List.flatMap_cons, List.flatMap_cons, List.forall_mem_cons]
      constructor
      · intro same
        have lengths := congrArg List.length same
        have first := shorter a
        have later := whole rest
        rw [List.length_append, List.length_append] at lengths
        have parts := List.append_inj same (by omega)
        exact ⟨parts.1, ih.mp parts.2⟩
      · rintro ⟨first, later⟩
        rw [first, ih.mpr later]

/-- The characters that an encoder leaves as they are. -/
def keeps (set : AsciiSet) (c : Char) : Bool := c.toNat < 128 && !set (UInt8.ofNat c.toNat)

/-- A byte that is not encoded is a character that is kept. -/
theorem keeps_byte {set : AsciiSet} {b : UInt8} (kept : shouldPercentEncode set b = false) :
    keeps set (Char.ofNat b.toNat) = true := by
  simp only [shouldPercentEncode, Bool.or_eq_false_iff, decide_eq_false_iff_not] at kept
  have small : b.toNat < 128 := UInt8.lt_iff_toNat_lt.mp (UInt8.not_le.mp kept.1)
  simp [keeps, byte_char_code, small, kept.2]

section Kept
variable (set : AsciiSet)

theorem percent_encode_append (left right : Str) :
    utf8PercentEncode (left ++ right) set =
      utf8PercentEncode left set ++ utf8PercentEncode right set := by
  simp [utf8PercentEncode, utf8, ascii]

theorem percent_encode_chars (text : Str) :
    utf8PercentEncode text set = text.flatMap fun c => utf8PercentEncode [c] set := by
  induction text with
  | nil => rfl
  | cons c rest ih =>
      rw [List.flatMap_cons, ← ih, ← percent_encode_append, List.singleton_append]

theorem encode_bytes_length (bytes : Bytes) :
    bytes.length ≤ (bytes.flatMap (encodeByte set)).length := by
  induction bytes with
  | nil => simp
  | cons b rest ih =>
      rw [List.flatMap_cons, List.length_append, List.length_cons]
      rcases encode_byte_cases set b with ⟨_, shape⟩ | ⟨_, shape⟩
      · rw [shape, List.length_cons]
        omega
      · rw [shape, List.length_singleton]
        omega

theorem percent_encode_char_iff (c : Char) : [c] = utf8PercentEncode [c] set ↔ keeps set c = true := by
  by_cases small : c.toNat < 128
  · have byte := ascii_byte small
    have ascii : ¬ 128 ≤ UInt8.ofNat c.toNat := by
      rw [UInt8.le_iff_toNat_le, byte]
      exact not_le.mpr small
    have single : utf8 [c] = [UInt8.ofNat c.toNat] := by
      rw [utf8, List.flatMap_singleton, encode_char_ascii small]
    cases kept : set (UInt8.ofNat c.toNat) with
    | true =>
        simp [utf8PercentEncode, single, encodeByte, shouldPercentEncode, kept, keeps,
          PercentEncoding.ascii]
    | false =>
        simp [utf8PercentEncode, single, encodeByte, shouldPercentEncode, kept, keeps, ascii, small,
          PercentEncoding.ascii, byte]
  · -- Two bytes at least, and none of them gets shorter.
    have long : 2 ≤ (utf8PercentEncode [c] set).length := by
      have bytes : 2 ≤ (utf8 [c]).length := by
        rw [utf8_length, utf8Len, List.map_singleton, List.sum_singleton]
        by_contra less
        have one : c.utf8Size = 1 := by
          have positive := Char.utf8Size_pos c
          omega
        rw [Char.utf8Size_eq_one_iff] at one
        exact small (Nat.lt_succ_of_le (UInt32.le_iff_toNat_le.mp one))
      have kept := encode_bytes_length set (utf8 [c])
      rw [utf8PercentEncode, PercentEncoding.ascii, List.length_map]
      omega
    constructor
    · intro same
      rw [← same, List.length_singleton] at long
      omega
    · intro kept
      simp [keeps, small] at kept

theorem percent_encode_char_length (c : Char) : 1 ≤ (utf8PercentEncode [c] set).length := by
  have kept := encode_bytes_length set (utf8 [c])
  have bytes := Char.utf8Size_pos c
  rw [utf8_length, utf8Len, List.map_singleton, List.sum_singleton] at kept
  rw [utf8PercentEncode, ascii, List.length_map]
  omega

theorem percent_encode_length (text : Str) : text.length ≤ (utf8PercentEncode text set).length := by
  induction text with
  | nil => exact Nat.zero_le _
  | cons c rest ih =>
      have one := percent_encode_char_length set c
      rw [percent_encode_chars, List.flatMap_cons, ← percent_encode_chars, List.length_append, List.length_cons]
      omega

/-- Encoding keeps a text as it is exactly when it keeps each of its characters. -/
theorem percent_encode_same_iff (text : Str) :
    text = utf8PercentEncode text set ↔ ∀ c ∈ text, keeps set c = true := by
  have chars := flatMap_same_iff (f := fun c : Char => [c]) (percent_encode_char_length set) text
  rw [List.flatMap_singleton', ← percent_encode_chars] at chars
  rw [chars]
  apply forall₂_congr
  intro c _
  exact percent_encode_char_iff set c

end Kept

end PercentEncoding
