import Ferrobucket.Lib.Lexical
import Ferrobucket.Lib.PercentEncoding
import Ferrobucket.Records
/-! Keys as file names, from encode.rs. The set starts from all non-alphanumeric
ASCII, and adding members to it removes nothing: every punctuation byte is encoded. -/
namespace Ferrobucket
open Text Posix PercentEncoding

def keyEncodeSet : AsciiSet :=
  (((nonAlphanumeric.add 45).add 95).add 46).add 126

def startsWith (text pattern : Str) : Bool := pattern.isPrefixOf text

def endsWith (text pattern : Str) : Bool := pattern.isSuffixOf text

def contains (text pattern : Str) : Bool := (Lexical.find pattern text).isSome

def isTraversalUnsafe (s : Str) : Bool :=
  s.contains '\u0000' || s = "..".toList || startsWith s "../".toList ||
    contains s "/../".toList || endsWith s "/..".toList

def encodeKey (key : Str) : Except StorageError Str :=
  let encoded := utf8PercentEncode key keyEncodeSet
  if utf8Len encoded > 255 then .error (.KeyTooLong key)
  else if isTraversalUnsafe key then .error .InvalidKey
  else .ok encoded

def decodeKey (encoded : Str) : Except StorageError Str :=
  match percentDecodeStr encoded with
  | none => .error .InvalidKey
  | some decoded => if isTraversalUnsafe decoded then .error .InvalidKey else .ok decoded

theorem key_set_alphanumeric (b : UInt8) :
    shouldPercentEncode keyEncodeSet b = !isAlphanumeric b := by
  cases letter : isAlphanumeric b with
  | false => simp [shouldPercentEncode, keyEncodeSet, AsciiSet.add, nonAlphanumeric, letter]
  | true =>
      have ranges := (alphanumeric_iff b).mp letter
      simp only [shouldPercentEncode, keyEncodeSet, AsciiSet.add, nonAlphanumeric, letter,
        Bool.not_true, Bool.or_eq_false_iff, decide_eq_false_iff_not, UInt8.le_iff_toNat_le,
        ← UInt8.toNat_inj, UInt8.reduceToNat, and_true]
      omega

theorem encode_key_ok {key encoded : Str} (admitted : encodeKey key = .ok encoded) :
    encoded = utf8PercentEncode key keyEncodeSet ∧ utf8Len encoded ≤ 255 ∧
      isTraversalUnsafe key = false := by
  simp only [encodeKey] at admitted
  split at admitted
  · cases admitted
  · next short =>
      split at admitted
      · cases admitted
      · next safe =>
          cases admitted
          exact ⟨rfl, not_lt.mp short, by simpa using safe⟩

theorem decode_encode_key {key encoded : Str} (admitted : encodeKey key = .ok encoded) :
    decodeKey encoded = .ok key := by
  obtain ⟨rfl, _, safe⟩ := encode_key_ok admitted
  have decoded := percent_decode_str_encode keyEncodeSet (by decide) key
  simp [decodeKey, decoded, safe]

theorem encode_key_injective {left right encoded : Str} (first : encodeKey left = .ok encoded)
    (second : encodeKey right = .ok encoded) : left = right := by
  have same := (decode_encode_key first).symm.trans (decode_encode_key second)
  exact Except.ok.inj same

theorem ascii_alphanumeric_iff (c : Char) : isAsciiAlphanumeric c = true ↔
    (48 ≤ c.toNat ∧ c.toNat ≤ 57) ∨ (65 ≤ c.toNat ∧ c.toNat ≤ 90) ∨ (97 ≤ c.toNat ∧ c.toNat ≤ 122) := by
  simp only [isAsciiAlphanumeric, Bool.or_eq_true, Bool.and_eq_true, decide_eq_true_eq, char_le_iff,
    Char.reduceToNat, or_assoc]

theorem letter_char {b : UInt8} (letter : isAlphanumeric b = true) :
    isAsciiAlphanumeric (Char.ofNat b.toNat) = true := by
  have ranges := (alphanumeric_iff b).mp letter
  rw [ascii_alphanumeric_iff, byte_char_code]
  exact ranges

/-- The characters of a file name that the write path installs. -/
def isEncodedChar (c : Char) : Bool := c = '%' || isAsciiAlphanumeric c

theorem encoded_chars {key encoded : Str} (admitted : encodeKey key = .ok encoded) (c : Char)
    (member : c ∈ encoded) : isEncodedChar c = true := by
  obtain ⟨rfl, _, _⟩ := encode_key_ok admitted
  obtain ⟨b, inside, rfl⟩ := List.mem_map.mp member
  rcases encoded_mem keyEncodeSet _ b inside with rfl | letter | kept
  · decide
  · simp [isEncodedChar, letter_char letter]
  · rw [key_set_alphanumeric, Bool.not_eq_false'] at kept
    simp [isEncodedChar, letter_char kept]

theorem letter_kept {c : Char} (letter : isAsciiAlphanumeric c = true) : keeps keyEncodeSet c = true := by
  have ranges := (ascii_alphanumeric_iff c).mp letter
  have byte : (UInt8.ofNat c.toNat).toNat = c.toNat := ascii_byte (by omega)
  have alphanumeric : isAlphanumeric (UInt8.ofNat c.toNat) = true := by
    rw [alphanumeric_iff, byte]
    exact ranges
  have kept : shouldPercentEncode keyEncodeSet (UInt8.ofNat c.toNat) = false := by
    rw [key_set_alphanumeric, alphanumeric, Bool.not_true]
  have same := keeps_byte kept
  rwa [byte, Char.ofNat_toNat] at same

/-- What the traversal guard looks for is a NUL byte or needs a dot. -/
theorem traversal_safe {key : Str} (nul : '\u0000' ∉ key) (dot : '.' ∉ key) :
    isTraversalUnsafe key = false := by
  have parent : key ≠ "..".toList := by
    rintro rfl
    exact dot (by decide)
  have leading : startsWith key "../".toList = false := by
    rw [startsWith, ← Bool.not_eq_true, List.isPrefixOf_iff_prefix]
    intro front
    exact dot (front.subset (by decide))
  have inside : contains key "/../".toList = false := by
    rw [contains, Option.isSome_eq_false_iff, Option.isNone_iff_eq_none, Lexical.find_none_iff]
    rintro ⟨front, back, rfl⟩
    exact dot (by simp)
  have trailing : endsWith key "/..".toList = false := by
    rw [endsWith, ← Bool.not_eq_true, List.isSuffixOf_iff_suffix]
    intro back
    exact dot (back.subset (by decide))
  have clear : key.contains '\u0000' = false := by simpa using nul
  simp only [isTraversalUnsafe, clear, leading, inside, trailing, decide_eq_false parent, Bool.or_false]

/-- Up to 255 letters and digits are their own file name. -/
theorem encode_key_letters {key : Str} (letters : ∀ c ∈ key, isAsciiAlphanumeric c = true)
    (short : key.length ≤ 255) : encodeKey key = .ok key := by
  have same := (percent_encode_same_iff keyEncodeSet key).mpr fun c member => letter_kept (letters c member)
  have ascii : ∀ c ∈ key, c.toNat < 128 := by
    intro c member
    have ranges := (ascii_alphanumeric_iff c).mp (letters c member)
    omega
  have clear : ∀ d, isAsciiAlphanumeric d = false → d ∉ key := by
    intro d other member
    rw [letters d member] at other
    cases other
  have safe := traversal_safe (clear '\u0000' (by decide)) (clear '.' (by decide))
  have length : ¬ key.length > 255 := by omega
  simp only [encodeKey, ← same, utf8Len_ascii ascii, safe, if_neg length, Bool.false_eq_true, if_false]

theorem encode_key_replicate {c : Char} (letter : isAsciiAlphanumeric c = true) {count : Nat}
    (short : count ≤ 255) : encodeKey (List.replicate count c) = .ok (List.replicate count c) := by
  apply encode_key_letters
  · intro d member
    rw [List.eq_of_mem_replicate member]
    exact letter
  · rw [List.length_replicate]
    exact short

theorem encoded_nil {key encoded : Str} (admitted : encodeKey key = .ok encoded) :
    encoded = [] ↔ key = [] := by
  constructor
  · rintro rfl
    have decoded := decode_encode_key admitted
    have empty : decodeKey [] = .ok [] := by decide
    exact Except.ok.inj (decoded.symm.trans empty)
  · rintro rfl
    exact (encode_key_ok admitted).1

end Ferrobucket
