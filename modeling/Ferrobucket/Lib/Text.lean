import Mathlib.Data.Char
import Mathlib.Data.List.Lex
import Mathlib.Data.UInt
import Mathlib.Order.Monotone.Basic
/-! Strings as Rust's `str` has them. A string is its sequence of Unicode scalar
values; the bytes are its UTF-8 form. Comparison of the sequences and comparison of
the bytes agree, so either order may be used for sorted keys. -/
namespace Text

abbrev Str := List Char

abbrev Bytes := List UInt8

instance : LawfulBEq Str := inferInstance

instance : IsTrans Str (· ≤ ·) := inferInstance

instance : Std.Antisymm (α := Str) (· ≤ ·) := inferInstance

instance : Std.Total (α := Str) (· ≤ ·) := inferInstance

def utf8 (text : Str) : Bytes := text.flatMap String.utf8EncodeChar

/-- `str::len`: the number of UTF-8 bytes. -/
def utf8Len (text : Str) : Nat := (text.map Char.utf8Size).sum

/-- `String::from_utf8`. -/
def fromUtf8 (bytes : Bytes) : Option Str := bytes.toByteArray.utf8Decode?.map Array.toList

theorem utf8_length (text : Str) : (utf8 text).length = utf8Len text := by
  induction text with
  | nil => rfl
  | cons c rest ih =>
      simp only [utf8, utf8Len, List.flatMap_cons, List.length_append, List.map_cons,
        List.sum_cons, String.length_utf8EncodeChar] at *
      rw [ih]

theorem utf8Len_append (left right : Str) :
    utf8Len (left ++ right) = utf8Len left + utf8Len right := by
  simp [utf8Len]

theorem utf8Len_ascii {text : Str} (ascii : ∀ c ∈ text, c.toNat < 128) :
    utf8Len text = text.length := by
  induction text with
  | nil => rfl
  | cons c rest ih =>
      have single : c.utf8Size = 1 := by
        have small : c.val ≤ 127 := by
          have bound := ascii c List.mem_cons_self
          exact UInt32.le_iff_toNat_le.mpr (Nat.le_of_lt_succ bound)
        simp [Char.utf8Size, small]
      have tail := ih fun d member => ascii d (List.mem_cons_of_mem c member)
      simp only [utf8Len, List.map_cons, List.sum_cons, List.length_cons, single] at *
      omega

/-- Below the surrogates every number is the code of a character. -/
theorem char_code {n : Nat} (small : n < 0xd800) : (Char.ofNat n).toNat = n := by
  have valid : n.isValidChar := .inl small
  rw [Char.ofNat, dif_pos valid]
  rfl

theorem byte_char_code (b : UInt8) : (Char.ofNat b.toNat).toNat = b.toNat := by
  have bound := b.toNat_lt
  exact char_code (by omega)

theorem ascii_byte {c : Char} (ascii : c.toNat < 128) : (UInt8.ofNat c.toNat).toNat = c.toNat := by
  rw [UInt8.toNat_ofNat', Nat.mod_eq_of_lt (by omega)]

theorem char_le_iff (low high : Char) : low ≤ high ↔ low.toNat ≤ high.toNat := Iff.rfl

theorem encode_char_ascii {c : Char} (ascii : c.toNat < 128) :
    String.utf8EncodeChar c = [UInt8.ofNat c.toNat] := by
  have value : c.val.toNat = c.toNat := rfl
  unfold String.utf8EncodeChar
  simp only [value]
  rw [if_pos (by omega)]

theorem fromUtf8_utf8 (text : Str) : fromUtf8 (utf8 text) = some text := by
  have decoded := List.utf8Decode?_utf8Encode (l := text)
  simp only [List.utf8Encode] at decoded
  simp [fromUtf8, utf8, decoded]

/-- Bytes that are read as text are the bytes of that text. -/
theorem utf8_fromUtf8 {bytes : Bytes} {text : Str} (read : fromUtf8 bytes = some text) :
    utf8 text = bytes := by
  obtain ⟨chars, decoded, rfl⟩ := Option.map_eq_some_iff.mp read
  have some : bytes.toByteArray.utf8Decode?.isSome := by simp [decoded]
  have whole := ByteArray.utf8Encode_get_utf8Decode? (h := some)
  simp only [decoded, Option.get_some, List.utf8Encode] at whole
  exact List.toByteArray_inj.mp whole

theorem utf8_injective : Function.Injective utf8 := by
  intro left right same
  have decoded := congrArg fromUtf8 same
  rw [fromUtf8_utf8, fromUtf8_utf8] at decoded
  exact Option.some.inj decoded

theorem byte_lt {low high : Nat} (a : low < 256) (b : high < 256) :
    UInt8.ofNat low < UInt8.ofNat high ↔ low < high := by
  simp [UInt8.lt_iff_toNat_lt, Nat.mod_eq_of_lt a, Nat.mod_eq_of_lt b]

theorem byte_eq {low high : Nat} (a : low < 256) (b : high < 256) :
    UInt8.ofNat low = UInt8.ofNat high ↔ low = high := by
  simp [← UInt8.toNat_inj, Nat.mod_eq_of_lt a, Nat.mod_eq_of_lt b]

-- The bytes of a smaller character decide the comparison before either one ends.
theorem encode_char_lt {low high : Char} (less : low < high) (left right : Bytes) :
    String.utf8EncodeChar low ++ left < String.utf8EncodeChar high ++ right := by
  have values : low.val.toNat < high.val.toNat := less
  have top : high.val.toNat ≤ 0x10ffff := by
    have valid := high.valid
    simp only [UInt32.isValidChar, Nat.isValidChar] at valid
    omega
  have digits : ∀ n : Nat, n ≤ 0x10ffff → n = n / 262144 % 8 * 262144 + n / 4096 % 64 * 4096 +
      n / 64 % 64 * 64 + n % 64 := by omega
  have lowDigits := digits low.val.toNat (by omega)
  have highDigits := digits high.val.toNat top
  unfold String.utf8EncodeChar
  simp only
  split <;> split <;> try split
  all_goals try split
  all_goals try split
  all_goals try split
  all_goals simp only [List.cons_append, List.nil_append, List.cons_lt_cons_iff]
  all_goals simp (disch := omega) only [byte_lt, byte_eq]
  all_goals omega

theorem utf8_lt {left right : Str} (less : left < right) : utf8 left < utf8 right := by
  induction left generalizing right with
  | nil =>
      cases right with
      | nil => exact absurd less (lt_irrefl _)
      | cons c rest =>
          cases shape : String.utf8EncodeChar c with
          | nil => exact absurd shape String.utf8EncodeChar_ne_nil
          | cons b more => simp [utf8, shape]
  | cons c rest ih =>
      cases right with
      | nil => exact absurd less (List.not_lt_nil _)
      | cons d more =>
          rcases List.cons_lt_cons_iff.mp less with smaller | ⟨rfl, tail⟩
          · exact encode_char_lt smaller _ _
          · exact List.append_left_lt (ih tail)

/-- Byte order is the order of the strings. -/
theorem utf8_lt_iff (left right : Str) : utf8 left < utf8 right ↔ left < right := by
  constructor
  · intro bytes
    rcases lt_trichotomy left right with less | same | more
    · exact less
    · subst same
      exact absurd bytes (List.lt_irrefl _)
    · exact absurd bytes (List.lt_asymm (utf8_lt more))
  · exact utf8_lt

/-! ### The parts between separators -/

theorem mem_splitOn {text part : Str} {separator c : Char} (piece : part ∈ text.splitOn separator)
    (member : c ∈ part) : c ∈ text ∧ c ≠ separator := by
  induction text generalizing part with
  | nil =>
      rw [List.splitOn_nil, List.mem_singleton] at piece
      rw [piece] at member
      cases member
  | cons first rest ih =>
      rw [List.splitOn_cons_eq_if_modifyHead] at piece
      split at piece
      · rcases List.mem_cons.mp piece with same | later
        · rw [same] at member
          cases member
        · exact ⟨List.mem_cons_of_mem _ (ih later member).1, (ih later member).2⟩
      · next other =>
          obtain ⟨head, tail, split⟩ := List.exists_cons_of_ne_nil (List.splitOn_ne_nil separator rest)
          rw [split, List.modifyHead_cons] at piece
          rw [split] at ih
          rcases List.mem_cons.mp piece with same | later
          · rw [same] at member
            rcases List.mem_cons.mp member with here | inside
            · refine ⟨here ▸ List.mem_cons_self, ?_⟩
              simpa [here] using other
            · have found := ih List.mem_cons_self inside
              exact ⟨List.mem_cons_of_mem _ found.1, found.2⟩
          · have found := ih (List.mem_cons_of_mem _ later) member
            exact ⟨List.mem_cons_of_mem _ found.1, found.2⟩

theorem splitOn_covers {text : Str} {separator c : Char} (member : c ∈ text) (other : c ≠ separator) :
    ∃ part ∈ text.splitOn separator, c ∈ part := by
  induction text with
  | nil => cases member
  | cons first rest ih =>
      rw [List.splitOn_cons_eq_if_modifyHead]
      split
      · next same =>
          rcases List.mem_cons.mp member with here | later
          · subst here
            exact absurd (beq_iff_eq.mp same) other
          · obtain ⟨part, piece, inside⟩ := ih later
            exact ⟨part, List.mem_cons_of_mem _ piece, inside⟩
      · obtain ⟨head, tail, split⟩ := List.exists_cons_of_ne_nil (List.splitOn_ne_nil separator rest)
        rw [split] at ih ⊢
        rw [List.modifyHead_cons]
        rcases List.mem_cons.mp member with here | later
        · exact ⟨first :: head, List.mem_cons_self, here ▸ List.mem_cons_self⟩
        · obtain ⟨part, piece, inside⟩ := ih later
          rcases List.mem_cons.mp piece with same | behind
          · exact ⟨first :: head, List.mem_cons_self, List.mem_cons_of_mem _ (same ▸ inside)⟩
          · exact ⟨part, List.mem_cons_of_mem _ behind, inside⟩
/-- A part stands at an end of the text or next to a separator, on either side. -/
theorem piece_iff {text part : Str} {separator : Char} (clear : separator ∉ part) :
    part ∈ text.splitOn separator ↔
      text = part ∨ (∃ back, text = part ++ separator :: back) ∨
        (∃ front, text = front ++ separator :: part) ∨
        ∃ front back, text = front ++ separator :: (part ++ separator :: back) := by
  constructor
  · intro piece
    induction long : text.length using Nat.strong_induction_on generalizing text with
    | _ length ih =>
      by_cases separated : separator ∈ text
      · obtain ⟨first, rest, rfl, before⟩ := List.eq_append_cons_of_mem separated
        rw [List.splitOn_append_cons_self, List.splitOn_eq_singleton before] at piece
        rcases List.mem_cons.mp piece with rfl | later
        · exact .inr (.inl ⟨rest, rfl⟩)
        · have shorter : rest.length < length := by
            rw [← long, List.length_append, List.length_cons]
            omega
          rcases ih _ shorter later rfl with rfl | ⟨back, rfl⟩ | ⟨front, rfl⟩ | ⟨front, back, rfl⟩
          · exact .inr (.inr (.inl ⟨first, rfl⟩))
          · exact .inr (.inr (.inr ⟨first, back, rfl⟩))
          · exact .inr (.inr (.inl ⟨first ++ separator :: front, by simp⟩))
          · exact .inr (.inr (.inr ⟨first ++ separator :: front, back, by simp⟩))
      · rw [List.splitOn_eq_singleton separated, List.mem_singleton] at piece
        exact .inl piece.symm
  · have alone : part.splitOn separator = [part] := List.splitOn_eq_singleton clear
    rintro (rfl | ⟨back, rfl⟩ | ⟨front, rfl⟩ | ⟨front, back, rfl⟩)
    · simp [alone]
    · simp [List.splitOn_append_cons_self, alone]
    · simp [List.splitOn_append_cons_self, alone]
    · simp [List.splitOn_append_cons_self, alone]

end Text
