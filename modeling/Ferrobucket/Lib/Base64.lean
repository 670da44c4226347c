import Ferrobucket.Lib.Text
/-! Base 64 with the URL-safe alphabet and without padding. Decoding is strict: a
foreign character, an impossible length or unused bits that are set are refused. -/
namespace Base64
open Text

def sextetChar (n : Nat) : Char :=
  if n < 26 then Char.ofNat (65 + n)
  else if n < 52 then Char.ofNat (71 + n)
  else if n < 62 then Char.ofNat (n - 4)
  else if n = 62 then '-'
  else '_'

def sextetValue (c : Char) : Option Nat :=
  if 'A' ≤ c ∧ c ≤ 'Z' then some (c.toNat - 65)
  else if 'a' ≤ c ∧ c ≤ 'z' then some (c.toNat - 71)
  else if '0' ≤ c ∧ c ≤ '9' then some (c.toNat + 4)
  else if c = '-' then some 62
  else if c = '_' then some 63
  else none

def encode : Bytes → Str
  | a :: b :: c :: rest =>
      let n := a.toNat * 65536 + b.toNat * 256 + c.toNat
      sextetChar (n / 262144) :: sextetChar (n / 4096 % 64) :: sextetChar (n / 64 % 64) ::
        sextetChar (n % 64) :: encode rest
  | [a, b] =>
      let n := a.toNat * 1024 + b.toNat * 4
      [sextetChar (n / 4096), sextetChar (n / 64 % 64), sextetChar (n % 64)]
  | [a] => [sextetChar (a.toNat / 4), sextetChar (a.toNat % 4 * 16)]
  | [] => []

def decode : Str → Option Bytes
  | a :: b :: c :: d :: rest =>
      match sextetValue a, sextetValue b, sextetValue c, sextetValue d, decode rest with
      | some w, some x, some y, some z, some bytes =>
          let n := w * 262144 + x * 4096 + y * 64 + z
          some (UInt8.ofNat (n / 65536) :: UInt8.ofNat (n / 256) :: UInt8.ofNat n :: bytes)
      | _, _, _, _, _ => none
  | [a, b, c] =>
      match sextetValue a, sextetValue b, sextetValue c with
      | some w, some x, some y =>
          let n := w * 4096 + x * 64 + y
          if n % 4 = 0 then some [UInt8.ofNat (n / 1024), UInt8.ofNat (n / 4)] else none
      | _, _, _ => none
  | [a, b] =>
      match sextetValue a, sextetValue b with
      | some w, some x => if x % 16 = 0 then some [UInt8.ofNat (w * 4 + x / 16)] else none
      | _, _ => none
  | [_] => none
  | [] => some []

theorem sextet_value_char (n : Nat) (small : n < 64) : sextetValue (sextetChar n) = some n := by
  unfold sextetChar
  split_ifs with upper lower digit dash
  · have code : (Char.ofNat (65 + n)).toNat = 65 + n := char_code (by omega)
    simp only [sextetValue, char_le_iff, code, Char.reduceToNat]
    rw [if_pos (by omega), Nat.add_sub_cancel_left]
  · have code : (Char.ofNat (71 + n)).toNat = 71 + n := char_code (by omega)
    simp only [sextetValue, char_le_iff, code, Char.reduceToNat]
    rw [if_neg (by omega), if_pos (by omega), Nat.add_sub_cancel_left]
  · have code : (Char.ofNat (n - 4)).toNat = n - 4 := char_code (by omega)
    simp only [sextetValue, char_le_iff, code, Char.reduceToNat]
    rw [if_neg (by omega), if_neg (by omega), if_pos (by omega), Nat.sub_add_cancel (by omega)]
  · rw [dash]
    decide
  · have last : n = 63 := by omega
    rw [last]
    decide

-- Induction on the groups of three bytes; the digits of each group recombine.
theorem decode_encode (bytes : Bytes) : decode (encode bytes) = some bytes := by
  induction bytes using encode.induct with
  | case1 a b c rest ih =>
      have boundA := a.toNat_lt
      have boundB := b.toNat_lt
      have boundC := c.toNat_lt
      simp only [encode, decode]
      rw [sextet_value_char _ (by omega), sextet_value_char _ (by omega),
        sextet_value_char _ (by omega), sextet_value_char _ (by omega), ih]
      simp only [Option.some.injEq, List.cons.injEq, and_true, ← UInt8.toNat_inj, UInt8.toNat_ofNat']
      omega
  | case2 a b =>
      have boundA := a.toNat_lt
      have boundB := b.toNat_lt
      simp only [encode, decode]
      rw [sextet_value_char _ (by omega), sextet_value_char _ (by omega),
        sextet_value_char _ (by omega)]
      simp only
      rw [if_pos (by omega)]
      simp only [Option.some.injEq, List.cons.injEq, and_true, ← UInt8.toNat_inj, UInt8.toNat_ofNat']
      omega
  | case3 a =>
      have boundA := a.toNat_lt
      simp only [encode, decode]
      rw [sextet_value_char _ (by omega), sextet_value_char _ (by omega)]
      simp only
      rw [if_pos (by omega)]
      simp only [Option.some.injEq, List.cons.injEq, and_true, ← UInt8.toNat_inj, UInt8.toNat_ofNat']
      omega
  | case4 => rfl

end Base64
