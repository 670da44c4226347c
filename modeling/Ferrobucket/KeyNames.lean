import Ferrobucket.Files
/-! Keys and the file names they are stored under, in both directions. What the write
path installs reads back to its key; the reader accepts more names than that, because
nothing makes it refuse a name that the writer would have spelled differently. -/
namespace Ferrobucket
open Text Posix Program PercentEncoding

/-! ### From keys to names -/

def isHexDigit (c : Char) : Bool :=
  ('0' ≤ c && c ≤ '9') || ('A' ≤ c && c ≤ 'F') || ('a' ≤ c && c ≤ 'f')

/-- Letters, digits, and `%` always followed by two hexadecimal digits. -/
def isKeyText : Str → Bool
  | [] => true
  | c :: rest =>
      if c = '%' then
        match rest with
        | high :: low :: more => isHexDigit high && isHexDigit low && isKeyText more
        | _ => false
      else isAsciiAlphanumeric c && isKeyText rest

theorem key_text_escape (high low : Char) (rest : Str) :
    isKeyText ('%' :: high :: low :: rest) = (isHexDigit high && isHexDigit low && isKeyText rest) :=
  rfl

theorem key_text_plain {c : Char} (other : c ≠ '%') (rest : Str) :
    isKeyText (c :: rest) = (isAsciiAlphanumeric c && isKeyText rest) := by
  cases rest with
  | nil => simp [isKeyText, other]
  | cons high more => cases more <;> simp [isKeyText, other]

theorem hex_digit_char (n : Nat) (small : n < 16) :
    isHexDigit (Char.ofNat (hexDigit n).toNat) = true := by
  have all : ∀ n : Fin 16, isHexDigit (Char.ofNat (hexDigit n.val).toNat) = true := by decide
  exact all ⟨n, small⟩

theorem encoded_is_key_text (bytes : Bytes) :
    isKeyText (ascii (bytes.flatMap (encodeByte keyEncodeSet))) = true := by
  induction bytes with
  | nil => rfl
  | cons b rest ih =>
      have bound := b.toNat_lt
      rcases encode_byte_cases keyEncodeSet b with ⟨_, shape⟩ | ⟨kept, shape⟩
      · rw [List.flatMap_cons, shape]
        have high := hex_digit_char (b.toNat / 16) (by omega)
        have low := hex_digit_char (b.toNat % 16) (by omega)
        have percent : Char.ofNat (37 : UInt8).toNat = '%' := rfl
        simp only [ascii, List.cons_append, List.nil_append, List.map_cons, percent,
          key_text_escape, high, low, Bool.true_and]
        exact ih
      · have letter : isAlphanumeric b = true := by simpa [key_set_alphanumeric] using kept
        have plain := letter_char letter
        have other : Char.ofNat b.toNat ≠ '%' := by
          intro same
          rw [same] at plain
          revert plain
          decide
        rw [List.flatMap_cons, shape]
        simp only [ascii, List.cons_append, List.nil_append, List.map_cons, key_text_plain other,
          plain, Bool.true_and]
        exact ih

/-- The traversal guard refuses NUL bytes and `..` between slashes or the ends of the key. -/
theorem traversal_unsafe_iff (key : Str) :
    isTraversalUnsafe key = true ↔ '\u0000' ∈ key ∨ "..".toList ∈ key.splitOn '/' := by
  have clear : '/' ∉ "..".toList := by decide
  have inside : contains key "/../".toList = true ↔
      ∃ front back, key = front ++ '/' :: ("..".toList ++ '/' :: back) := by
    unfold contains
    rw [Option.isSome_iff_ne_none, Ne, Lexical.find_none_iff, not_not]
    constructor
    · rintro ⟨front, back, rfl⟩
      exact ⟨front, back, by simp⟩
    · rintro ⟨front, back, rfl⟩
      exact ⟨front, back, by simp⟩
  have leading : startsWith key "../".toList = true ↔ ∃ back, key = "..".toList ++ '/' :: back := by
    unfold startsWith
    rw [List.isPrefixOf_iff_prefix]
    constructor
    · rintro ⟨back, rfl⟩
      exact ⟨back, by simp⟩
    · rintro ⟨back, rfl⟩
      exact ⟨back, by simp⟩
  have trailing : endsWith key "/..".toList = true ↔ ∃ front, key = front ++ '/' :: "..".toList := by
    unfold endsWith
    rw [List.isSuffixOf_iff_suffix]
    constructor
    · rintro ⟨front, rfl⟩
      exact ⟨front, by simp⟩
    · rintro ⟨front, rfl⟩
      exact ⟨front, by simp⟩
  rw [piece_iff clear]
  simp only [isTraversalUnsafe, Bool.or_eq_true, inside, leading, trailing, decide_eq_true_eq,
    List.contains_iff_mem]
  constructor
  · rintro ((((nul | whole) | first) | middle) | last)
    · exact .inl nul
    · exact .inr (.inl whole)
    · exact .inr (.inr (.inl first))
    · exact .inr (.inr (.inr (.inr middle)))
    · exact .inr (.inr (.inr (.inl last)))
  · rintro (nul | whole | first | last | middle)
    · exact .inl (.inl (.inl (.inl nul)))
    · exact .inl (.inl (.inl (.inr whole)))
    · exact .inl (.inl (.inr first))
    · exact .inr last
    · exact .inl (.inr middle)

theorem encode_key_cases (key : Str) :
    (255 < (utf8 (utf8PercentEncode key keyEncodeSet)).length ∧
      encodeKey key = .error (.KeyTooLong key)) ∨
    (¬ 255 < (utf8 (utf8PercentEncode key keyEncodeSet)).length ∧ isTraversalUnsafe key = true ∧
      encodeKey key = .error .InvalidKey) ∨
    (¬ 255 < (utf8 (utf8PercentEncode key keyEncodeSet)).length ∧ isTraversalUnsafe key = false ∧
      encodeKey key = .ok (utf8PercentEncode key keyEncodeSet)) := by
  rw [utf8_length]
  simp only [encodeKey, gt_iff_lt]
  by_cases long : 255 < utf8Len (utf8PercentEncode key keyEncodeSet)
  · exact .inl ⟨long, if_pos long⟩
  · rw [if_neg long]
    cases unsafe' : isTraversalUnsafe key with
    | true => exact .inr (.inl ⟨long, rfl, rfl⟩)
    | false => exact .inr (.inr ⟨long, rfl, rfl⟩)

/-- Keys and encoded names determine each other, and a key is refused only for its length
or for what the traversal guard finds in it. -/
theorem key_encoding_round_trips :
    (∀ key encoded, encodeKey key = .ok encoded →
      decodeKey encoded = .ok key ∧ (utf8 encoded).length ≤ 255 ∧ isKeyText encoded = true) ∧
    (∀ left right encoded, encodeKey left = .ok encoded → encodeKey right = .ok encoded →
      left = right) ∧
    (∀ key, encodeKey key = .error (.KeyTooLong key) ↔
      255 < (utf8 (utf8PercentEncode key keyEncodeSet)).length) ∧
    (∀ key, encodeKey key = .error .InvalidKey ↔
      ¬ 255 < (utf8 (utf8PercentEncode key keyEncodeSet)).length ∧ isTraversalUnsafe key = true) ∧
    (∀ key e, encodeKey key = .error e → e = .KeyTooLong key ∨ e = .InvalidKey) ∧
    ∀ key, isTraversalUnsafe key = true ↔ '\u0000' ∈ key ∨ "..".toList ∈ key.splitOn '/' := by
  refine ⟨?_, fun left right encoded => encode_key_injective, ?_, ?_, ?_, traversal_unsafe_iff⟩
  · intro key encoded admitted
    refine ⟨decode_encode_key admitted, ?_, ?_⟩
    · rw [utf8_length]
      exact (encode_key_ok admitted).2.1
    · rw [(encode_key_ok admitted).1]
      exact encoded_is_key_text (utf8 key)
  · intro key
    rcases encode_key_cases key with ⟨long, answer⟩ | ⟨short, _, answer⟩ | ⟨short, _, answer⟩
    · simp [answer, long]
    · simp [answer, short]
    · simp [answer, short]
  · intro key
    rcases encode_key_cases key with ⟨long, answer⟩ | ⟨short, found, answer⟩ | ⟨short, clean, answer⟩
    · simp [answer, long]
    · simp [answer, short, found]
    · simp [answer, clean]
  · intro key e refused
    rcases encode_key_cases key with ⟨_, answer⟩ | ⟨_, _, answer⟩ | ⟨_, _, answer⟩
    · rw [answer] at refused
      exact .inl (Except.error.inj refused).symm
    · rw [answer] at refused
      exact .inr (Except.error.inj refused).symm
    · rw [answer] at refused
      cases refused

/-! ### From names to keys -/

/-- The spelling of the writer: only letters and digits stand for themselves, escapes are in
upper case and stand for other bytes, and the name fits the limit. -/
def isInstalledForm (name : Str) : Bool :=
  isEncoded keyEncodeSet (utf8 name) && utf8Len name ≤ 255

/-- What the name stands for is no text, or not one that the guard lets through. -/
def isUnreadable (name : Str) : Bool :=
  match fromUtf8 (percentDecode (utf8 name)) with
  | none => true
  | some text => isTraversalUnsafe text

def readsBack (name : Str) : Bool := isUnreadable name || isInstalledForm name

theorem decode_key_ok {name key : Str} (accepted : decodeKey name = .ok key) :
    utf8 key = percentDecode (utf8 name) ∧ isUnreadable name = false ∧
      isTraversalUnsafe key = false := by
  unfold decodeKey percentDecodeStr at accepted
  unfold isUnreadable
  cases read : fromUtf8 (percentDecode (utf8 name)) with
  | none => simp [read] at accepted
  | some text =>
      simp only [read] at accepted ⊢
      split at accepted
      · cases accepted
      · next safe =>
          cases accepted
          exact ⟨utf8_fromUtf8 read, by simpa using safe, by simpa using safe⟩

theorem unreadable_refused {name : Str} (unreadable : isUnreadable name = true) :
    decodeKey name = .error .InvalidKey := by
  unfold isUnreadable at unreadable
  unfold decodeKey percentDecodeStr
  cases read : fromUtf8 (percentDecode (utf8 name)) with
  | none => rfl
  | some text =>
      rw [read] at unreadable
      exact if_pos unreadable

theorem readable_accepted {name : Str} (readable : isUnreadable name = false) :
    ∃ key, decodeKey name = .ok key := by
  unfold isUnreadable at readable
  unfold decodeKey percentDecodeStr
  cases read : fromUtf8 (percentDecode (utf8 name)) with
  | none => simp [read] at readable
  | some text =>
      simp only [read] at readable
      exact ⟨text, by simp [readable]⟩

/-- An accepted name encodes back exactly when it has the spelling of the writer. -/
theorem encode_back_iff {name key : Str} (accepted : decodeKey name = .ok key) :
    encodeKey key = .ok name ↔ isInstalledForm name = true := by
  obtain ⟨bytes, _, safe⟩ := decode_key_ok accepted
  have spelling : utf8PercentEncode key keyEncodeSet = name ↔
      isEncoded keyEncodeSet (utf8 name) = true := by
    rw [is_encoded_iff (by decide), ← bytes, ← utf8_ascii _ (encoded_ascii keyEncodeSet (utf8 key)),
      utf8_injective.eq_iff]
    rfl
  rw [isInstalledForm, Bool.and_eq_true, decide_eq_true_eq, ← spelling]
  constructor
  · intro admitted
    obtain ⟨same, short, _⟩ := encode_key_ok admitted
    exact ⟨same.symm, short⟩
  · rintro ⟨rfl, short⟩
    simp [encodeKey, not_lt.mpr short, safe]

theorem reads_back_iff (name : Str) :
    (∀ key, decodeKey name = .ok key → encodeKey key = .ok name) ↔ readsBack name = true := by
  rw [readsBack, Bool.or_eq_true]
  cases unreadable : isUnreadable name with
  | true => simp [unreadable_refused unreadable]
  | false =>
      obtain ⟨key, accepted⟩ := readable_accepted unreadable
      simp only [accepted, Except.ok.injEq, forall_eq', Bool.false_eq_true, false_or]
      exact encode_back_iff accepted

/-! ### The names in a directory -/

/-- Temporary names decode, to themselves: the dot and the letters stand for themselves. -/
theorem decode_temp {name : Str} (temp : isTempName name = true) : decodeKey name = .ok name := by
  obtain ⟨length, random, rfl, letters⟩ := temp_parts temp
  have plain : ∀ c ∈ '.' :: 't' :: 'm' :: 'p' :: random, c.toNat < 128 ∧ c ≠ '/' ∧ c ≠ '\u0000' ∧
      c ≠ '%' := by
    intro c member
    simp only [List.mem_cons] at member
    rcases member with rfl | rfl | rfl | rfl | inside
    · decide
    · decide
    · decide
    · decide
    · have clean := alphanumeric_char (letters c inside)
      refine ⟨clean.1, clean.2.1, clean.2.2.1, ?_⟩
      rintro rfl
      have letter := letters '%' inside
      revert letter
      decide
  have percent : 37 ∉ utf8 ('.' :: 't' :: 'm' :: 'p' :: random) := by
    intro member
    obtain ⟨c, inside, byte⟩ := List.mem_flatMap.mp member
    obtain ⟨small, _, _, other⟩ := plain c inside
    rw [encode_char_ascii small, List.mem_singleton] at byte
    have value : c.toNat = 37 := by
      have read := congrArg UInt8.toNat byte
      simp only [UInt8.toNat_ofNat', UInt8.reduceToNat] at read
      omega
    exact other (Char.toNat_inj.mp value)
  have safe : isTraversalUnsafe ('.' :: 't' :: 'm' :: 'p' :: random) = false := by
    rw [← Bool.not_eq_true, traversal_unsafe_iff, not_or]
    refine ⟨fun nul => (plain _ nul).2.2.1 rfl, ?_⟩
    rw [List.splitOn_eq_singleton fun slash => (plain _ slash).2.1 rfl, List.mem_singleton]
    simp
  unfold decodeKey percentDecodeStr
  rw [percent_decode_plain percent, fromUtf8_utf8]
  simp [safe]

theorem temp_not_installed {name : Str} (temp : isTempName name = true) :
    isInstalledForm name = false := by
  obtain ⟨_, random, rfl, _⟩ := temp_parts temp
  have dot : shouldPercentEncode keyEncodeSet 46 = true := by decide
  have bytes : utf8 ('.' :: 't' :: 'm' :: 'p' :: random) = 46 :: utf8 ('t' :: 'm' :: 'p' :: random) := rfl
  simp [isInstalledForm, isEncoded, bytes, encodedFrom, escaped, dot]

theorem temp_not_read_back {name : Str} (temp : isTempName name = true) : readsBack name = false := by
  rw [readsBack, temp_not_installed temp, Bool.or_false]
  exact (decode_key_ok (decode_temp temp)).2.1

/-- A scan collects the keys that the entries of the directory decode to. -/
theorem wp_scanKeys {storage : FsStorage} {s : FS} {bucket : Str} {dir : Path}
    (located : s.locateDir (storage.objectsDir bucket) = .ok dir) :
    wp faultFree (scanKeys storage bucket) (fun outcome after => after = s ∧ ∃ keys,
      outcome = .ok keys ∧
        ∀ key, key ∈ keys ↔ ∃ name, s.look (name :: dir) ≠ none ∧ decodeKey name = .ok key) s := by
  simp only [scanKeys, Prog.send_bind]
  apply wp_readDir located
  intro order _ entries
  refine ⟨rfl, _, rfl, ?_⟩
  intro key
  rw [List.filterMap_map, List.mem_filterMap]
  constructor
  · rintro ⟨name, listed, decoded⟩
    refine ⟨name, (entries name).mp listed, ?_⟩
    cases accepted : decodeKey name with
    | error e => simp [accepted, Except.toOption] at decoded
    | ok own => simpa [accepted, Except.toOption] using decoded
  · rintro ⟨name, present, accepted⟩
    refine ⟨name, (entries name).mpr present, ?_⟩
    simp [accepted, Except.toOption]

end Ferrobucket
