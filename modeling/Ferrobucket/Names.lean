import Ferrobucket.Layout
import Ferrobucket.Lib.Machine
/-! Which names the layout uses. Every name that a checked request leads to is one
path component, and the names of one directory never clash: a temporary file starts
with a dot, and neither an encoded key nor a sidecar nor a part does. -/
namespace Ferrobucket
open Text Posix

/-! ### Bucket names -/

theorem bucket_name_facts {name : Str} (valid : validateBucketName name = .ok ()) :
    3 ≤ utf8Len name ∧ utf8Len name ≤ 63 ∧ (∀ c ∈ name, isBucketChar c = true) ∧
      name.head? ≠ some '.' := by
  unfold validateBucketName at valid
  split at valid
  · cases valid
  · split at valid
    · cases valid
    · next length =>
        simp only [not_not] at length
        dsimp only at valid
        split at valid
        · cases valid
        · next grammar =>
            simp only [Bool.or_eq_true, not_or, Bool.not_eq_true', Bool.not_eq_false] at grammar
            obtain ⟨⟨⟨⟨chars, _⟩, dots⟩, _⟩, _⟩ := grammar
            refine ⟨length.1, length.2, List.all_eq_true.mp chars, ?_⟩
            intro leading
            cases name with
            | nil => cases leading
            | cons c rest =>
                simp only [List.head?_cons, Option.some.injEq] at leading
                subst leading
                simp [startsWith] at dots

theorem bucket_char {c : Char} (member : isBucketChar c = true) : c ≠ '/' ∧ c ≠ '\u0000' := by
  constructor
  · rintro rfl
    revert member
    decide
  · rintro rfl
    revert member
    decide

theorem bucket_is_name {name : Str} (valid : validateBucketName name = .ok ()) :
    isName name = true := by
  obtain ⟨short, _, chars, dot⟩ := bucket_name_facts valid
  apply is_name _ dot
  · intro slash
    exact (bucket_char (chars _ slash)).1 rfl
  · intro nul
    exact (bucket_char (chars _ nul)).2 rfl
  · rintro rfl
    simp [utf8Len] at short

theorem bucket_not_uploads {name : Str} (valid : validateBucketName name = .ok ()) :
    name ≠ uploadsName := by
  rintro rfl
  exact (bucket_name_facts valid).2.2.2 rfl

/-! ### Names of objects and their sidecars -/

/-- A file name that the write path gives to a body. -/
def IsObjectName (name : Str) : Prop := ∃ key, key ≠ [] ∧ encodeKey key = .ok name

theorem encoded_char {c : Char} (member : isEncodedChar c = true) :
    c.toNat < 128 ∧ c ≠ '/' ∧ c ≠ '\u0000' ∧ c ≠ '.' := by
  simp only [isEncodedChar, Bool.or_eq_true, decide_eq_true_eq] at member
  rcases member with rfl | letter
  · decide
  · exact alphanumeric_char letter

theorem object_name_parts {name : Str} (object : IsObjectName name) :
    name ≠ [] ∧ (∀ c ∈ name, isEncodedChar c = true) ∧ utf8Len name ≤ 255 := by
  obtain ⟨key, nonempty, admitted⟩ := object
  refine ⟨?_, encoded_chars admitted, ?_⟩
  · exact mt (encoded_nil admitted).mp nonempty
  · exact (encode_key_ok admitted).2.1

theorem object_head {name : Str} (object : IsObjectName name) : name.head? ≠ some '.' := by
  intro leading
  obtain ⟨_, chars, _⟩ := object_name_parts object
  have member := chars '.' (List.mem_of_mem_head? leading)
  exact (encoded_char member).2.2.2 rfl

theorem object_is_name {name : Str} (object : IsObjectName name) : isName name = true := by
  obtain ⟨nonempty, chars, _⟩ := object_name_parts object
  apply is_name nonempty (object_head object)
  · intro slash
    exact (encoded_char (chars _ slash)).2.1 rfl
  · intro nul
    exact (encoded_char (chars _ nul)).2.2.1 rfl

theorem sidecar_head {name : Str} (object : IsObjectName name) :
    (FsStorage.sidecarName name).head? ≠ some '.' := by
  cases name with
  | nil => exact absurd rfl (object_name_parts object).1
  | cons c rest =>
      have same : (FsStorage.sidecarName (c :: rest)).head? = (c :: rest).head? := rfl
      rw [same]
      exact object_head object

theorem encoded_sidecar_is_name {key encoded : Str} (admitted : encodeKey key = .ok encoded) :
    isName (FsStorage.sidecarName encoded) = true := by
  have letters : ∀ c ∈ ".json".toList, c ≠ '/' ∧ c ≠ '\u0000' := by simp
  have chars : ∀ c ∈ FsStorage.sidecarName encoded, c ≠ '/' ∧ c ≠ '\u0000' := by
    intro c member
    rcases List.mem_append.mp member with own | extension
    · have clean := encoded_char (encoded_chars admitted c own)
      exact ⟨clean.2.1, clean.2.2.1⟩
    · exact letters c extension
  have long : 5 ≤ (FsStorage.sidecarName encoded).length := by
    simp [FsStorage.sidecarName]
  simp only [isName, Bool.and_eq_true, decide_eq_true_eq, Bool.not_eq_true']
  refine ⟨⟨⟨⟨?_, ?_⟩, ?_⟩, ?_⟩, ?_⟩
  · intro empty
    simp [empty] at long
  · intro dot
    simp [dot] at long
  · intro dots
    simp [dots] at long
  · simpa using fun slash => (chars '/' slash).1 rfl
  · simpa using fun nul => (chars '\u0000' nul).2 rfl

theorem sidecar_length {name : Str} :
    utf8Len (FsStorage.sidecarName name) = utf8Len name + 5 := by
  rw [FsStorage.sidecarName, utf8Len_append]
  rfl

theorem sidecar_injective : Function.Injective FsStorage.sidecarName := by
  intro left right same
  exact List.append_cancel_right same

theorem temp_head {name : Str} (temp : isTempName name = true) : name.head? = some '.' := by
  obtain ⟨_, random, rfl, _⟩ := temp_parts temp
  rfl

/-! ### Staging names -/

theorem uuid_chars {id : Str} (uuid : isUuid id = true) (c : Char) (member : c ∈ id) :
    c.toNat < 128 ∧ c ≠ '/' ∧ c ≠ '\u0000' ∧ c ≠ '.' := by
  simp only [isUuid, Bool.and_eq_true, decide_eq_true_eq, List.all_eq_true, Bool.or_eq_true] at uuid
  rcases uuid.2 c member with (digit | letter) | rfl
  · have wider : isAsciiAlphanumeric c = true := by simp [isAsciiAlphanumeric, digit]
    exact alphanumeric_char wider
  · have wider : isAsciiAlphanumeric c = true := by
      have bound : c ≤ 'z' := le_trans letter.2 (by decide)
      simp [isAsciiAlphanumeric, letter.1, bound]
    exact alphanumeric_char wider
  · decide

theorem uuid_length {id : Str} (uuid : isUuid id = true) : utf8Len id = 36 := by
  have length : id.length = 36 := by
    simp only [isUuid, Bool.and_eq_true, decide_eq_true_eq] at uuid
    exact uuid.1
  rw [← length]
  exact utf8Len_ascii fun c member => (uuid_chars uuid c member).1

theorem uuid_is_name {id : Str} (uuid : isUuid id = true) : isName id = true := by
  apply is_name
  · rintro rfl
    cases uuid
  · intro leading
    exact (uuid_chars uuid '.' (List.mem_of_mem_head? leading)).2.2.2 rfl
  · intro slash
    exact (uuid_chars uuid '/' slash).2.1 rfl
  · intro nul
    exact (uuid_chars uuid '\u0000' nul).2.2.1 rfl

theorem part_name_cases (partNumber : Int) :
    (∃ n : Nat, partNumber = n ∧ FsStorage.partName partNumber = Nat.toDigits 10 n) ∨
    (∃ n : Nat, partNumber = Int.negSucc n ∧
      FsStorage.partName partNumber = '-' :: Nat.toDigits 10 (n + 1)) := by
  cases partNumber with
  | ofNat n => exact .inl ⟨n, rfl, Nat.toList_repr⟩
  | negSucc n =>
      refine .inr ⟨n, rfl, ?_⟩
      have whole : FsStorage.partName (Int.negSucc n) = ("-" ++ Nat.repr (n + 1)).toList := rfl
      rw [whole, String.toList_append, Nat.toList_repr]
      rfl

theorem part_chars (partNumber : Int) (c : Char) (member : c ∈ FsStorage.partName partNumber) :
    c.isDigit = true ∨ c = '-' := by
  rcases part_name_cases partNumber with ⟨n, _, digits⟩ | ⟨n, _, digits⟩
  · rw [digits] at member
    exact .inl (Nat.isDigit_of_mem_toDigits (by decide) (by decide) member)
  · rw [digits] at member
    rcases List.mem_cons.mp member with sign | digit
    · exact .inr sign
    · exact .inl (Nat.isDigit_of_mem_toDigits (by decide) (by decide) digit)

theorem part_char {partNumber : Int} {c : Char} (member : c ∈ FsStorage.partName partNumber) :
    c ≠ '/' ∧ c ≠ '\u0000' ∧ c ≠ '.' ∧ c ≠ '_' := by
  have clear : ∀ d : Char, d ∈ ['/', '\u0000', '.', '_'] → d.isDigit = false ∧ d ≠ '-' := by simp
  have apart : ∀ d : Char, d ∈ ['/', '\u0000', '.', '_'] → c ≠ d := by
    rintro d listed rfl
    rcases part_chars partNumber c member with digit | sign
    · rw [(clear c listed).1] at digit
      cases digit
    · exact (clear c listed).2 sign
  exact ⟨apart _ (by decide), apart _ (by decide), apart _ (by decide), apart _ (by decide)⟩

theorem part_nonempty (partNumber : Int) : FsStorage.partName partNumber ≠ [] := by
  rcases part_name_cases partNumber with ⟨n, _, digits⟩ | ⟨n, _, digits⟩
  · rw [digits]
    exact Nat.toDigits_ne_nil
  · rw [digits]
    exact List.cons_ne_nil _ _

theorem part_head (partNumber : Int) : (FsStorage.partName partNumber).head? ≠ some '.' := by
  intro leading
  exact (part_char (List.mem_of_mem_head? leading)).2.2.1 rfl

theorem part_is_name (partNumber : Int) : isName (FsStorage.partName partNumber) = true := by
  apply is_name (part_nonempty partNumber) (part_head partNumber)
  · intro slash
    exact (part_char slash).1 rfl
  · intro nul
    exact (part_char nul).2.1 rfl

theorem part_not_meta (partNumber : Int) : FsStorage.partName partNumber ≠ multipartJsonName := by
  intro same
  have member : '_' ∈ FsStorage.partName partNumber := by
    rw [same]
    decide
  exact (part_char member).2.2.2 rfl

/-- Different numbers are different files: the text of a number reads back. -/
theorem part_name_injective : Function.Injective FsStorage.partName := by
  intro left right same
  have back : ∀ m n : Nat, Nat.toDigits 10 m = Nat.toDigits 10 n → m = n := by
    intro m n digits
    have read := congrArg (Nat.ofDigitChars 10 · 0) digits
    simpa using read
  have unsigned : ∀ m n : Nat, Nat.toDigits 10 m ≠ '-' :: Nat.toDigits 10 n := by
    intro m n digits
    have sign : '-' ∈ Nat.toDigits 10 m := by simp [digits]
    have digit := Nat.isDigit_of_mem_toDigits (by decide) (by decide) sign
    revert digit
    decide
  rcases part_name_cases left with ⟨m, rfl, first⟩ | ⟨m, rfl, first⟩ <;>
    rcases part_name_cases right with ⟨n, rfl, second⟩ | ⟨n, rfl, second⟩
  · rw [first, second] at same
    rw [back m n same]
  · rw [first, second] at same
    exact absurd same (unsigned _ _)
  · rw [first, second] at same
    exact absurd same.symm (unsigned _ _)
  · rw [first, second] at same
    have equal := back _ _ (List.cons.inj same).2
    have values : m = n := by omega
    rw [values]

end Ferrobucket
