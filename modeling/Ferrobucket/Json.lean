import Ferrobucket.Names
/-! The records as `serde_json` writes them. Every writer below can be undone with any
text behind it, so each record has a codec. -/
namespace Ferrobucket
open Text Posix

namespace Json

/-- The characters that a JSON string does not hold as they are. -/
def escapes : List (Char × Str) :=
  [('"', ['\\', '"']), ('\\', ['\\', '\\']), ('\n', ['\\', 'n']), ('\r', ['\\', 'r']),
    ('\t', ['\\', 't']), (Char.ofNat 8, ['\\', 'b']), (Char.ofNat 12, ['\\', 'f'])] ++
  ((List.range 32).filter (· ∉ [8, 9, 10, 12, 13])).map fun n =>
    (Char.ofNat n, ['\\', 'u', '0', '0', hexLower (n / 16), hexLower (n % 16)])

def escape (c : Char) : Str := (escapes.lookup c).getD [c]

def quoted (text : Str) : Str := '"' :: text.flatMap escape ++ ['"']

theorem escape_cases (c : Char) :
    (c, escape c) ∈ escapes ∨ (escapes.lookup c = none ∧ escape c = [c]) := by
  unfold escape
  cases found : escapes.lookup c with
  | none => exact .inr ⟨rfl, rfl⟩
  | some code =>
      obtain ⟨before, after, whole, _⟩ := List.lookup_eq_some_iff.mp found
      exact .inl (by simp [whole])

theorem escape_head {c d : Char} {code : Str} (special : (c, code) ∈ escapes)
    (plain : escapes.lookup d = none) (r s : Str) : code ++ r ≠ d :: s := by
  have heads : ∀ row ∈ escapes, row.2.head? = some '\\' := by decide
  have marked : escapes.lookup '\\' ≠ none := by decide
  intro same
  have head : (code ++ r).head? = some d := by rw [same, List.head?_cons]
  rw [List.head?_append, heads _ special] at head
  obtain rfl := Option.some.inj head
  exact marked plain

/-- No escape is the beginning of another. -/
theorem escape_cancel {c d : Char} {r s : Str} (same : escape c ++ r = escape d ++ s) :
    c = d ∧ r = s := by
  have apart : ∀ first ∈ escapes, ∀ second ∈ escapes, first.2 <+: second.2 → first = second := by
    decide +kernel
  rcases escape_cases c with left | ⟨plain, alone⟩ <;>
    rcases escape_cases d with right | ⟨plain', alone'⟩
  · have equal : (c, escape c) = (d, escape d) := by
      have first : escape c <+: escape d ++ s := ⟨r, same⟩
      rcases List.prefix_or_prefix_of_prefix first (List.prefix_append _ s) with inside | inside
      · exact apart _ left _ right inside
      · exact (apart _ right _ left inside).symm
    obtain ⟨rfl, _⟩ := Prod.mk.inj equal
    exact ⟨rfl, List.append_cancel_left same⟩
  · rw [alone'] at same
    exact absurd same (escape_head left plain' r s)
  · rw [alone] at same
    exact absurd same.symm (escape_head right plain s r)
  · rw [alone, alone'] at same
    exact ⟨(List.cons.inj same).1, (List.cons.inj same).2⟩

theorem escape_not_quote (c : Char) (r s : Str) : escape c ++ r ≠ '"' :: s := by
  have heads : ∀ row ∈ escapes, row.2.head? = some '\\' := by decide
  rcases escape_cases c with special | ⟨plain, alone⟩
  · intro same
    have head : (escape c ++ r).head? = some '"' := by rw [same, List.head?_cons]
    rw [List.head?_append, heads _ special] at head
    cases head
  · rw [alone]
    intro same
    obtain rfl := (List.cons.inj same).1
    revert plain
    decide

theorem quoted_cancel {left right r s : Str} (same : quoted left ++ r = quoted right ++ s) :
    left = right ∧ r = s := by
  simp only [quoted, List.cons_append, List.append_assoc, List.cons.injEq, true_and,
    List.nil_append] at same
  induction left generalizing right with
  | nil =>
      cases right with
      | nil => exact ⟨rfl, (List.cons.inj same).2⟩
      | cons d more =>
          rw [List.flatMap_cons, List.append_assoc] at same
          exact absurd same.symm (escape_not_quote d _ _)
  | cons c rest ih =>
      rw [List.flatMap_cons, List.append_assoc] at same
      cases right with
      | nil => exact absurd same (escape_not_quote c _ _)
      | cons d more =>
          rw [List.flatMap_cons, List.append_assoc] at same
          obtain ⟨rfl, later⟩ := escape_cancel same
          obtain ⟨rfl, behind⟩ := ih later
          exact ⟨rfl, behind⟩

/-- Texts up to their first comma. -/
theorem comma_cancel {left right r s : Str} (clear : ',' ∉ left) (clear' : ',' ∉ right)
    (same : left ++ ',' :: r = right ++ ',' :: s) : left = right ∧ r = s := by
  induction left generalizing right with
  | nil =>
      cases right with
      | nil => exact ⟨rfl, (List.cons.inj same).2⟩
      | cons d more => exact absurd (List.cons.inj same).1 fun equal => clear' (List.mem_cons.mpr (.inl equal))
  | cons c rest ih =>
      cases right with
      | nil => exact absurd (List.cons.inj same).1 fun equal => clear (List.mem_cons.mpr (.inl equal.symm))
      | cons d more =>
          obtain ⟨rfl, later⟩ := List.cons.inj same
          obtain ⟨rfl, behind⟩ := ih (fun inside => clear (List.mem_cons_of_mem c inside))
            (fun inside => clear' (List.mem_cons_of_mem c inside)) later
          exact ⟨rfl, behind⟩

def number (n : Nat) : Str := FsStorage.partName n

theorem number_char {n : Nat} {c : Char} (plain : c.isDigit = false) (unsigned : c ≠ '-') :
    c ∉ number n := by
  intro member
  rcases part_chars n c member with digit | sign
  · rw [plain] at digit
    cases digit
  · exact unsigned sign

theorem number_injective {m n : Nat} (same : number m = number n) : m = n :=
  Int.ofNat.inj (part_name_injective same)

/-- A moment in RFC 3339 for the epoch itself, and the seconds since for any other. -/
def moment (time : Nat) : Str :=
  if time = 0 then "1970-01-01T00:00:00Z".toList else number time

theorem moment_injective {left right : Nat} (same : moment left = moment right) : left = right := by
  have apart : ∀ n, number n ≠ "1970-01-01T00:00:00Z".toList := by
    intro n equal
    have missing : 'T' ∉ number n := number_char (by decide) (by decide)
    rw [equal] at missing
    exact missing (by decide)
  unfold moment at same
  split_ifs at same with first second second
  · rw [first, second]
  · exact absurd same.symm (apart right)
  · exact absurd same (apart left)
  · exact number_injective same

def optional : Option Str → Str
  | none => "null".toList
  | some text => quoted text

theorem optional_injective {left right : Option Str} {r s : Str}
    (same : optional left ++ r = optional right ++ s) : left = right ∧ r = s := by
  cases left with
  | none =>
      cases right with
      | none => exact ⟨rfl, List.append_cancel_left same⟩
      | some text => exact absurd (List.cons.inj same).1 (by decide)
  | some text =>
      cases right with
      | none => exact absurd (List.cons.inj same).1 (by decide)
      | some other =>
          obtain ⟨rfl, rest⟩ := quoted_cancel same
          exact ⟨rfl, rest⟩

def objectMeta (value : ObjectMeta) : Str :=
  "\x7b\"key\":".toList ++ (quoted value.key ++ (",\"size\":".toList ++ (number value.size ++ ',' ::
    ("\"content_type\":".toList ++ (quoted value.contentType ++ (",\"etag\":".toList ++
    (quoted value.etag ++ (",\"last_modified\":".toList ++ (quoted (moment value.lastModified) ++
    "\x7d".toList)))))))))

theorem objectMeta_injective : Function.Injective objectMeta := by
  rintro ⟨leftKey, leftSize, leftType, leftTag, leftTime⟩ ⟨key, size, contentType, etag, time⟩ same
  have clear : ∀ n, ',' ∉ number n := fun n => number_char (by decide) (by decide)
  obtain ⟨rfl, second⟩ := quoted_cancel (List.append_cancel_left same)
  obtain ⟨sizes, third⟩ := comma_cancel (clear _) (clear _) (List.append_cancel_left second)
  obtain ⟨rfl, fourth⟩ := quoted_cancel (List.append_cancel_left third)
  obtain ⟨rfl, fifth⟩ := quoted_cancel (List.append_cancel_left fourth)
  obtain ⟨times, _⟩ := quoted_cancel (List.append_cancel_left fifth)
  obtain rfl := number_injective sizes
  obtain rfl := moment_injective times
  rfl

def bucketInfo (value : BucketInfo) : Str :=
  "\x7b\"name\":".toList ++ (quoted value.name ++ (",\"created_at\":".toList ++
    (quoted (moment value.createdAt) ++ "\x7d".toList)))

theorem bucketInfo_injective : Function.Injective bucketInfo := by
  rintro ⟨leftName, leftTime⟩ ⟨name, time⟩ same
  obtain ⟨rfl, second⟩ := quoted_cancel (List.append_cancel_left same)
  obtain ⟨times, _⟩ := quoted_cancel (List.append_cancel_left second)
  obtain rfl := moment_injective times
  rfl

def multipartMeta (value : MultipartMeta) : Str :=
  "\x7b\"bucket\":".toList ++ (quoted value.bucket ++ (",\"key\":".toList ++ (quoted value.key ++
    (",\"content_type\":".toList ++ (optional value.contentType ++ "\x7d".toList)))))

theorem multipartMeta_injective : Function.Injective multipartMeta := by
  rintro ⟨leftBucket, leftKey, leftType⟩ ⟨bucket, key, contentType⟩ same
  obtain ⟨rfl, second⟩ := quoted_cancel (List.append_cancel_left same)
  obtain ⟨rfl, third⟩ := quoted_cancel (List.append_cancel_left second)
  obtain ⟨rfl, _⟩ := optional_injective (List.append_cancel_left third)
  rfl

/-- A reader for a writer that can be undone; every other text is refused. -/
noncomputable def codec {Value : Type} (write : Value → Str) (injective : Function.Injective write) :
    Codec Value where
  encode value := utf8 (write value)
  decode bytes :=
    open Classical in
    if read : ∃ value, utf8 (write value) = bytes then .ok read.choose
    else .error "expected value at line 1 column 1".toList
  decode_encode value := by
    have read : ∃ other, utf8 (write other) = utf8 (write value) := ⟨value, rfl⟩
    rw [dif_pos read]
    exact congrArg Except.ok (injective (utf8_injective read.choose_spec))

end Json

end Ferrobucket
