import Ferrobucket.Binding
import Ferrobucket.Lib.Header
import Ferrobucket.Lib.Segments
/-! The download handler of the web interface, `GET /ui/download/{bucket}/{*key}`, from
download.rs. The last segment of the key becomes a part of a header value as it is, and the
value is unwrapped. -/
namespace Ferrobucket
open Text Posix Program Header

/-! ### The handler -/

/-- `HeaderValue` of the http crate: a text is taken as its bytes unless one of them is a control
byte other than the tab. -/
structure HeaderValues where
  parse : Str → Option Bytes
  parse_eq : ∀ text, parse text = if (utf8 text).all isValueByte then some (utf8 text) else none

/-- What ends a handler without a response. -/
inductive Panicked where
  | unwrapped

inductive Download where
  | found (contentType contentDisposition : Bytes) (body : ObjectStream)
  | notFound

def unwrap {Value : Type} : Option Value → Prog Call Reply Panicked Value
  | some value => pure value
  | none => throw .unwrapped

def octetStream : Str := "application/octet-stream".toList

/-- What the value begins with, up to the opening quote. -/
def attachmentStart : Str := "attachment; filename=\"".toList

def fileName (key : Str) : Str := (key.splitOn '/').getLast?.getD key

def disposition (key : Str) : Str := attachmentStart ++ fileName key ++ ['"']

section Handler
variable (crates : Crates) (storage : FsStorage) (http : HeaderValues)

/-- The type on record, or a type for any bytes. -/
def contentTypeValue (contentType : Str) : Prog Call Reply Panicked Bytes :=
  match http.parse contentType with
  | some value => pure value
  | none => unwrap (http.parse octetStream)

def downloadResponse (key : Str) :
    Except StorageError (ObjectMeta × ObjectStream) → Prog Call Reply Panicked Download
  | .ok (objectMeta, stream) => do
      let contentType ← contentTypeValue http objectMeta.contentType
      let contentDisposition ← unwrap (http.parse (disposition key))
      pure (.found contentType contentDisposition stream)
  | .error _ => pure .notFound

def downloadHandler (bucket key : Str) : Prog Call Reply Panicked Download := do
  let outcome ← (getObject crates storage bucket key none).attempt
  downloadResponse http key outcome

/-! ### The name -/

/-- The file name of an attachment. -/
def attachmentName (value : Bytes) : Option Bytes :=
  if (utf8 attachmentStart).isPrefixOf value then
    (quotedString (value.drop (utf8 attachmentStart).length)).map Prod.fst
  else none

/-- The download is answered with the object, under the name of its last segment. -/
def DownloadNamed (bucket key : Str) (s : FS) : Prop :=
  wp faultFree (downloadHandler crates storage http bucket key) (fun outcome _ =>
    ∃ contentType contentDisposition body,
      outcome = .ok (.found contentType contentDisposition body) ∧
      attachmentName contentDisposition = some (utf8 (Segments.rest '/' key))) s

/-- A byte that may stand in a header value and means itself between quotes. -/
def NameByte (b : UInt8) : Prop := isValueByte b = true ∧ Literal b

variable {crates storage http}

theorem file_name (key : Str) : fileName key = Segments.rest '/' key := by
  rw [fileName, List.getLast?_eq_getLast_of_ne_nil (List.splitOn_ne_nil '/' key)]
  rfl

theorem disposition_bytes (key : Str) : utf8 (disposition key) =
    utf8 attachmentStart ++ (utf8 (Segments.rest '/' key) ++ [quote]) := by
  have closing : utf8 ['"'] = [quote] := by decide
  simp only [disposition, file_name, utf8, List.flatMap_append, List.append_assoc] at closing ⊢
  rw [closing]

/-- The pasted text around the name is legal, so the name decides. -/
theorem disposition_parses (key : Str) : http.parse (disposition key) =
    if (utf8 (Segments.rest '/' key)).all isValueByte then some (utf8 (disposition key)) else none := by
  have front : (utf8 attachmentStart).all isValueByte = true := by decide
  have back : [quote].all isValueByte = true := by decide
  rw [http.parse_eq, disposition_bytes, List.all_append, List.all_append, front, back, Bool.true_and,
    Bool.and_true]

theorem attachment_name (key : Str) : attachmentName (utf8 (disposition key)) =
    (quotedString (utf8 (Segments.rest '/' key) ++ [quote])).map Prod.fst := by
  have begins : (utf8 attachmentStart).isPrefixOf (utf8 (disposition key)) = true := by
    rw [disposition_bytes, List.isPrefixOf_iff_prefix]
    exact List.prefix_append _ _
  rw [attachmentName, if_pos begins, disposition_bytes, List.drop_left]

theorem named_iff (key : Str) :
    attachmentName (utf8 (disposition key)) = some (utf8 (Segments.rest '/' key)) ↔
      ∀ b ∈ utf8 (Segments.rest '/' key), Literal b := by
  rw [attachment_name, ← quoted_iff, Option.map_eq_some_iff]
  constructor
  · rintro ⟨⟨name, rest⟩, read, rfl⟩
    exact ⟨rest, read⟩
  · rintro ⟨rest, read⟩
    exact ⟨_, read, rfl⟩

/-- A type that is no header value is replaced by one that is. -/
theorem content_type_value (contentType : Str) : ∃ value, contentTypeValue http contentType = pure value := by
  have fallback : (utf8 octetStream).all isValueByte = true := by decide
  unfold contentTypeValue
  cases http.parse contentType with
  | some value => exact ⟨value, rfl⟩
  | none =>
      rw [http.parse_eq, if_pos fallback]
      exact ⟨_, rfl⟩

/-- Once the object is found, the value for its name decides. -/
theorem found_response (http : HeaderValues) (key : Str) (objectMeta : ObjectMeta) (stream : ObjectStream) :
    ∃ contentType, downloadResponse http key (.ok (objectMeta, stream)) =
      match http.parse (disposition key) with
      | some value => pure (.found contentType value stream)
      | none => throw .unwrapped := by
  obtain ⟨contentType, typed⟩ := content_type_value objectMeta.contentType
  refine ⟨contentType, ?_⟩
  rw [downloadResponse, typed]
  cases http.parse (disposition key) <;> rfl

theorem response_named_iff (key : Str) (objectMeta : ObjectMeta) (stream : ObjectStream) (s : FS) :
    wp faultFree (downloadResponse http key (.ok (objectMeta, stream))) (fun outcome _ =>
      ∃ contentType contentDisposition body,
        outcome = .ok (.found contentType contentDisposition body) ∧
        attachmentName contentDisposition = some (utf8 (Segments.rest '/' key))) s ↔
      ∀ b ∈ utf8 (Segments.rest '/' key), NameByte b := by
  obtain ⟨contentType, answered⟩ := found_response http key objectMeta stream
  have names := named_iff key
  rw [answered, disposition_parses]
  by_cases legal : (utf8 (Segments.rest '/' key)).all isValueByte = true
  · rw [if_pos legal]
    constructor
    · rintro ⟨_, _, _, same, named⟩
      cases same
      exact fun b member => ⟨List.all_eq_true.mp legal b member, names.mp named b member⟩
    · intro bytes
      exact ⟨contentType, _, stream, rfl, names.mpr fun b member => (bytes b member).2⟩
  · rw [if_neg legal]
    constructor
    · rintro ⟨_, _, _, same, _⟩
      cases same
    · intro bytes
      exact absurd (List.all_eq_true.mpr fun b member => (bytes b member).1) legal

/-- Every download of a stored object is answered and named after the key's last segment exactly
if the bytes of that segment may stand in a header value and mean themselves between quotes. -/
theorem download_named_iff (http : HeaderValues) {bucket key : Str} {s : FS}
    (stored : wp faultFree (getObject crates storage bucket key none)
      (fun outcome _ => outcome.isOk = true) s) :
    DownloadNamed crates storage http bucket key s ↔
      ∀ b ∈ utf8 (Segments.rest '/' key), NameByte b := by
  unfold DownloadNamed downloadHandler
  rw [wp_bind, wp_attempt]
  constructor
  · intro named
    obtain ⟨outcome, after, run, isOk⟩ := wp_returns stored
    have answered := wp_runs named run
    cases outcome with
    | error e => cases isOk
    | ok found => exact (response_named_iff key found.1 found.2 after).mp answered
  · intro bytes
    apply wp_mono stored
    intro outcome after isOk
    cases outcome with
    | error e => cases isOk
    | ok found => exact (response_named_iff key found.1 found.2 after).mpr bytes

/-! ### Objects that are stored -/

/-- An object that a client can fetch is one that the handler finds. -/
theorem get_fetched {bucket key : Str} {s : FS} {store : Store} (holds : Holds crates storage s store)
    (fetched : (store.getObject storage s.nameMax bucket key).isOk = true) :
    wp faultFree (getObject crates storage bucket key none) (fun outcome _ => outcome.isOk = true) s := by
  have whole := (fetch_refines holds bucket key (fun outcome _ => outcome.isOk = true)).mpr fetched
  unfold fetchObject at whole
  rw [wp_bind] at whole
  apply wp_mono whole
  intro outcome after answered
  cases outcome with
  | error e => exact answered
  | ok found => rfl

end Handler

namespace Reference

def headers : HeaderValues where
  parse text := if (utf8 text).all isValueByte then some (utf8 text) else none
  parse_eq _ := rfl

/-- Whatever the key, once its put has succeeded the object is there. -/
theorem put_fetched {key encoded : Str} (nonempty : key ≠ []) (admitted : encodeKey key = .ok encoded) :
    ∃ objectMeta t, Runs faultFree (putObject Crates.reference storage bucket key [] none) bucketDisk
        (.ok objectMeta) t ∧
      wp faultFree (getObject Crates.reference storage bucket key none)
        (fun outcome _ => outcome.isOk = true) t := by
  have holds := bucketDisk_holds
  have valid : validateBucketName bucket = .ok () := by decide
  have present : (Store.empty.setBucket bucket (.fresh info)).buckets.lookup bucket = some (.fresh info) :=
    Finmap.lookup_insert _
  have put := wp_limited (put_refines holds bucket key [] none)
  obtain ⟨outcome, t, run, ⟨time, rfl, still⟩, limit⟩ := wp_returns put
  obtain ⟨objectMeta, record, made⟩ := Store.put_made Crates.reference bucketDisk.nameMax _ none time valid
    present admitted (rfl : failure [] = none) nonempty rfl rfl
  rw [made] at run still
  have complete := complete_insert (delivered []) objectMeta (fresh_complete none info) rfl admitted rfl
    (by rw [record])
  refine ⟨objectMeta, t, run, get_fetched still ?_⟩
  rw [limit]
  exact (fetched_iff complete valid (Finmap.lookup_insert _) key).mpr
    ((stores_insert _ _ admitted key).mpr (.inl rfl))

end Reference

theorem download_named_iff_hello : ∃ s,
    DownloadNamed Crates.reference Reference.storage Reference.headers Reference.bucket "a/b.txt".toList s := by
  have admitted : encodeKey "a/b.txt".toList = .ok "a%2Fb%2Etxt".toList := by decide
  obtain ⟨_, s, _, stored⟩ := Reference.put_fetched (by decide) admitted
  have plain : ∀ b ∈ utf8 (Segments.rest '/' "a/b.txt".toList), NameByte b := by
    have all : ((utf8 (Segments.rest '/' "a/b.txt".toList)).all fun b =>
        isValueByte b && b ≠ quote && b ≠ backslash) = true := by decide
    intro b member
    have one := List.all_eq_true.mp all b member
    simp only [Bool.and_eq_true, decide_eq_true_eq] at one
    exact ⟨one.1.1, one.1.2, one.2⟩
  exact ⟨s, (download_named_iff Reference.headers stored).mpr plain⟩

/-- A line break in the name is stored, and no download of the object is answered. -/
theorem download_line_break_fails : ∃ objectMeta s,
    Runs faultFree (putObject Crates.reference Reference.storage Reference.bucket "a\nb".toList [] none)
      Reference.bucketDisk (.ok objectMeta) s ∧
    wp faultFree (downloadHandler Crates.reference Reference.storage Reference.headers Reference.bucket
      "a\nb".toList) (fun outcome _ => outcome = .error .unwrapped) s ∧
    ¬ DownloadNamed Crates.reference Reference.storage Reference.headers Reference.bucket "a\nb".toList s := by
  have admitted : encodeKey "a\nb".toList = .ok "a%0Ab".toList := by decide
  obtain ⟨objectMeta, s, put, stored⟩ := Reference.put_fetched (by decide) admitted
  have panics : wp faultFree (downloadHandler Crates.reference Reference.storage Reference.headers
      Reference.bucket "a\nb".toList) (fun outcome _ => outcome = .error .unwrapped) s := by
    unfold downloadHandler
    rw [wp_bind, wp_attempt]
    apply wp_mono stored
    intro outcome after isOk
    cases outcome with
    | error e => cases isOk
    | ok found =>
        obtain ⟨contentType, answered⟩ :=
          found_response Reference.headers "a\nb".toList found.1 found.2
        have refused : Reference.headers.parse (disposition "a\nb".toList) = none := by decide
        change wp faultFree (downloadResponse Reference.headers "a\nb".toList (.ok (found.1, found.2))) _ after
        rw [answered, refused]
        rfl
  refine ⟨objectMeta, s, put, panics, ?_⟩
  intro named
  obtain ⟨outcome, after, run, _⟩ := wp_returns panics
  obtain ⟨_, _, _, same, _⟩ := wp_runs named run
  rw [wp_runs panics run] at same
  cases same

end Ferrobucket
