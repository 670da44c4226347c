import Ferrobucket.Durability
import Ferrobucket.Ranges
/-! What a reader sees beside writers. The record is read before the body is opened, and
each of the two is read whole; nothing keeps them from being of different puts, so a record
and a body agree as far as the same put was the last on both. -/
namespace Ferrobucket
open Text Posix Program

/-! ### Ranges -/

/-- The part of a body that a range shows has the length that was resolved. -/
theorem range_length {range : ByteRange} {resolved : ResolvedRange} {content window : Bytes}
    (small : content.length < 2 ^ 64)
    (found : range.resolve (UInt64.ofNat content.length) = some resolved)
    (shown : rangeWindow (some range) content.length content = some window) :
    window.length = resolved.length.toNat := by
  have within := resolve_within found
  rw [UInt64.toNat_ofNat_of_lt' small] at within
  simp only [rangeWindow, found, Option.map_some, Option.some.injEq] at shown
  subst shown
  simp only [List.length_take, List.length_drop]
  omega

/-! ### Records and bodies -/

/-- A record describes a body. -/
structure Describes (crates : Crates) (objectMeta : ObjectMeta) (content : Bytes) : Prop where
  size : objectMeta.size = content.length
  etag : objectMeta.etag = hexMd5 crates content

/-- The key has no version, or one whose record describes its body. -/
def Versioned (crates : Crates) (storage : FsStorage) (s : FS) (bucket key : Str) : Prop :=
  ∀ encoded objectMeta content, encodeKey key = .ok encoded →
    s.look (sidecarPlace storage bucket encoded) = some (.file (crates.objectMeta.encode objectMeta)) →
    s.look (bodyPlace storage bucket encoded) = some (.file content) → Describes crates objectMeta content

/-- A record and the bytes that were shown for a range are of one version: without a range
they are described by the record, and with one they are as many as it resolves to. -/
structure OneVersion (crates : Crates) (range : Option ByteRange) (objectMeta : ObjectMeta)
    (content window : Bytes) : Prop where
  describes : Describes crates objectMeta content
  full : range = none → Describes crates objectMeta window
  part : ∀ byteRange resolved, range = some byteRange → content.length < 2 ^ 64 →
    byteRange.resolve (UInt64.ofNat objectMeta.size) = some resolved →
    window.length = resolved.length.toNat

theorem one_version {crates : Crates} {range : Option ByteRange} {objectMeta : ObjectMeta}
    {content window : Bytes} (describes : Describes crates objectMeta content)
    (shown : rangeWindow range objectMeta.size content = some window) :
    OneVersion crates range objectMeta content window := by
  refine ⟨describes, ?_, ?_⟩
  · rintro rfl
    cases shown
    exact describes
  · rintro byteRange resolved rfl small found
    rw [describes.size] at shown found
    exact range_length small found shown

/-- What a put stores is described by its record. -/
theorem put_describes {crates : Crates} {store : Store} {bucket encoded own key : Str} {body : Body}
    {contentType : Option Str} {content : Bytes} {objectMeta : ObjectMeta}
    (stores : (Client.putObject own key body contentType).Stores crates store bucket encoded content
      objectMeta) : content = delivered body ∧ Describes crates objectMeta content := by
  obtain ⟨_, _, _, same, record⟩ := stores
  rw [record]
  exact ⟨same, rfl, rfl⟩

/-- A record and a body that the same call was the last to touch agree, where only puts store. -/
theorem same_touch_describes {Thread : Type} {crates : Crates} {storage : FsStorage} {start : FS}
    {store : Store} {clients : Thread → Client} {older newer : List (Event Thread Reply)}
    {bucket key encoded : Str} {objectMeta : ObjectMeta} {content : Bytes}
    (versioned : Versioned crates storage start bucket key) (admitted : encodeKey key = .ok encoded)
    (puts : ∀ thread stored bytes, (clients thread).Stores crates store bucket encoded bytes stored →
      ∃ own key body contentType, clients thread = .putObject own key body contentType)
    (record : Explains crates storage start store clients (.sidecar bucket encoded) older
      (some (.file (crates.objectMeta.encode objectMeta))))
    (body : Explains crates storage start store clients (.body bucket encoded) newer
      (some (.file content)))
    (same : lastTouch (storage.metaPath bucket encoded) older =
      lastTouch (storage.objectPath bucket encoded) newer) : Describes crates objectMeta content := by
  unfold Explains at record body
  simp only [StoredFile.path] at record body
  rw [same] at record
  cases touched : lastTouch (storage.objectPath bucket encoded) newer with
  | none =>
      rw [touched] at record body
      exact versioned encoded objectMeta content admitted (Eq.symm record) (Eq.symm body)
  | some found =>
      rw [touched] at record body
      cases found with
      | removed remover => cases body.2
      | installed writer =>
          obtain ⟨bytes, ⟨stored, written, stores, rfl⟩, sidecar⟩ := record
          obtain ⟨installed, ⟨_, again⟩, file⟩ := body
          cases file
          obtain rfl : objectMeta = written := by
            simpa [(codec_injective crates.objectMeta).eq_iff] using sidecar
          obtain ⟨own, key, body, contentType, put⟩ := puts writer _ _ stores
          rw [put] at stores again
          obtain ⟨rfl, describes⟩ := put_describes stores
          obtain ⟨rfl, _⟩ := put_describes again
          exact describes

section Reading
variable {Thread : Type} [DecidableEq Thread] {crates : Crates} {storage : FsStorage} {start : FS}
  {store : Store} {clients : Thread → Client} (holds : Holds crates storage start store)
  (tree : start.Tree) {last : Thread → Op Received} {events : List (Event Thread Reply)} {t : FS}
  (run : Interleaves (fun _ => faultFree) (fun thread => (clients thread).program crates storage) start
    events last t)

include holds tree run

/-! ### Bodies -/

/-- What a get streams is from one body: the one that was there in the beginning, or the whole
body of a put or an upload that had renamed it into place. -/
theorem bodies_never_torn (addressed : ∀ thread, (clients thread).Addressed) {reader : Thread}
    {bucket key : Str} {sizes : List Nat} {objectMeta : ObjectMeta} {bytes : Bytes} {whole : Bool}
    (reads : clients reader = .download bucket key none sizes)
    (got : last reader = .done (.stream objectMeta bytes whole)) :
    ∃ encoded content, encodeKey key = .ok encoded ∧ bytes <+: content ∧ (whole = true → bytes = content) ∧
      (start.look (bodyPlace storage bucket encoded) = some (.file content) ∨
        ∃ writer source record, (clients writer).Stores crates store bucket encoded content record ∧
          ⟨writer, .rename source (storage.objectPath bucket encoded), .ok ()⟩ ∈ events) := by
  obtain ⟨ghosts, sharing, known⟩ := traffic_run holds tree addressed run
  have told := known reader (.ok (.stream objectMeta bytes whole)) got
  rw [reads] at told
  obtain ⟨_, _, _, encoded, content, _, same, admitted, fetched, ⟨⟩, front, all⟩ := told.1 _ rfl
  cases same
  refine ⟨encoded, content, admitted, front, all, ?_⟩
  obtain ⟨seen, opened, _, explained⟩ := fetched.body
  have happened := sharing.extra.seen reader seen (.inl opened)
  unfold Explains at explained
  cases touched : lastTouch ((StoredFile.body bucket encoded).path storage) seen with
  | none =>
      rw [touched] at explained
      exact .inl (Eq.symm explained)
  | some found =>
      rw [touched] at explained
      cases found with
      | removed remover => cases explained.2
      | installed writer =>
          obtain ⟨_, ⟨record, stores⟩, same⟩ := explained
          cases same
          obtain ⟨event, member, installed⟩ := lastTouch_mem touched
          obtain ⟨source, rfl⟩ := touch_installed installed
          exact .inr ⟨writer, source, record, stores, happened.subset member⟩

end Reading

/-- The download that follows a put has read the whole body. -/
theorem bodies_never_torn_photos : ∃ events last t objectMeta,
    Interleaves (fun _ => faultFree)
      (fun thread => (putAndGet thread).program Crates.reference Reference.storage)
      Reference.bucketDisk events last t ∧
    last false = .done (.stream objectMeta [] true) ∧
    ∃ encoded content, encodeKey ['a'] = .ok encoded ∧ [] <+: content ∧ (true = true → [] = content) ∧
      (Reference.bucketDisk.look (bodyPlace Reference.storage Reference.bucket encoded) =
          some (.file content) ∨
        ∃ writer source record, (putAndGet writer).Stores Crates.reference
            (Store.empty.setBucket Reference.bucket (.fresh Reference.info))
            Reference.bucket encoded content record ∧
          ⟨writer, .rename source (Reference.storage.objectPath Reference.bucket encoded), .ok ()⟩ ∈
            events) := by
  obtain ⟨before, after, s, t, objectMeta, first, later⟩ := put_then_get
  refine ⟨before ++ after, _, t, objectMeta, interleaves_append first later, Function.update_self .., ?_⟩
  exact bodies_never_torn Reference.bucketDisk_holds Reference.bucketDisk_tree
    (interleaves_append first later) putAndGet_addressed rfl (Function.update_self ..)

/-! ### Versions -/

section Reading
variable {Thread : Type} [DecidableEq Thread] {crates : Crates} {storage : FsStorage} {start : FS}
  {store : Store} {clients : Thread → Client} (holds : Holds crates storage start store)
  (tree : start.Tree) {last : Thread → Op Received} {events : List (Event Thread Reply)} {t : FS}
  (run : Interleaves (fun _ => faultFree) (fun thread => (clients thread).program crates storage) start
    events last t)

include holds tree run

end Reading

/-- On the disk that the puts of the examples begin on, no object has a version yet. -/
theorem bucketDisk_versioned (key : Str) :
    Versioned Crates.reference Reference.storage Reference.bucketDisk Reference.bucket key := by
  intro encoded objectMeta content _ sidecar
  have valid : validateBucketName Reference.bucket = .ok () := by decide
  rw [sidecarPlace, metaPlace,
    look_sidecar Reference.bucketDisk_holds valid (Finmap.lookup_insert _)] at sidecar
  cases sidecar

/-- The object `a` is put twice, with another body the second time, and downloaded. -/
def rewriteAndGet : Option Bool → Client
  | none => .download Reference.bucket ['a'] none [0, 0, 0, 0, 0, 0]
  | some false => .putObject Reference.bucket ['a'] [] none
  | some true => .putObject Reference.bucket ['a'] [.ok (utf8 "hello".toList)] none

theorem rewriteAndGet_addressed (thread : Option Bool) : (rewriteAndGet thread).Addressed := by
  rcases thread with _ | ⟨_ | _⟩ <;> exact trivial

end Ferrobucket
