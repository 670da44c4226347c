import Ferrobucket.Requests
import Ferrobucket.RangedReads
import Ferrobucket.UploadHandler
/-! Completing an upload from a list of part numbers as a client sends it. The list is
sorted and nothing else: neither is a list without parts refused, nor one that names a part
twice. Such a list is harmless only where the call fails before the body is in place. -/
namespace Ferrobucket
open Text Posix Program

/-! ### The adapter -/

structure CompletedPart where
  partNumber : Option Int32

structure CompletedMultipartUpload where
  parts : Option (List CompletedPart)

/-- The part numbers of a request; a part without a number is skipped. -/
def requestedParts (multipartUpload : Option CompletedMultipartUpload) : List Int32 :=
  ((multipartUpload.bind CompletedMultipartUpload.parts).getD []).filterMap CompletedPart.partNumber

structure CompleteMultipartUploadOutput where
  bucket : Option Str
  key : Option Str
  eTag : Option Str
  location : Option Str

/-- The adapter's `complete_multipart_upload`. -/
def s3CompleteMultipartUpload (crates : Crates) (storage : FsStorage) (bucket key uploadId : Str)
    (multipartUpload : Option CompletedMultipartUpload) :
    S3Op (S3Response CompleteMultipartUploadOutput) := do
  let parts := (requestedParts multipartUpload).map Int32.toInt
  let objectMeta ← served (completeMultipartUpload crates storage bucket key uploadId parts)
  pure { output :=
    { bucket := some bucket
      key := some key
      eTag := some objectMeta.etag
      location := some ('/' :: bucket ++ '/' :: key) } }

/-! ### Part lists -/

theorem part_name_short (number : Int32) : utf8Len (FsStorage.partName number.toInt) ≤ 255 := by
  have ascii : ∀ c ∈ FsStorage.partName number.toInt, c.toNat < 128 := by
    intro c member
    rcases part_chars number.toInt c member with digit | rfl
    · simp only [Char.isDigit, Bool.and_eq_true, decide_eq_true_eq] at digit
      have upper := UInt32.le_iff_toNat_le.mp digit.2
      exact lt_of_le_of_lt upper (by decide)
    · decide
  rw [utf8Len_ascii ascii]
  have low := Int32.le_toInt number
  have high := Int32.toInt_lt number
  rcases part_name_cases number.toInt with ⟨n, same, digits⟩ | ⟨n, same, digits⟩
  · have few := (Nat.length_toDigits_le_iff (b := 10) (n := n) (k := 10) (by decide) (by decide)).mpr
      (by omega)
    rw [digits]
    omega
  · have few := (Nat.length_toDigits_le_iff (b := 10) (n := n + 1) (k := 10) (by decide)
      (by decide)).mpr (by omega)
    rw [digits, List.length_cons]
    omega

/-- A list that no upload can mean. -/
def Malformed (parts : List Int) : Prop := parts = [] ∨ ¬ parts.Nodup

/-- The bytes of the listed parts, each part once, in ascending order. -/
def onceEach (upload : Upload) (parts : List Int) : Bytes :=
  (parts.toFinset.sort (· ≤ ·)).flatMap fun number =>
    (upload.parts.lookup (FsStorage.partName number)).getD []

theorem assembled_some {upload : Upload} {parts : List Int} {body : Bytes}
    (joined : Store.assembled upload parts = some body) :
    body = parts.flatMap fun number => (upload.parts.lookup (FsStorage.partName number)).getD [] := by
  induction parts generalizing body with
  | nil => exact (Option.some.inj joined).symm
  | cons number rest ih =>
      unfold Store.assembled at joined
      cases staged : upload.parts.lookup (FsStorage.partName number) with
      | none => simp [staged] at joined
      | some content =>
          rw [staged] at joined
          obtain ⟨later, tail, rfl⟩ := Option.map_eq_some_iff.mp joined
          rw [List.flatMap_cons, staged, ← ih tail]
          rfl

theorem assembled_none {upload : Upload} {parts : List Int} :
    Store.assembled upload parts = none ↔
      ∃ number ∈ parts, upload.parts.lookup (FsStorage.partName number) = none := by
  induction parts with
  | nil => simp [Store.assembled]
  | cons number rest ih =>
      unfold Store.assembled
      cases staged : upload.parts.lookup (FsStorage.partName number) with
      | none => simp [staged]
      | some content => simp [staged, ih]

/-- Without repetitions the assembled body has each part once. -/
theorem assembled_once {upload : Upload} {parts : List Int} {body : Bytes} (distinct : parts.Nodup)
    (joined : Store.assembled upload (parts.insertionSort (· ≤ ·)) = some body) :
    body = onceEach upload parts := by
  have sorted : parts.toFinset.sort (· ≤ ·) = parts.insertionSort (· ≤ ·) := by
    have same : (parts.toFinset.sort (· ≤ ·)).Perm (parts.insertionSort (· ≤ ·)) := by
      rw [List.perm_ext_iff_of_nodup (Finset.sort_nodup _ _)
        ((List.perm_insertionSort _ parts).nodup_iff.mpr distinct)]
      intro number
      rw [Finset.mem_sort, List.mem_toFinset, List.mem_insertionSort]
    exact same.eq_of_pairwise (fun _ _ _ _ => le_antisymm) (Finset.pairwise_sort _ _)
      (List.pairwise_insertionSort _ _)
  rw [onceEach, sorted]
  exact assembled_some joined

/-! ### What a completion leaves alone -/

section Completing
variable {crates : Crates} {storage : FsStorage} {s after : FS} {store : Store} {upload : Upload}
  {key uploadId : Str} {parts : List Int}

/-- Body and record of the target and all that is staged are as before. -/
structure TargetIntact (storage : FsStorage) (upload : Upload) (key uploadId : Str) (before after : FS) :
    Prop where
  target : ∀ encoded, encodeKey key = .ok encoded →
    ∀ inner ∈ [[objectsName, encoded], [metaName, FsStorage.sidecarName encoded]],
      under storage.dataRoot after.look (upload.record.bucket :: inner) =
        under storage.dataRoot before.look (upload.record.bucket :: inner)
  staged : ∀ inside, under storage.dataRoot after.look (uploadsName :: uploadId :: inside) =
    under storage.dataRoot before.look (uploadsName :: uploadId :: inside)

/-- A malformed list fails and destroys nothing, and what is stored has each listed part once. -/
structure Harmless (storage : FsStorage) (upload : Upload) (key uploadId : Str) (parts : List Int)
    (before : FS) (succeeded : Bool) (after : FS) : Prop where
  refused : Malformed parts → succeeded = false ∧ TargetIntact storage upload key uploadId before after
  whole : succeeded = true → ∃ encoded, encodeKey key = .ok encoded ∧
    under storage.dataRoot after.look [upload.record.bucket, objectsName, encoded] =
      some (.file (onceEach upload parts))

/-- The bucket of an upload, or what completing makes of it when it is gone. -/
def Store.targetBucket (store : Store) (upload : Upload) : Bucket :=
  (store.buckets.lookup upload.record.bucket).getD .bare

/-- The call does not get to the body, or puts the same body in place and then fails. -/
def FailsHarmlessly (store : Store) (nameMax : Option Nat) (upload : Upload) (key : Str)
    (parts : List Int) : Prop :=
  key = [] ∨ (encodeKey key).isOk = false ∨
  (∃ number ∈ parts, upload.parts.lookup (FsStorage.partName number) = none) ∨
  ∃ encoded body, encodeKey key = .ok encoded ∧
    Store.assembled upload (parts.insertionSort (· ≤ ·)) = some body ∧
    (store.targetBucket upload).objects.lookup encoded = some body ∧
    ((store.targetBucket upload).sidecars = none ∨
      exceeds nameMax (FsStorage.sidecarName encoded) = true)

/-- The lists with which completing destroys nothing. -/
def Spares (store : Store) (nameMax : Option Nat) (upload : Upload) (key : Str) (parts : List Int) :
    Prop := ¬ Malformed parts ∨ FailsHarmlessly store nameMax upload key parts

/-- How the target looks before. -/
theorem target_look (holds : Holds crates storage s store)
    (valid : validateBucketName upload.record.bucket = .ok ()) (top file : Str) :
    under storage.dataRoot s.look [upload.record.bucket, top, file] =
      (store.targetBucket upload).view crates [top, file] := by
  rw [holds.seen, view_bucket (bucket_not_uploads valid), Store.targetBucket]
  cases store.buckets.lookup upload.record.bucket with
  | none => simp [Bucket.view, Bucket.bare]
  | some old => rfl

theorem staged_untouched {new : Bucket} (holds : Holds crates storage s store)
    (reached : Holds crates storage after (store.setBucket upload.record.bucket new))
    (valid : validateBucketName upload.record.bucket = .ok ()) (inside : List Str) :
    under storage.dataRoot after.look (uploadsName :: uploadId :: inside) =
      under storage.dataRoot s.look (uploadsName :: uploadId :: inside) := by
  have other : (uploadsName :: uploadId :: inside).head? ≠ some upload.record.bucket := by
    intro same
    exact bucket_not_uploads valid (Option.some.inj same).symm
  rw [reached.seen, holds.seen, view_setBucket (bucket_not_uploads valid), if_neg other]

theorem target_after {new : Bucket}
    (reached : Holds crates storage after (store.setBucket upload.record.bucket new))
    (valid : validateBucketName upload.record.bucket = .ok ()) (inner : List Str) :
    under storage.dataRoot after.look (upload.record.bucket :: inner) = new.view crates inner := by
  rw [reached.seen, view_setBucket (bucket_not_uploads valid)]
  exact if_pos rfl

theorem untouched_same (holds : Holds crates storage s store)
    (reached : Holds crates storage after
      (store.setBucket upload.record.bucket (store.targetBucket upload)))
    (valid : validateBucketName upload.record.bucket = .ok ()) :
    TargetIntact storage upload key uploadId s after := by
  refine ⟨?_, staged_untouched holds reached valid⟩
  intro encoded _ inner member
  rw [target_after reached valid]
  rcases List.mem_cons.mp member with rfl | record
  · exact (target_look holds valid objectsName encoded).symm
  · obtain rfl := List.mem_singleton.mp record
    exact (target_look holds valid metaName (FsStorage.sidecarName encoded)).symm

/-- A body in place without a new record is the old one exactly if nothing is touched. -/
theorem untouched_placed {encoded : Str} {body : Bytes} {new : Bucket}
    (holds : Holds crates storage s store)
    (reached : Holds crates storage after (store.setBucket upload.record.bucket new))
    (objects : new.objects = (store.targetBucket upload).objects.insert encoded body)
    (records : new.sidecars = (store.targetBucket upload).sidecars)
    (valid : validateBucketName upload.record.bucket = .ok ()) (admitted : encodeKey key = .ok encoded) :
    TargetIntact storage upload key uploadId s after ↔
      (store.targetBucket upload).objects.lookup encoded = some body := by
  have placed : under storage.dataRoot after.look [upload.record.bucket, objectsName, encoded] =
      some (.file body) := by
    rw [target_after reached valid]
    simp [Bucket.view, objects]
  constructor
  · intro untouched
    have same := untouched.target encoded admitted [objectsName, encoded] List.mem_cons_self
    rw [placed, target_look holds valid] at same
    cases stored : (store.targetBucket upload).objects.lookup encoded with
    | none => simp [Bucket.view, stored] at same
    | some old =>
        have equal : body = old := by simpa [Bucket.view, stored] using same
        rw [equal]
  · intro stored
    refine ⟨?_, staged_untouched holds reached valid⟩
    intro other again inner member
    obtain rfl := Except.ok.inj (admitted.symm.trans again)
    rw [target_after reached valid]
    rcases List.mem_cons.mp member with rfl | record
    · rw [target_look holds valid]
      simp [Bucket.view, objects, stored]
    · obtain rfl := List.mem_singleton.mp record
      rw [target_look holds valid]
      simp [Bucket.view, records]

theorem harmless_failed (untouched : TargetIntact storage upload key uploadId s after) :
    Harmless storage upload key uploadId parts s false after :=
  ⟨fun _ => ⟨rfl, untouched⟩, fun succeeded => nomatch succeeded⟩

/-- A call that fails with the body in place. -/
theorem harmless_placed {encoded : Str} {body : Bytes} {new : Bucket}
    (holds : Holds crates storage s store)
    (reached : Holds crates storage after (store.setBucket upload.record.bucket new))
    (objects : new.objects = (store.targetBucket upload).objects.insert encoded body)
    (records : new.sidecars = (store.targetBucket upload).sidecars)
    (valid : validateBucketName upload.record.bucket = .ok ()) (admitted : encodeKey key = .ok encoded) :
    Harmless storage upload key uploadId parts s false after ↔
      ¬ Malformed parts ∨ (store.targetBucket upload).objects.lookup encoded = some body := by
  have untouched : TargetIntact storage upload key uploadId s after ↔ _ :=
    untouched_placed holds reached objects records valid admitted
  constructor
  · intro harmless
    by_cases malformed : Malformed parts
    · exact .inr (untouched.mp (harmless.refused malformed).2)
    · exact .inl malformed
  · rintro (formed | stored)
    · exact ⟨fun malformed => absurd malformed formed, fun succeeded => nomatch succeeded⟩
    · exact harmless_failed (untouched.mpr stored)

/-- A call that succeeds. -/
theorem harmless_done {encoded : Str} {body : Bytes} {new : Bucket}
    (admitted : encodeKey key = .ok encoded)
    (joined : Store.assembled upload (parts.insertionSort (· ≤ ·)) = some body)
    (valid : validateBucketName upload.record.bucket = .ok ())
    (reached : Holds crates storage after
      ((store.setBucket upload.record.bucket new).dropUpload uploadId))
    (objects : new.objects = (store.targetBucket upload).objects.insert encoded body) :
    Harmless storage upload key uploadId parts s true after ↔ ¬ Malformed parts := by
  constructor
  · intro harmless malformed
    exact Bool.noConfusion (harmless.refused malformed).1
  · intro formed
    refine ⟨fun malformed => absurd malformed formed, fun _ => ⟨encoded, admitted, ?_⟩⟩
    have elsewhere : ¬ [uploadsName, uploadId] <+: [upload.record.bucket, objectsName, encoded] := by
      intro begins
      exact bucket_not_uploads valid (List.cons_prefix_cons.mp begins).1.symm
    have distinct : parts.Nodup := by
      by_contra repeated
      exact formed (.inr repeated)
    rw [reached.seen, view_dropUpload, if_neg elsewhere, view_setBucket (bucket_not_uploads valid),
      ← assembled_once distinct joined]
    simp [Bucket.view, objects]

/-- With a good key and all parts there, the call can fail only after the body is in place. -/
theorem fails_late {encoded : Str} {body : Bytes} {nameMax : Option Nat} (nonempty : key ≠ [])
    (admitted : encodeKey key = .ok encoded)
    (joined : Store.assembled upload (parts.insertionSort (· ≤ ·)) = some body) :
    FailsHarmlessly store nameMax upload key parts ↔
      (store.targetBucket upload).objects.lookup encoded = some body ∧
        ((store.targetBucket upload).sidecars = none ∨
          exceeds nameMax (FsStorage.sidecarName encoded) = true) := by
  constructor
  · rintro (empty | rejected | ⟨number, member, missing⟩ | ⟨other, same, again, whole, stored⟩)
    · exact absurd empty nonempty
    · rw [admitted] at rejected
      cases rejected
    · have lost := assembled_none.mpr ⟨number, (List.mem_insertionSort (· ≤ ·)).mpr member, missing⟩
      rw [joined] at lost
      cases lost
    · obtain rfl := Except.ok.inj (admitted.symm.trans again)
      obtain rfl := Option.some.inj (joined.symm.trans whole)
      exact stored
  · intro stored
    exact .inr (.inr (.inr ⟨encoded, body, admitted, joined, stored⟩))

/-- Of every outcome: it is harmless exactly if the list is well formed or the call fails
without harm. -/
theorem harmless_iff (holds : Holds crates storage s store)
    (live : store.staged.lookup uploadId = some upload) {time : Nat}
    (reached : Holds crates storage after
      (store.completeWithin crates storage s.nameMax key uploadId parts time).2) :
    Harmless storage upload key uploadId parts s
        (store.completeWithin crates storage s.nameMax key uploadId parts time).1.isOk after ↔
      Spares store s.nameMax upload key parts := by
  unfold Spares
  have valid := (holds.sound.uploads uploadId upload live).2.valid
  have old : (store.buckets.lookup upload.record.bucket).getD .bare = store.targetBucket upload := rfl
  unfold Store.completeWithin at reached ⊢
  simp only [live, old] at reached ⊢
  cases admitted : encodeKey key with
  | error e =>
      simp only [admitted] at reached ⊢
      have rejected : (encodeKey key).isOk = false := by rw [admitted]; rfl
      have untouched : TargetIntact storage upload key uploadId s after := untouched_same holds reached valid
      exact iff_of_true (harmless_failed untouched) (.inr (.inr (.inl rejected)))
  | ok encoded =>
      simp only [admitted] at reached ⊢
      cases joined : Store.assembled upload (parts.insertionSort (· ≤ ·)) with
      | none =>
          simp only [joined] at reached ⊢
          obtain ⟨number, member, missing⟩ := assembled_none.mp joined
          have untouched : TargetIntact storage upload key uploadId s after := untouched_same holds reached valid
          exact iff_of_true (harmless_failed untouched) (.inr (.inr (.inr (.inl
            ⟨number, (List.mem_insertionSort _).mp member, missing⟩))))
      | some body =>
          simp only [joined] at reached ⊢
          by_cases empty : key = []
          · simp only [if_pos empty] at reached ⊢
            have untouched : TargetIntact storage upload key uploadId s after := untouched_same holds reached valid
            exact iff_of_true (harmless_failed untouched) (.inr (.inl empty))
          · simp only [if_neg empty] at reached ⊢
            have fails : FailsHarmlessly store s.nameMax upload key parts ↔
                (store.targetBucket upload).objects.lookup encoded = some body ∧
                  ((store.targetBucket upload).sidecars = none ∨
                    exceeds s.nameMax (FsStorage.sidecarName encoded) = true) :=
              fails_late empty admitted joined
            rw [fails]
            cases kept : (store.targetBucket upload).sidecars with
            | none =>
                simp only [kept] at reached ⊢
                have placed : Harmless storage upload key uploadId parts s false after ↔ _ :=
                  harmless_placed holds reached rfl kept.symm valid admitted
                simpa [Except.isOk, Except.toBool] using placed
            | some sidecars =>
                simp only [kept] at reached ⊢
                by_cases long : exceeds s.nameMax (FsStorage.sidecarName encoded) = true
                · simp only [if_pos long] at reached ⊢
                  have placed : Harmless storage upload key uploadId parts s false after ↔ _ :=
                    harmless_placed holds reached rfl kept.symm valid admitted
                  simpa [long, Except.isOk, Except.toBool] using placed
                · simp only [if_neg long] at reached ⊢
                  have done : Harmless storage upload key uploadId parts s true after ↔ ¬ Malformed parts :=
                    harmless_done admitted joined valid reached rfl
                  simpa [long, Except.isOk, Except.toBool] using done

theorem wp_complete_decided (holds : Holds crates storage s store)
    (live : store.staged.lookup uploadId = some upload) (bucket key : Str) (parts : List Int32) :
    wp faultFree (completeMultipartUpload crates storage bucket key uploadId (parts.map Int32.toInt))
      (fun outcome after =>
        Harmless storage upload key uploadId (parts.map Int32.toInt) s outcome.isOk after ↔
          Spares store s.nameMax upload key (parts.map Int32.toInt)) s := by
  have uuid := (holds.sound.uploads uploadId upload live).1
  have fitting : ∀ number ∈ parts.map Int32.toInt, s.tooLong (FsStorage.partName number) = false := by
    intro number member
    obtain ⟨own, _, rfl⟩ := List.mem_map.mp member
    exact fits holds (part_name_short own)
  apply wp_mono (complete_within_refines holds bucket key uuid (parts.map Int32.toInt) fitting)
  rintro outcome after ⟨time, rfl, reached⟩
  exact harmless_iff holds live reached

/-- Whichever way the list comes in, completing is harmless exactly if the list is well formed
or the call fails without harm. -/
theorem completion_harmless_iff (web : WebCrates) (holds : Holds crates storage s store)
    (live : store.staged.lookup uploadId = some upload) (bucket key : Str) (parts : List Int32) :
    (wp faultFree (completeMultipartUpload crates storage bucket key uploadId (parts.map Int32.toInt))
      (fun outcome after => Harmless storage upload key uploadId (parts.map Int32.toInt) s
        outcome.isOk after) s ↔ Spares store s.nameMax upload key (parts.map Int32.toInt)) ∧
    (∀ multipartUpload, requestedParts multipartUpload = parts →
      (wp faultFree (s3CompleteMultipartUpload crates storage bucket key uploadId multipartUpload)
        (fun outcome after => Harmless storage upload key uploadId (parts.map Int32.toInt) s
          outcome.isOk after) s ↔ Spares store s.nameMax upload key (parts.map Int32.toInt))) ∧
    ∀ partNumber contentType body bytes, toBytes web (1024 * 1024) body = .ok bytes →
      web.partsFromJson bytes = .ok parts →
      (wp faultFree (uploadHandler crates storage web bucket key
          ⟨some uploadId, partNumber, some "complete".toList⟩ contentType body)
        (fun outcome after => ∃ response, outcome = .ok response ∧
          Harmless storage upload key uploadId (parts.map Int32.toInt) s
            (response.status = .ok) after) s ↔
        Spares store s.nameMax upload key (parts.map Int32.toInt)) := by
  have decided := wp_complete_decided holds live bucket key parts
  refine ⟨wp_decided decided fun _ _ same => same, ?_, ?_⟩
  · rintro multipartUpload rfl
    have knows : wp faultFree (s3CompleteMultipartUpload crates storage bucket key uploadId multipartUpload)
        (fun outcome after =>
          Harmless storage upload key uploadId ((requestedParts multipartUpload).map Int32.toInt) s
            outcome.isOk after ↔
          Spares store s.nameMax upload key ((requestedParts multipartUpload).map Int32.toInt)) s := by
      unfold s3CompleteMultipartUpload
      simp only []
      rw [wp_bind, wp_served]
      apply wp_mono decided
      intro outcome after same
      cases outcome <;> exact same
    exact wp_decided knows fun _ _ same => same
  · intro partNumber contentType body bytes read parsed
    have create : ¬ some "complete".toList = some "create".toList := by decide
    have knows : wp faultFree (uploadHandler crates storage web bucket key
        ⟨some uploadId, partNumber, some "complete".toList⟩ contentType body)
        (fun outcome after => ∃ response, outcome = .ok response ∧
          (Harmless storage upload key uploadId (parts.map Int32.toInt) s (response.status = .ok) after ↔
            Spares store s.nameMax upload key (parts.map Int32.toInt))) s := by
      unfold uploadHandler completeHandler
      simp only [if_neg create, if_true, read, parsed]
      rw [wp_respond]
      apply wp_mono decided
      intro outcome after same
      cases outcome with
      | ok objectMeta => exact ⟨_, rfl, same⟩
      | error e => exact ⟨_, rfl, same⟩
    apply wp_decided knows
    rintro _ after ⟨response, rfl, same⟩
    rw [← same]
    constructor
    · rintro ⟨other, equal, harmless⟩
      obtain rfl := Except.ok.inj equal
      exact harmless
    · intro harmless
      exact ⟨response, rfl, harmless⟩

end Completing

/-! ### One part of a photo -/

namespace Reference

/-- An upload of `a` whose part 1 is `hello`. -/
theorem part_staged : ∃ uploadId s store upload, s.nameMax = none ∧
    Holds Crates.reference storage s store ∧
    (∃ info, store.buckets.lookup bucket = some (.fresh info)) ∧
    store.staged.lookup uploadId = some upload ∧ upload.record = ⟨bucket, ['a'], none⟩ ∧
    upload.parts.lookup (FsStorage.partName 1) = some (utf8 "hello".toList) := by
  obtain ⟨uploadId, _, s, store, info, uuid, _, _, unlimited, holds, _, live, present⟩ := upload_begun
  have staged := wp_limited (part_refines holds unlimited bucket uuid 1 [.ok (utf8 "hello".toList)])
  obtain ⟨outcome, t, _, ⟨rfl, after⟩, limit⟩ := wp_returns staged
  rw [Store.part_made Crates.reference _ live (by decide) rfl] at after
  exact ⟨uploadId, t, _, _, limit.trans unlimited, after, ⟨info, present⟩, Store.live_setUpload _ uploadId _,
    rfl, Finmap.lookup_insert _⟩

/-- Completing the upload of `a` with any parts that are staged succeeds. -/
theorem completed_run {uploadId : Str} {s : FS} {store : Store} {upload : Upload} {body : Bytes}
    (unlimited : s.nameMax = none) (holds : Holds Crates.reference storage s store)
    (present : ∃ info, store.buckets.lookup bucket = some (.fresh info))
    (live : store.staged.lookup uploadId = some upload) (record : upload.record = ⟨bucket, ['a'], none⟩)
    (multipartUpload : Option CompletedMultipartUpload)
    (joined : Store.assembled upload (((requestedParts multipartUpload).map Int32.toInt).insertionSort
      (· ≤ ·)) = some body) :
    ∃ response t, Runs faultFree (s3CompleteMultipartUpload Crates.reference storage bucket ['a'] uploadId
        multipartUpload) s (.ok response) t ∧
      under storage.dataRoot t.look [bucket, objectsName, ['a']] = some (.file body) ∧
      under storage.dataRoot t.look [uploadsName, uploadId] = none := by
  obtain ⟨info, present⟩ := present
  have uuid := (holds.sound.uploads uploadId upload live).1
  have valid : validateBucketName bucket = .ok () := by decide
  have admitted : encodeKey ['a'] = .ok ['a'] := by decide
  have refined := complete_refines holds unlimited bucket ['a'] uuid
    ((requestedParts multipartUpload).map Int32.toInt)
  have answered : wp faultFree (s3CompleteMultipartUpload Crates.reference storage bucket ['a'] uploadId
      multipartUpload) (fun outcome after => (∃ response, outcome = .ok response) ∧
        under storage.dataRoot after.look [bucket, objectsName, ['a']] = some (.file body) ∧
        under storage.dataRoot after.look [uploadsName, uploadId] = none) s := by
    unfold s3CompleteMultipartUpload
    simp only []
    rw [wp_bind, wp_served]
    apply wp_mono refined
    rintro outcome after ⟨time, rfl, reached⟩
    have old : store.buckets.lookup upload.record.bucket = some (.fresh info) := by rw [record, present]
    have same : upload.record.bucket = bucket := by rw [record]
    simp only [Store.completeMultipartUpload, live, admitted, joined, old, Option.getD_some,
      Bucket.fresh, List.cons_ne_nil, if_false] at reached ⊢
    rw [same] at reached
    refine ⟨⟨_, rfl⟩, ?_, ?_⟩
    · have elsewhere : ¬ [uploadsName, uploadId] <+: [bucket, objectsName, ['a']] := by
        intro begins
        exact bucket_not_uploads valid (List.cons_prefix_cons.mp begins).1.symm
      rw [reached.seen, view_dropUpload, if_neg elsewhere, view_setBucket (bucket_not_uploads valid)]
      simp [Bucket.view]
    · rw [reached.seen, view_dropUpload, if_pos (List.prefix_refl _)]
  obtain ⟨outcome, t, run, ⟨response, rfl⟩, stored, gone⟩ := wp_returns answered
  exact ⟨response, t, run, stored, gone⟩

end Reference

theorem completion_harmless_iff_photos : ∃ uploadId s store upload,
    Holds Crates.reference Reference.storage s store ∧ store.staged.lookup uploadId = some upload ∧
    upload.parts.lookup (FsStorage.partName 1) = some (utf8 "hello".toList) ∧
    wp faultFree (completeMultipartUpload Crates.reference Reference.storage Reference.bucket ['a']
      uploadId [1]) (fun outcome after =>
        Harmless Reference.storage upload ['a'] uploadId [1] s outcome.isOk after) s := by
  obtain ⟨uploadId, s, store, upload, _, holds, _, live, _, part⟩ := Reference.part_staged
  have formed : ¬ Malformed [1] := by simp [Malformed]
  exact ⟨uploadId, s, store, upload, holds, live, part, (completion_harmless_iff
    ⟨Reference.texts, fun _ => [], [], fun _ => .error []⟩ holds live Reference.bucket ['a'] [1]).1.mpr
    (.inl formed)⟩

/-- A completion without parts and one that names a part twice both succeed. -/
theorem malformed_completions_succeed : ∃ uploadId s store upload,
    Holds Crates.reference Reference.storage s store ∧ store.staged.lookup uploadId = some upload ∧
    upload.parts.lookup (FsStorage.partName 1) = some (utf8 "hello".toList) ∧
    (∃ response t, Runs faultFree (s3CompleteMultipartUpload Crates.reference Reference.storage
        Reference.bucket ['a'] uploadId none) s (.ok response) t ∧
      under Reference.storage.dataRoot t.look [Reference.bucket, objectsName, ['a']] =
        some (.file []) ∧
      under Reference.storage.dataRoot t.look [uploadsName, uploadId] = none) ∧
    ∃ response t, Runs faultFree (s3CompleteMultipartUpload Crates.reference Reference.storage
        Reference.bucket ['a'] uploadId (some ⟨some [⟨some 1⟩, ⟨some 1⟩]⟩)) s (.ok response) t ∧
      under Reference.storage.dataRoot t.look [Reference.bucket, objectsName, ['a']] =
        some (.file (utf8 "hellohello".toList)) ∧
      under Reference.storage.dataRoot t.look [uploadsName, uploadId] = none := by
  obtain ⟨uploadId, s, store, upload, unlimited, holds, present, live, record, part⟩ :=
    Reference.part_staged
  have empty := Reference.completed_run unlimited holds present live record none rfl
  have numbers : ((requestedParts (some ⟨some [⟨some 1⟩, ⟨some 1⟩]⟩)).map Int32.toInt).insertionSort
      (· ≤ ·) = [1, 1] := by decide
  have twice : Store.assembled upload [1, 1] = some (utf8 "hellohello".toList) := by
    simp only [Store.assembled, part, Option.map_some]
    decide
  rw [← numbers] at twice
  exact ⟨uploadId, s, store, upload, holds, live, part, empty,
    Reference.completed_run unlimited holds present live record _ twice⟩

end Ferrobucket
