import Mathlib.Data.Finset.Sort
import Ferrobucket.Store
/-! The operations on stores, without any file system: what each one answers and what
it leaves, when calls run one at a time and fail only for reasons of existence, of
emptiness and of the length of a name. -/
namespace Ferrobucket
open Text Posix

namespace Store
variable (crates : Crates) (storage : FsStorage) (nameMax : Option Nat) (store : Store)

def createBucket (name : Str) (time : Nat) : Except StorageError Unit × Store :=
  match validateBucketName name with
  | .error e => (.error e, store)
  | .ok () =>
      match store.buckets.lookup name with
      | some _ => (.error (.BucketAlreadyExists name), store)
      | none => (.ok (), store.setBucket name (.fresh ⟨name, time⟩))

def deleteBucket (name : Str) : Except StorageError Unit × Store :=
  match validateBucketName name with
  | .error e => (.error e, store)
  | .ok () =>
      match store.buckets.lookup name with
      | none => (.error (.NoSuchBucket name), store)
      | some bucket =>
          if bucket.objects = ∅ then (.ok (), store.dropBucket name)
          else (.error (.BucketNotEmpty name), store)

def putObject (bucket key : Str) (body : Body) (contentType : Option Str) (time : Nat) :
    Except StorageError ObjectMeta × Store :=
  match validateBucketName bucket with
  | .error e => (.error e, store)
  | .ok () =>
  match store.buckets.lookup bucket with
  | none => (.error (.NoSuchBucket bucket), store)
  | some old =>
  match encodeKey key with
  | .error e => (.error e, store)
  | .ok encoded =>
  match failure body with
  | some e => (.error (.Io e), store)
  | none =>
      if key = [] then (.error (.Io (.os .EISDIR)), store)
      else
        let objects := old.objects.insert encoded (delivered body)
        match old.sidecars with
        | none =>
            (.error (.Io (.os .ENOENT)), store.setBucket bucket { old with objects := objects })
        | some sidecars =>
            if exceeds nameMax (FsStorage.sidecarName encoded) then
              (.error (.Io (.os .ENAMETOOLONG)),
                store.setBucket bucket { old with objects := objects })
            else
              let objectMeta : ObjectMeta :=
                ⟨key, (delivered body).length, contentType.getD defaultContentType,
                  hexMd5 crates (delivered body), time⟩
              (.ok objectMeta, store.setBucket bucket
                { old with
                  objects := objects
                  sidecars := some (sidecars.insert (FsStorage.sidecarName encoded) objectMeta) })

/-- The bucket after a whole put. -/
def storedBucket (old : Bucket) (sidecars : Names ObjectMeta) (encoded : Str) (content : Bytes)
    (objectMeta : ObjectMeta) : Bucket :=
  { old with
    objects := old.objects.insert encoded content
    sidecars := some (sidecars.insert (FsStorage.sidecarName encoded) objectMeta) }

theorem put_made {bucket key encoded : Str} {body : Body} {old : Bucket} {sidecars : Names ObjectMeta}
    (contentType : Option Str) (time : Nat) (valid : validateBucketName bucket = .ok ())
    (present : store.buckets.lookup bucket = some old) (admitted : encodeKey key = .ok encoded)
    (whole : failure body = none) (nonempty : key ≠ []) (kept : old.sidecars = some sidecars)
    (short : exceeds nameMax (FsStorage.sidecarName encoded) = false) :
    ∃ objectMeta : ObjectMeta, objectMeta = ⟨key, (delivered body).length,
        contentType.getD defaultContentType, hexMd5 crates (delivered body), time⟩ ∧
      store.putObject crates nameMax bucket key body contentType time =
        (.ok objectMeta,
          store.setBucket bucket (storedBucket old sidecars encoded (delivered body) objectMeta)) := by
  refine ⟨_, rfl, ?_⟩
  simp [putObject, valid, present, admitted, whole, nonempty, kept, short, storedBucket]

/-- What a put that answers `Ok` has found and done. -/
theorem put_ok {bucket key : Str} {body : Body} {contentType : Option Str} {time : Nat}
    {objectMeta : ObjectMeta}
    (answered : (store.putObject crates nameMax bucket key body contentType time).1 = .ok objectMeta) :
    ∃ old encoded sidecars, validateBucketName bucket = .ok () ∧
      store.buckets.lookup bucket = some old ∧ encodeKey key = .ok encoded ∧ failure body = none ∧
      key ≠ [] ∧ old.sidecars = some sidecars ∧
      exceeds nameMax (FsStorage.sidecarName encoded) = false ∧
      objectMeta = ⟨key, (delivered body).length, contentType.getD defaultContentType,
        hexMd5 crates (delivered body), time⟩ ∧
      (store.putObject crates nameMax bucket key body contentType time).2 =
        store.setBucket bucket (storedBucket old sidecars encoded (delivered body) objectMeta) := by
  unfold putObject at answered ⊢
  cases valid : validateBucketName bucket with
  | error e => simp [valid] at answered
  | ok _ =>
  cases present : store.buckets.lookup bucket with
  | none => simp [valid, present] at answered
  | some old =>
  cases admitted : encodeKey key with
  | error e => simp [valid, present, admitted] at answered
  | ok encoded =>
  cases whole : failure body with
  | some e => simp [valid, present, admitted, whole] at answered
  | none =>
  simp only [valid, present, admitted, whole] at answered ⊢
  by_cases empty : key = []
  · simp [empty] at answered
  simp only [if_neg empty] at answered ⊢
  cases kept : old.sidecars with
  | none => simp [kept] at answered
  | some sidecars =>
  simp only [kept] at answered ⊢
  cases long : exceeds nameMax (FsStorage.sidecarName encoded) with
  | true => simp [long] at answered
  | false =>
      simp only [long, Bool.false_eq_true, if_false, Except.ok.injEq] at answered ⊢
      subst answered
      exact ⟨old, encoded, sidecars, trivial, rfl, rfl, trivial, empty, kept, long, rfl, rfl⟩

def headObject (bucket key : Str) : Except StorageError ObjectMeta :=
  match validateBucketName bucket with
  | .error e => .error e
  | .ok () =>
  match encodeKey key with
  | .error e => .error e
  | .ok encoded =>
      let missing := StorageError.NoSuchKey (storage.metaPath bucket encoded).display
      match (store.buckets.lookup bucket).bind Bucket.sidecars with
      | none => .error missing
      | some sidecars =>
          if exceeds nameMax (FsStorage.sidecarName encoded) then .error (.Io (.os .ENAMETOOLONG))
          else
            match sidecars.lookup (FsStorage.sidecarName encoded) with
            | none => .error missing
            | some objectMeta => .ok objectMeta

/-- The body stored under a key. -/
def bodyOf (bucket key : Str) : Option Bytes :=
  (store.buckets.lookup bucket).bind fun old =>
    (encodeKey key).toOption.bind fun encoded => old.objects.lookup encoded

def getObject (bucket key : Str) : Except StorageError (ObjectMeta × Bytes) :=
  match store.headObject storage nameMax bucket key with
  | .error e => .error e
  | .ok objectMeta =>
      match store.bodyOf bucket key with
      | some body => .ok (objectMeta, body)
      | none => .error (.NoSuchKey (((encodeKey key).toOption.map fun encoded =>
          (storage.objectPath bucket encoded).display).getD []))

def deleteObject (bucket key : Str) : Except StorageError Unit × Store :=
  match validateBucketName bucket with
  | .error e => (.error e, store)
  | .ok () =>
  match encodeKey key with
  | .error e => (.error e, store)
  | .ok encoded =>
  match store.buckets.lookup bucket with
  | none => (.error (.NoSuchKey key), store)
  | some old =>
      if key = [] then (.error (.Io (.os .EISDIR)), store)
      else
        match old.objects.lookup encoded with
        | none => (.error (.NoSuchKey key), store)
        | some _ =>
            let bare := { old with objects := old.objects.erase encoded }
            match old.sidecars with
            | none => (.ok (), store.setBucket bucket bare)
            | some sidecars =>
                if exceeds nameMax (FsStorage.sidecarName encoded) then
                  (.error (.Io (.os .ENAMETOOLONG)), store.setBucket bucket bare)
                else
                  (.ok (), store.setBucket bucket
                    { bare with sidecars := some (sidecars.erase (FsStorage.sidecarName encoded)) })

/-- The bucket records, for one order of the bucket directories. -/
def bucketInfos (order : List Str) : List BucketInfo :=
  order.filterMap fun name => (store.buckets.lookup name).bind Bucket.info

/-- The keys that a scan of the bucket finds, in one order of many. -/
def scannedKeys (bucket : Bucket) : List Str :=
  (bucket.objects.keys.sort (· ≤ ·)).filterMap fun name => (decodeKey name).toOption

/-- The output loop of a listing: one record for each object. -/
def pageItems (bucket : Str) : List Item → Except StorageError (List ObjectMeta × List Str)
  | [] => .ok ([], [])
  | .object key :: rest =>
      match store.headObject storage nameMax bucket key with
      | .error e => .error e
      | .ok objectMeta =>
          (pageItems bucket rest).map fun later => (objectMeta :: later.1, later.2)
  | .commonPrefix cp :: rest =>
      (pageItems bucket rest).map fun later => (later.1, cp :: later.2)

def listObjectsV2 (bucket : Str) (req : ListV2Req) : Except StorageError ListV2Res :=
  match validateBucketName bucket with
  | .error e => .error e
  | .ok () =>
  match store.buckets.lookup bucket with
  | none => .error (.NoSuchBucket bucket)
  | some old =>
  match selectKeys (scannedKeys old) req with
  | .error e => .error e
  | .ok keys =>
      let page := capPage req keys
      (store.pageItems storage nameMax bucket page.capped).map fun found =>
        ⟨found.1, found.2.insertionSort (· ≤ ·), page.nextContinuationToken, page.isTruncated⟩

def createMultipartUpload (bucket key : Str) (contentType : Option Str) (id : Str) :
    Except StorageError Str × Store :=
  match validateBucketName bucket with
  | .error e => (.error e, store)
  | .ok () =>
      match store.buckets.lookup bucket with
      | none => (.error (.NoSuchBucket bucket), store)
      | some _ => (.ok id, store.setUpload id ⟨⟨bucket, key, contentType⟩, ∅⟩)

def uploadPart (uploadId : Str) (partNumber : Int) (body : Body) : Except StorageError Str × Store :=
  if partNumber ≤ 0 then (.error (.InvalidPartNumber partNumber), store)
  else
    match store.staged.lookup uploadId with
    | none => (.error (.NoSuchUpload uploadId), store)
    | some upload =>
        match failure body with
        | some e => (.error (.Io e), store)
        | none =>
            (.ok (hexMd5 crates (delivered body)), store.setUpload uploadId
              { upload with
                parts := upload.parts.insert (FsStorage.partName partNumber) (delivered body) })

theorem live_setUpload (id : Str) (upload : Upload) :
    (store.setUpload id upload).staged.lookup id = some upload := Finmap.lookup_insert _

theorem part_made {upload : Upload} {uploadId : Str} {partNumber : Int} {body : Body}
    (live : store.staged.lookup uploadId = some upload) (positive : ¬ partNumber ≤ 0)
    (whole : failure body = none) :
    store.uploadPart crates uploadId partNumber body =
      (.ok (hexMd5 crates (delivered body)), store.setUpload uploadId
        { upload with
          parts := upload.parts.insert (FsStorage.partName partNumber) (delivered body) }) := by
  simp [uploadPart, positive, live, whole]

/-- The parts of an upload one after the other, unless one is missing. -/
def assembled (upload : Upload) : List Int → Option Bytes
  | [] => some []
  | number :: rest =>
      match upload.parts.lookup (FsStorage.partName number) with
      | none => none
      | some content => (assembled upload rest).map fun later => content ++ later

def completeMultipartUpload (key uploadId : Str) (parts : List Int) (time : Nat) :
    Except StorageError ObjectMeta × Store :=
  match store.staged.lookup uploadId with
  | none =>
      (.error (.NoSuchUpload ((storage.uploadDir uploadId).join multipartJsonName).display), store)
  | some upload =>
      let bucket := upload.record.bucket
      let old := (store.buckets.lookup bucket).getD .bare
      match encodeKey key with
      | .error e => (.error e, store.setBucket bucket old)
      | .ok encoded =>
      match assembled upload (parts.insertionSort (· ≤ ·)) with
      | none => (.error (.Io (.os .ENOENT)), store.setBucket bucket old)
      | some body =>
          if key = [] then (.error (.Io (.os .EISDIR)), store.setBucket bucket old)
          else
            let objects := old.objects.insert encoded body
            match old.sidecars with
            | none =>
                (.error (.Io (.os .ENOENT)), store.setBucket bucket { old with objects := objects })
            | some sidecars =>
                let objectMeta : ObjectMeta :=
                  ⟨upload.record.key, body.length,
                    upload.record.contentType.getD defaultContentType,
                    hexMd5 crates body ++ '-' :: (toString parts.length).toList, time⟩
                (.ok objectMeta, (store.setBucket bucket
                  { old with
                    objects := objects
                    sidecars := some (sidecars.insert (FsStorage.sidecarName encoded) objectMeta) }
                  ).dropUpload uploadId)

def abortMultipartUpload (uploadId : Str) : Except StorageError Unit × Store :=
  match store.staged.lookup uploadId with
  | none => (.error (.NoSuchUpload uploadId), store)
  | some _ => (.ok (), store.dropUpload uploadId)

end Store
end Ferrobucket
