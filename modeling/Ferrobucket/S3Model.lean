import Ferrobucket.S3Adapter
/-! What the S3 service is for: buckets of objects and uploads of parts, kept under the names that
clients give them. Every request is answered from these alone; the moments, the new upload ids and
the order in which buckets are listed are the service's to choose. -/
namespace Ferrobucket
open Text Posix Program Grouping

/-! ### State -/

structure S3Object where
  bytes : Bytes
  contentType : Str
  eTag : Str
  lastModified : Nat
  deriving DecidableEq

structure S3Bucket where
  creationDate : Nat
  objects : Names S3Object

structure S3Upload where
  bucket : Str
  key : Str
  contentType : Option Str
  parts : Int → Option Bytes

structure S3Model where
  buckets : Names S3Bucket
  uploads : Names S3Upload

def S3Object.record (key : Str) (object : S3Object) : ObjectMeta :=
  ⟨key, object.bytes.length, object.contentType, object.eTag, object.lastModified⟩

/-- The object that an upload becomes with these parts, unless one is missing. -/
def S3Upload.joined (upload : S3Upload) (parts : List Int) : Option Bytes :=
  (parts.mapM upload.parts).map List.flatten

/-- The keys with the prefix, behind the token. -/
def S3Bucket.selected (bucket : S3Bucket) (req : ListV2Req) (token : Option Str) : List Str :=
  (bucket.objects.keys.sort (· ≤ ·)).filter fun key =>
    startsWith key (req.pfx.getD []) ∧ ∀ last ∈ token, last < key

/-- What the service decides by itself. -/
structure S3Choice where
  time : Nat
  uploadId : Str
  order : List Str

namespace S3Model

def empty : S3Model := ⟨∅, ∅⟩

variable (crates : Crates) (texts : Texts) (model : S3Model)

def setBucket (name : Str) (bucket : S3Bucket) : S3Model :=
  { model with buckets := model.buckets.insert name bucket }

def setUpload (uploadId : Str) (upload : S3Upload) : S3Model :=
  { model with uploads := model.uploads.insert uploadId upload }

def setObject (name key : Str) (object : S3Object) : S3Model :=
  match model.buckets.lookup name with
  | none => model
  | some bucket => model.setBucket name { bucket with objects := bucket.objects.insert key object }

/-! ### Operations -/

def createBucket (name : Str) (time : Nat) : Except StorageError Unit × S3Model :=
  match validateBucketName name with
  | .error e => (.error e, model)
  | .ok () =>
  match model.buckets.lookup name with
  | some _ => (.error (.BucketAlreadyExists name), model)
  | none => (.ok (), model.setBucket name ⟨time, ∅⟩)

def deleteBucket (name : Str) : Except StorageError Unit × S3Model :=
  match validateBucketName name with
  | .error e => (.error e, model)
  | .ok () =>
  match model.buckets.lookup name with
  | none => (.error (.NoSuchBucket name), model)
  | some bucket =>
      if bucket.objects = ∅ then (.ok (), { model with buckets := model.buckets.erase name })
      else (.error (.BucketNotEmpty name), model)

def listedBuckets (order : List Str) : List S3ListedBucket :=
  order.filterMap fun name =>
    (model.buckets.lookup name).map fun bucket => ⟨some name, some bucket.creationDate⟩

def putObject (bucket key : Str) (body : Body) (contentType : Option Str) (time : Nat) :
    Except StorageError S3Object × S3Model :=
  match validateBucketName bucket with
  | .error e => (.error e, model)
  | .ok () =>
  match model.buckets.lookup bucket with
  | none => (.error (.NoSuchBucket bucket), model)
  | some _ =>
  match encodeKey key with
  | .error e => (.error e, model)
  | .ok _ =>
  match failure body with
  | some e => (.error (.Io e), model)
  | none =>
      let object : S3Object := ⟨delivered body, contentType.getD defaultContentType,
        hexMd5 crates (delivered body), time⟩
      (.ok object, model.setObject bucket key object)

def findObject (bucket key : Str) : Except StorageError S3Object :=
  match validateBucketName bucket with
  | .error e => .error e
  | .ok () =>
  match encodeKey key with
  | .error e => .error e
  | .ok _ =>
  match (model.buckets.lookup bucket).bind fun found => found.objects.lookup key with
  | none => .error (.NoSuchKey key)
  | some object => .ok object

/-- The empty key stands for the directory of the objects. -/
def deleteObject (bucket key : Str) : Except StorageError Unit × S3Model :=
  match validateBucketName bucket with
  | .error e => (.error e, model)
  | .ok () =>
  match encodeKey key with
  | .error e => (.error e, model)
  | .ok _ =>
  match model.buckets.lookup bucket with
  | none => (.error (.NoSuchKey key), model)
  | some found =>
      if key = [] then (.error (.Io (.os .EISDIR)), model)
      else
        match found.objects.lookup key with
        | none => (.error (.NoSuchKey key), model)
        | some _ => (.ok (), model.setBucket bucket { found with objects := found.objects.erase key })

/-- The keys one after the other, with the entries of the answer. -/
def deleteObjects (bucket : Str) (quiet : Bool) :
    List ObjectIdentifier → S3Model → (List DeletedObject × List DeleteError) × S3Model
  | [], model => (([], []), model)
  | obj :: rest, model =>
      let (outcome, next) := model.deleteObject bucket obj.key
      let ((deleted, errors), after) := deleteObjects bucket quiet rest next
      match outcome with
      | .ok () | .error (.NoSuchKey _) =>
          ((if quiet then deleted else ⟨some obj.key⟩ :: deleted, errors), after)
      | .error e =>
          ((deleted, ⟨some "InternalError".toList, some obj.key, some (e.text texts)⟩ :: errors), after)

/-- The first entries of the keys that are selected, as many as may be. -/
def page (bucket : Str) (req : ListV2Req) : Except StorageError ListV2Res :=
  match validateBucketName bucket with
  | .error e => .error e
  | .ok () =>
  match model.buckets.lookup bucket with
  | none => .error (.NoSuchBucket bucket)
  | some found =>
  match req.continuationToken.mapM decodeContinuationToken with
  | .error e => .error e
  | .ok token =>
      let entries := pageEntries req (found.selected req token)
      let shown := entries.take (effectiveMaxKeys req)
      let more := effectiveMaxKeys req < entries.length
      .ok
        { objects := (shown.filterMap Entry.alone).filterMap fun key =>
            (found.objects.lookup key).map (S3Object.record key)
          commonPrefixes := shown.filterMap Entry.label
          nextContinuationToken :=
            if more then shown.getLast?.map fun entry => encodeContinuationToken entry.last else none
          isTruncated := more }

def createMultipartUpload (bucket key : Str) (contentType : Option Str) (uploadId : Str) :
    Except StorageError Str × S3Model :=
  match validateBucketName bucket with
  | .error e => (.error e, model)
  | .ok () =>
  match model.buckets.lookup bucket with
  | none => (.error (.NoSuchBucket bucket), model)
  | some _ => (.ok uploadId, model.setUpload uploadId ⟨bucket, key, contentType, fun _ => none⟩)

def uploadPart (uploadId : Str) (partNumber : Int) (body : Body) : Except StorageError Str × S3Model :=
  if partNumber ≤ 0 then (.error (.InvalidPartNumber partNumber), model)
  else
    match model.uploads.lookup uploadId with
    | none => (.error (.NoSuchUpload uploadId), model)
    | some upload =>
        match failure body with
        | some e => (.error (.Io e), model)
        | none =>
            (.ok (hexMd5 crates (delivered body)), model.setUpload uploadId
              { upload with parts := Function.update upload.parts partNumber (some (delivered body)) })

def completeMultipartUpload (key uploadId : Str) (parts : List Int) (time : Nat) :
    Except StorageError S3Object × S3Model :=
  match model.uploads.lookup uploadId with
  | none => (.error (.NoSuchUpload uploadId), model)
  | some upload =>
  match encodeKey key with
  | .error e => (.error e, model)
  | .ok _ =>
  match upload.joined (parts.insertionSort (· ≤ ·)) with
  | none => (.error (.Io (.os .ENOENT)), model)
  | some bytes =>
      let object : S3Object := ⟨bytes, upload.contentType.getD defaultContentType,
        hexMd5 crates bytes ++ '-' :: (toString parts.length).toList, time⟩
      let stored := model.setObject upload.bucket key object
      (.ok object, { stored with uploads := stored.uploads.erase uploadId })

def abortMultipartUpload (uploadId : Str) : Except StorageError Unit × S3Model :=
  match model.uploads.lookup uploadId with
  | none => (.error (.NoSuchUpload uploadId), model)
  | some _ => (.ok (), { model with uploads := model.uploads.erase uploadId })

end S3Model

/-! ### Answers -/

/-- What a download of an object shows. An empty window is announced as the whole object. -/
def S3Object.download (object : S3Object) (range : Option S3Range) : Except StorageError Downloaded :=
  let fullSize := UInt64.ofNat object.bytes.length
  let whole : Downloaded := ⟨.ok, object.eTag, object.contentType, fullSize.toInt64, object.lastModified,
    "bytes".toList, none, object.bytes⟩
  match range with
  | none => .ok whole
  | some range =>
      match (s3RangeToByteRange range).resolve fullSize with
      | none => .error .RangeNotSatisfiable
      | some window =>
          if window.length > 0 then
            .ok { whole with
              status := .partialContent
              contentLength := window.length.toInt64
              contentRange := some (contentRangeText window.start
                (window.start + saturatingSub window.length 1) fullSize)
              bytes := (object.bytes.drop window.start.toNat).take window.length.toNat }
          else .ok { whole with bytes := [] }

def S3Object.head (object : S3Object) : HeadObjectOutput :=
  ⟨some object.eTag, some object.contentType, some (sizeAsI64 object.bytes.length),
    some object.lastModified⟩

/-- An answer of the storage as a client of the service sees it. -/
def seen {Value : Type} (shown : Value → S3Reply) (outcome : Except StorageError Value) : S3Outcome :=
  (outcome.mapError mapStorageErr).map shown

/-- The answer of the service and the state behind it. -/
def S3Model.respond (crates : Crates) (texts : Texts) (choice : S3Choice) (model : S3Model) :
    S3Request → S3Outcome × S3Model
  | .putObject bucket key body contentType =>
      match body with
      | none => (.error missingBody, model)
      | some blob =>
          let (outcome, after) := model.putObject crates bucket key blob contentType choice.time
          (seen (fun object => .put ⟨some object.eTag⟩) outcome, after)
  | .getObject bucket key range =>
      (seen .got ((model.findObject bucket key).bind fun object => object.download range), model)
  | .headObject bucket key =>
      (seen (fun object => .head object.head) (model.findObject bucket key), model)
  | .deleteObject bucket key =>
      let (outcome, after) := model.deleteObject bucket key
      (seen (fun _ => .done) outcome, after)
  | .deleteObjects bucket delete =>
      let ((deleted, errors), after) :=
        S3Model.deleteObjects texts bucket (delete.quiet.getD false) delete.objects model
      (.ok (.batch ⟨if deleted.isEmpty then none else some deleted,
        if errors.isEmpty then none else some errors⟩), after)
  | .createBucket bucket =>
      let (outcome, after) := model.createBucket bucket choice.time
      (seen (fun _ => .done) outcome, after)
  | .deleteBucket bucket =>
      let (outcome, after) := model.deleteBucket bucket
      (seen (fun _ => .done) outcome, after)
  | .listBuckets => (.ok (.buckets ⟨some (model.listedBuckets choice.order)⟩), model)
  | .headBucket bucket =>
      (if bucket ∈ model.buckets then .ok .done else .error { code := .NoSuchBucket }, model)
  | .createMultipartUpload bucket key contentType =>
      let (outcome, after) := model.createMultipartUpload bucket key contentType choice.uploadId
      (seen (fun id => .upload ⟨some bucket, some key, some id⟩) outcome, after)
  | .uploadPart _ uploadId partNumber body =>
      match body with
      | none => (.error missingBody, model)
      | some blob =>
          let (outcome, after) := model.uploadPart crates uploadId partNumber.toInt blob
          (seen (fun eTag => .part ⟨some eTag⟩) outcome, after)
  | .completeMultipartUpload bucket key uploadId multipartUpload =>
      let (outcome, after) := model.completeMultipartUpload crates key uploadId
        ((requestedParts multipartUpload).map Int32.toInt) choice.time
      (seen (fun object => .completed ⟨some bucket, some key.val, some object.eTag,
        some ('/' :: bucket ++ '/' :: key)⟩) outcome, after)
  | .abortMultipartUpload _ uploadId =>
      let (outcome, after) := model.abortMultipartUpload uploadId
      (seen (fun _ => .done) outcome, after)
  | .listObjectsV2 input =>
      (seen (fun res => .page (listObjectsOutput input.bucket res)) (model.page input.bucket input.request),
        model)

/-- The choices that the service may make: an upload gets an id that is not in use, and the buckets
are listed in some order. -/
structure S3Model.Allows (model : S3Model) (request : S3Request) (outcome : S3Outcome)
    (choice : S3Choice) : Prop where
  fresh : ∀ bucket key contentType, request = .createMultipartUpload bucket key contentType →
    outcome.isOk = true → isUuid choice.uploadId = true ∧ choice.uploadId ∉ model.uploads
  order : request = .listBuckets → (choice.order : Multiset Str) = model.buckets.keys.val

/-- A conversation with the service, one request after the other. -/
inductive S3Model.Answers (crates : Crates) (texts : Texts) :
    S3Model → List (S3Request × S3Outcome) → S3Model → Prop
  | nil (model : S3Model) : Answers crates texts model [] model
  | cons {model after : S3Model} {request : S3Request} {outcome : S3Outcome} {choice : S3Choice}
      {later : List (S3Request × S3Outcome)}
      (answered : outcome = (model.respond crates texts choice request).1)
      (allowed : model.Allows request outcome choice)
      (rest : Answers crates texts (model.respond crates texts choice request).2 later after) :
      Answers crates texts model ((request, outcome) :: later) after

end Ferrobucket
