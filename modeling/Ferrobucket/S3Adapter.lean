import Ferrobucket.BatchDelete
import Ferrobucket.Completion
import Ferrobucket.MapModel
/-! The S3 service as its clients meet it: every operation of the adapter over the storage, from
the fields of the request that it reads to the fields of the response that it sets. -/
namespace Ferrobucket
open Text Posix Program

/-! ### Outputs -/

structure PutObjectOutput where
  eTag : Option Str
  deriving DecidableEq

structure HeadObjectOutput where
  eTag : Option Str
  contentType : Option Str
  contentLength : Option Int64
  lastModified : Option Nat
  deriving DecidableEq

/-- `s3s::dto::Bucket`. -/
structure S3ListedBucket where
  name : Option Str
  creationDate : Option Nat
  deriving DecidableEq

structure ListBucketsOutput where
  buckets : Option (List S3ListedBucket)
  deriving DecidableEq

structure CreateMultipartUploadOutput where
  bucket : Option Str
  key : Option Str
  uploadId : Option Str
  deriving DecidableEq

structure UploadPartOutput where
  eTag : Option Str
  deriving DecidableEq

/-- `s3s::dto::Object`. -/
structure S3ListedObject where
  key : Option Str
  size : Option Int64
  eTag : Option Str
  lastModified : Option Nat
  deriving DecidableEq

structure ListObjectsV2Input where
  bucket : Str
  pfx : Option Str := none
  delimiter : Option Str := none
  maxKeys : Option Int32 := none
  continuationToken : Option Str := none

structure ListObjectsV2Output where
  contents : Option (List S3ListedObject)
  commonPrefixes : Option (List Str)
  isTruncated : Option Bool
  nextContinuationToken : Option Str
  keyCount : Option Int32
  name : Option Str
  deriving DecidableEq

/-- `s3_error!(InvalidRequest, "missing body")`. -/
def missingBody : S3Error := { code := .InvalidRequest, message := some "missing body".toList }

/-- `n as usize` of an `i32`. -/
def i32AsUsize (n : Int32) : Nat := n.toInt64.toUInt64.toNat

/-- `n as i64` of a size. -/
def sizeAsI64 (size : Nat) : Int64 := (UInt64.ofNat size).toInt64

section Adapter
variable (crates : Crates) (storage : FsStorage)

/-! ### Operations -/

def s3PutObject (bucket key : Str) (body : Option Body) (contentType : Option Str) :
    S3Op (S3Response PutObjectOutput) :=
  match body with
  | none => throw missingBody
  | some blob => do
      let objectMeta ← served (putObject crates storage bucket key blob contentType)
      pure { output := { eTag := some objectMeta.etag } }

def s3HeadObject (bucket key : Str) : S3Op (S3Response HeadObjectOutput) := do
  let objectMeta ← served (headObject crates storage bucket key)
  pure { output :=
    { eTag := some objectMeta.etag
      contentType := some objectMeta.contentType
      contentLength := some (sizeAsI64 objectMeta.size)
      lastModified := some objectMeta.lastModified } }

def s3DeleteObject (bucket key : Str) : S3Op (S3Response Unit) := do
  served (deleteObject storage bucket key)
  pure { output := () }

def s3CreateBucket (bucket : Str) : S3Op (S3Response Unit) := do
  served (createBucket crates storage bucket)
  pure { output := () }

def s3DeleteBucket (bucket : Str) : S3Op (S3Response Unit) := do
  served (deleteBucket storage bucket)
  pure { output := () }

def s3ListBuckets : S3Op (S3Response ListBucketsOutput) := do
  let infos ← served (listBuckets crates storage)
  pure { output :=
    { buckets := some (infos.map fun info => ⟨some info.name, some info.createdAt⟩) } }

def s3HeadBucket (bucket : Str) : S3Op (S3Response Unit) := do
  headBucket crates storage bucket
  pure { output := () }

def s3CreateMultipartUpload (bucket key : Str) (contentType : Option Str) :
    S3Op (S3Response CreateMultipartUploadOutput) := do
  let uploadId ← served (createMultipartUpload crates storage bucket key contentType)
  pure { output := { bucket := some bucket, key := some key, uploadId := some uploadId } }

def s3UploadPart (bucket uploadId : Str) (partNumber : Int32) (body : Option Body) :
    S3Op (S3Response UploadPartOutput) :=
  match body with
  | none => throw missingBody
  | some blob => do
      let etag ← served (uploadPart crates storage bucket uploadId partNumber.toInt blob)
      pure { output := { eTag := some etag } }

def s3AbortMultipartUpload (bucket uploadId : Str) : S3Op (S3Response Unit) := do
  served (abortMultipartUpload storage bucket uploadId)
  pure { output := () }

def ListObjectsV2Input.request (input : ListObjectsV2Input) : ListV2Req :=
  ⟨input.pfx, input.delimiter, input.continuationToken, input.maxKeys.map i32AsUsize⟩

/-- `Object` of the record of an object. -/
def listedObject (objectMeta : ObjectMeta) : S3ListedObject :=
  ⟨some objectMeta.key, some (sizeAsI64 objectMeta.size), some objectMeta.etag,
    some objectMeta.lastModified⟩

/-- The response over a page: lists without entries are left out. -/
def listObjectsOutput (bucket : Str) (res : ListV2Res) : ListObjectsV2Output :=
  let contents := res.objects.map listedObject
  { contents := if contents.isEmpty then none else some contents
    commonPrefixes := if res.commonPrefixes.isEmpty then none else some res.commonPrefixes
    isTruncated := some res.isTruncated
    nextContinuationToken := res.nextContinuationToken
    keyCount := some (Int32.ofNat (contents.length + res.commonPrefixes.length))
    name := some bucket }

def s3ListObjectsV2 (input : ListObjectsV2Input) : S3Op (S3Response ListObjectsV2Output) := do
  let res ← served (listObjectsV2 crates storage input.bucket input.request)
  pure { output := listObjectsOutput input.bucket res }

end Adapter

/-! ### Requests and replies -/

/-- An upload id of the form in which the server issues them. -/
abbrev UploadId := { id : Str // isUuid id = true }

/-- A request of an S3 client. The router reads the key of an object from the path and never
hands over an empty one. -/
inductive S3Request where
  | putObject (bucket : Str) (key : ObjectKey) (body : Option Body) (contentType : Option Str)
  | getObject (bucket : Str) (key : ObjectKey) (range : Option S3Range)
  | headObject (bucket : Str) (key : ObjectKey)
  | deleteObject (bucket : Str) (key : ObjectKey)
  | deleteObjects (bucket : Str) (delete : Delete)
  | createBucket (bucket : Str)
  | deleteBucket (bucket : Str)
  | listBuckets
  | headBucket (bucket : Str)
  | createMultipartUpload (bucket : Str) (key : ObjectKey) (contentType : Option Str)
  | uploadPart (bucket : Str) (uploadId : UploadId) (partNumber : Int32) (body : Option Body)
  | completeMultipartUpload (bucket : Str) (key : ObjectKey) (uploadId : UploadId)
      (multipartUpload : Option CompletedMultipartUpload)
  | abortMultipartUpload (bucket : Str) (uploadId : UploadId)
  | listObjectsV2 (input : ListObjectsV2Input)

/-- What a client sees of a response to `get_object`: the headers and the whole body. -/
structure Downloaded where
  status : StatusCode
  eTag : Str
  contentType : Str
  contentLength : Int64
  lastModified : Nat
  acceptRanges : Str
  contentRange : Option Str
  bytes : Bytes
  deriving DecidableEq

def downloaded (found : S3Response GetObjectOutput × Bytes) : Downloaded :=
  { status := found.1.status
    eTag := found.1.output.eTag
    contentType := found.1.output.contentType
    contentLength := found.1.output.contentLength
    lastModified := found.1.output.lastModified
    acceptRanges := found.1.output.acceptRanges
    contentRange := found.1.output.contentRange
    bytes := found.2 }

inductive S3Reply where
  | done
  | put (output : PutObjectOutput)
  | got (response : Downloaded)
  | head (output : HeadObjectOutput)
  | batch (output : DeleteObjectsOutput)
  | buckets (output : ListBucketsOutput)
  | upload (output : CreateMultipartUploadOutput)
  | part (output : UploadPartOutput)
  | completed (output : CompleteMultipartUploadOutput)
  | page (output : ListObjectsV2Output)

abbrev S3Outcome := Except S3Error S3Reply

section Serving
variable (crates : Crates) (storage : FsStorage) (texts : Texts)

def s3Handle : S3Request → S3Op S3Reply
  | .putObject bucket key body contentType => do
      let response ← s3PutObject crates storage bucket key body contentType
      pure (.put response.output)
  | .getObject bucket key range => do
      let found ← s3Download crates storage bucket key range
      pure (.got (downloaded found))
  | .headObject bucket key => do
      let response ← s3HeadObject crates storage bucket key
      pure (.head response.output)
  | .deleteObject bucket key => do
      let _ ← s3DeleteObject storage bucket key
      pure .done
  | .deleteObjects bucket delete => do
      let response ← s3DeleteObjects storage texts bucket delete
      pure (.batch response.output)
  | .createBucket bucket => do
      let _ ← s3CreateBucket crates storage bucket
      pure .done
  | .deleteBucket bucket => do
      let _ ← s3DeleteBucket storage bucket
      pure .done
  | .listBuckets => do
      let response ← s3ListBuckets crates storage
      pure (.buckets response.output)
  | .headBucket bucket => do
      let _ ← s3HeadBucket crates storage bucket
      pure .done
  | .createMultipartUpload bucket key contentType => do
      let response ← s3CreateMultipartUpload crates storage bucket key contentType
      pure (.upload response.output)
  | .uploadPart bucket uploadId partNumber body => do
      let response ← s3UploadPart crates storage bucket uploadId partNumber body
      pure (.part response.output)
  | .completeMultipartUpload bucket key uploadId multipartUpload => do
      let response ← s3CompleteMultipartUpload crates storage bucket key uploadId multipartUpload
      pure (.completed response.output)
  | .abortMultipartUpload bucket uploadId => do
      let _ ← s3AbortMultipartUpload storage bucket uploadId
      pure .done
  | .listObjectsV2 input => do
      let response ← s3ListObjectsV2 crates storage input
      pure (.page response.output)

/-- The requests of a run, each with what it was answered. -/
inductive S3Served : FS → List (S3Request × S3Outcome) → FS → Prop
  | nil (s : FS) : S3Served s [] s
  | cons {s middle t : FS} {request : S3Request} {outcome : S3Outcome}
      {later : List (S3Request × S3Outcome)}
      (run : Runs faultFree (s3Handle crates storage texts request) s outcome middle)
      (rest : S3Served middle later t) : S3Served s ((request, outcome) :: later) t

end Serving
end Ferrobucket
