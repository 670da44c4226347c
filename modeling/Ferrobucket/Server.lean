import Ferrobucket.Storage
/-! What the S3 service adds to the storage: error codes, and the existence of a bucket
as a search among all of them. -/
namespace Ferrobucket
open Text Posix Program

inductive S3ErrorCode where
  | NoSuchBucket
  | NoSuchKey
  | BucketNotEmpty
  | BucketAlreadyOwnedByYou
  | InvalidBucketName
  | KeyTooLongError
  | InvalidRequest
  | InvalidArgument
  | InvalidRange
  | NoSuchUpload
  | InternalError
  deriving DecidableEq

structure S3Error where
  code : S3ErrorCode
  message : Option Str := none
  deriving DecidableEq

def mapStorageErr : StorageError → S3Error
  | .NoSuchBucket _ => { code := .NoSuchBucket }
  | .NoSuchKey _ => { code := .NoSuchKey }
  | .BucketNotEmpty _ => { code := .BucketNotEmpty }
  | .BucketAlreadyExists _ => { code := .BucketAlreadyOwnedByYou }
  | .InvalidBucketName text =>
      { code := .InvalidBucketName, message := some ("invalid bucket name: ".toList ++ text) }
  | .KeyTooLong _ => { code := .KeyTooLongError }
  | .InvalidKey => { code := .InvalidRequest, message := some "invalid key".toList }
  | .InvalidContinuationToken =>
      { code := .InvalidArgument, message := some "invalid continuation token".toList }
  | .RangeNotSatisfiable => { code := .InvalidRange }
  | .NoSuchUpload _ => { code := .NoSuchUpload }
  | .InvalidPartNumber number =>
      { code := .InvalidArgument
        message := some ("part number must be positive: ".toList ++ FsStorage.partName number) }
  | .Io _ => { code := .InternalError, message := some "I/O error".toList }

abbrev S3Op := Prog Call Reply S3Error

/-- `map_err(map_storage_err)?` on a call of the storage. -/
def served {Value : Type} (call : Op Value) : S3Op Value := do
  Prog.ofExcept ((← call.attempt).mapError mapStorageErr)

variable (crates : Crates) (storage : FsStorage)

/-- Existence is looked up among the buckets that are listed. -/
def headBucket (bucket : Str) : S3Op Unit := do
  let infos ← served (listBuckets crates storage)
  if infos.any (fun info => info.name = bucket) then pure ()
  else throw { code := .NoSuchBucket }

/-! ### Ranged reads -/

/-- `s3s::dto::Range`. -/
inductive S3Range where
  | int (first : UInt64) (last : Option UInt64)
  | suffix (length : UInt64)

def s3RangeToByteRange : S3Range → ByteRange
  | .int first none => .openFrom first
  | .int first (some last) => .full first last
  | .suffix length => .suffix length

inductive StatusCode where
  | ok
  | partialContent
  deriving DecidableEq

structure GetObjectOutput where
  body : ObjectStream
  eTag : Str
  contentType : Str
  contentLength : Int64
  lastModified : Nat
  acceptRanges : Str
  contentRange : Option Str := none

structure S3Response (Output : Type) where
  output : Output
  status : StatusCode := .ok

/-- `u64::saturating_sub`. -/
def saturatingSub (left right : UInt64) : UInt64 := if right ≤ left then left - right else 0

def decimal (n : UInt64) : Str := (toString n.toNat).toList

/-- `format!("bytes {start}-{end}/{full_size}")`. -/
def contentRangeText (start last fullSize : UInt64) : Str :=
  "bytes ".toList ++ decimal start ++ '-' :: decimal last ++ '/' :: decimal fullSize

/-- The adapter's `get_object`: the range is resolved once by the storage, for the stream, and
once more here, for the headers. -/
def s3GetObject (bucket key : Str) (range : Option S3Range) : S3Op (S3Response GetObjectOutput) := do
  let (objectMeta, stream) ← served (getObject crates storage bucket key (range.map s3RangeToByteRange))
  let fullSize := UInt64.ofNat objectMeta.size
  let output : GetObjectOutput :=
    { body := stream
      eTag := objectMeta.etag
      contentType := objectMeta.contentType
      contentLength := fullSize.toInt64
      lastModified := objectMeta.lastModified
      acceptRanges := "bytes".toList }
  let window := range.bind fun r => (s3RangeToByteRange r).resolve fullSize
  match window with
  | some resolved =>
      if resolved.length > 0 then
        let last := resolved.start + saturatingSub resolved.length 1
        pure { output := { output with
                 contentRange := some (contentRangeText resolved.start last fullSize)
                 contentLength := resolved.length.toInt64 }
               status := .partialContent }
      else pure { output := output }
  | none => pure { output := output }

/-- The response with the bytes of its body, read to the end. -/
def s3Download (bucket key : Str) (range : Option S3Range) :
    S3Op (S3Response GetObjectOutput × Bytes) := do
  let response ← s3GetObject crates storage bucket key range
  let bytes ← served (ioOp response.output.body.collect)
  pure (response, bytes)

end Ferrobucket
