import Ferrobucket.Server
/-! The server functions of the web interface that list buckets and objects. They call the
storage in-process and hand its errors on as texts. -/
namespace Ferrobucket
open Text Posix Program

/-- Texts that come from outside: the `time` crate's and the operating system's. -/
structure Texts where
  rfc3339 : Nat → Str
  osError : Errno → Str

/-- No texts at all. -/
def Reference.texts : Texts := ⟨fun _ => [], fun _ => []⟩

def IoError.text (texts : Texts) : IoError → Str
  | .os errno => texts.osError errno
  | .invalidData text => text
  | .other text => text

/-- The `Display` instance of `StorageError`. -/
def StorageError.text (texts : Texts) : StorageError → Str
  | .NoSuchBucket name => "no such bucket: ".toList ++ name
  | .NoSuchKey key => "no such key: ".toList ++ key
  | .BucketNotEmpty name => "bucket not empty: ".toList ++ name
  | .BucketAlreadyExists name => "bucket already exists: ".toList ++ name
  | .InvalidBucketName text => "invalid bucket name: ".toList ++ text
  | .KeyTooLong key => "key too long after encoding (limit: 255 bytes): ".toList ++ key
  | .InvalidKey => "invalid key".toList
  | .InvalidContinuationToken => "invalid continuation token".toList
  | .RangeNotSatisfiable => "range not satisfiable".toList
  | .NoSuchUpload text => "no such upload: ".toList ++ text
  | .InvalidPartNumber number => "invalid part number: ".toList ++ FsStorage.partName number
  | .Io error => "I/O error: ".toList ++ error.text texts

/-- A server function: its errors are texts. -/
abbrev ServerFn := Prog Call Reply Str

/-- `map_err(|e| ServerFnError::new(e.to_string()))?` on a call of the storage. -/
def told {Value : Type} (texts : Texts) (call : Op Value) : ServerFn Value := do
  Prog.ofExcept ((← call.attempt).mapError (StorageError.text texts))

theorem wp_told {Value State : Type} {sem : Semantics Call Reply State} {texts : Texts} {call : Op Value}
    {post : Except Str Value → State → Prop} {s : State} :
    wp sem (told texts call) post s ↔
      wp sem call (fun outcome after => post (outcome.mapError (StorageError.text texts)) after) s :=
  wp_mapError

variable (crates : Crates) (storage : FsStorage) (texts : Texts)

/-! ### Buckets -/

structure BucketRow where
  name : Str
  created : Str
  objectCount : UInt64
  totalSize : UInt64

/-- Count and size are taken from one listing of the bucket. -/
def bucketRow (bucket : BucketInfo) : ServerFn BucketRow := do
  let listing ← told texts (listObjectsV2 crates storage bucket.name
    { pfx := none, delimiter := none, continuationToken := none, maxKeys := none })
  let objectCount := UInt64.ofNat listing.objects.length
  let totalSize := (listing.objects.map fun o => UInt64.ofNat o.size).sum
  pure ⟨bucket.name, texts.rfc3339 bucket.createdAt, objectCount, totalSize⟩

def bucketRows : List BucketInfo → ServerFn (List BucketRow)
  | [] => pure []
  | bucket :: rest => do
      let row ← bucketRow crates storage texts bucket
      let rows ← bucketRows rest
      pure (row :: rows)

def listBucketsFn : ServerFn (List BucketRow) := do
  let buckets ← told texts (listBuckets crates storage)
  bucketRows crates storage texts buckets

def createBucketFn (name : Str) : ServerFn Unit := told texts (createBucket crates storage name)

def deleteBucketFn (name : Str) : ServerFn Unit := told texts (deleteBucket storage name)

/-! ### Objects -/

structure ObjectRow where
  key : Str
  size : UInt64
  lastModified : Str
  isFolder : Bool

structure ObjectListing where
  folders : List Str
  objects : List ObjectRow
  nextToken : Option Str
  pfx : Str

/-- Folders are the common prefixes under `/`. -/
def listObjectsFn (bucket : Str) (pfx continuationToken : Option Str) : ServerFn ObjectListing := do
  let req : ListV2Req :=
    { pfx := pfx, delimiter := some ['/'], continuationToken := continuationToken, maxKeys := none }
  let res ← told texts (listObjectsV2 crates storage bucket req)
  let objects := res.objects.map fun o =>
    ({ key := o.key
       size := UInt64.ofNat o.size
       lastModified := texts.rfc3339 o.lastModified
       isFolder := false } : ObjectRow)
  pure ⟨res.commonPrefixes, objects, res.nextContinuationToken, pfx.getD []⟩

structure ObjectDetail where
  key : Str
  size : UInt64
  contentType : Str
  eTag : Str
  lastModified : Str

def headObjectFn (bucket key : Str) : ServerFn ObjectDetail := do
  let objectMeta ← told texts (headObject crates storage bucket key)
  pure
    { key := objectMeta.key
      size := UInt64.ofNat objectMeta.size
      contentType := objectMeta.contentType
      eTag := objectMeta.etag
      lastModified := texts.rfc3339 objectMeta.lastModified }

def deleteObjectFn (bucket key : Str) : ServerFn Unit := told texts (deleteObject storage bucket key)

end Ferrobucket
