import Ferrobucket.Listing
/-! The operations of fs.rs, meta.rs, multipart.rs and the effectful part of list.rs,
one program each. Every system call of the source is one command, in the order of the
source; `?` with `map_err(StorageError::Io)` is `io`. -/
namespace Ferrobucket
open Text Posix Program

abbrev Op := Prog Call Reply StorageError

/-- Calls of the standard library, whose errors are still bare error numbers. -/
abbrev IoOp := Prog Call Reply Errno

def io {Value : Type} : Except Errno Value → Op Value
  | .ok value => .done value
  | .error e => .fail (.Io (.os e))

def lift {Value : Type} : Except StorageError Value → Op Value := Prog.ofExcept

/-- A request body: chunks, any of which may be a stream error instead. -/
abbrev Body := List (Except IoError Bytes)

/-! ### Standard library calls made of several system calls -/

def readFile (path : PathBuf) : IoOp Bytes := do
  let handle ← Prog.ofExcept (← Sys.open path)
  Prog.ofExcept (← Sys.read handle)

def writeFile (path : PathBuf) (content : Bytes) : IoOp Unit := do
  let handle ← Prog.ofExcept (← Sys.creat path)
  Prog.ofExcept (← Sys.write handle content)

/-- `create_dir_all`, going up at most `height` parents. -/
def createDirUpTo : Nat → PathBuf → IoOp Unit
  | height, path => do
      match ← Sys.mkdir path with
      | .ok () => pure ()
      | .error .ENOENT =>
          match height with
          | 0 => throw .ENOENT
          | height + 1 => do
              createDirUpTo height path.parent
              match ← Sys.mkdir path with
              | .ok () => pure ()
              | .error e => if ← Sys.isDir path then pure () else throw e
      | .error e => if ← Sys.isDir path then pure () else throw e

def createDirAll (path : PathBuf) : IoOp Unit :=
  createDirUpTo (path.base.length + path.rel.length) path

/-- What every part of `create_dir_all` does, for its own path and for the parents', the whole does. -/
theorem createDirUpTo_rule (does : PathBuf → IoOp Unit → Prop)
    (done : ∀ path, does path (pure ())) (fails : ∀ path e, does path (throw e))
    (mkdir : ∀ path next, (∀ reply, does path (next reply)) → does path (Sys.mkdir path >>= next))
    (isDir : ∀ path next, (∀ reply, does path (next reply)) → does path (Sys.isDir path >>= next))
    (climb : ∀ (path : PathBuf) parents rest, does path.parent parents → does path rest →
      does path (parents >>= fun _ => rest))
    (height : Nat) (path : PathBuf) : does path (createDirUpTo height path) := by
  have tested : ∀ (path : PathBuf) (e : Errno),
      does path (do if ← Sys.isDir path then pure () else throw e) := by
    intro path e
    apply isDir
    intro there
    cases there with
    | true => exact done path
    | false => exact fails path e
  induction height generalizing path with
  | zero =>
      rw [createDirUpTo.eq_def]
      apply mkdir
      intro reply
      cases reply with
      | ok _ => exact done path
      | error e =>
          cases e with
          | ENOENT => exact fails path _
          | _ => exact tested path _
  | succ height ih =>
      rw [createDirUpTo.eq_def]
      apply mkdir
      intro reply
      cases reply with
      | ok _ => exact done path
      | error e =>
          cases e with
          | ENOENT =>
              apply climb path _ _ (ih path.parent)
              apply mkdir
              intro again
              cases again with
              | ok _ => exact done path
              | error e => exact tested path e
          | _ => exact tested path _

/-- Remove what a tree walk found; entries that are gone already do not matter. -/
def removeFound : List (Path × Bool) → IoOp Unit
  | [] => pure ()
  | (path, isDir) :: rest => do
      let removed ← if isDir then Sys.rmdir ⟨path, []⟩ else Sys.unlink ⟨path, []⟩
      match removed with
      | .ok () => removeFound rest
      | .error .ENOENT => removeFound rest
      | .error e => throw e

def removeDirAll (path : PathBuf) : IoOp Unit := do
  let found ← Prog.ofExcept (← Sys.readTree path)
  removeFound found
  match ← Sys.rmdir path with
  | .ok () => pure ()
  | .error .ENOENT => pure ()
  | .error e => throw e

/-- `map_err(StorageError::Io)?` on such a call. -/
def ioOp {Value : Type} (call : IoOp Value) : Op Value := do io (← call.attempt)

/-- The shape of every write: fill a temporary file in `dir`, rename it to `target`,
and remove it again when either fails. -/
def installFile {Value : Type} (dir : PathBuf) (fill : Handle → Op Value) (target : PathBuf) :
    Op Value := do
  let (tmpPath, file) ← io (← Sys.tempfileIn dir)
  match ← (fill file).attempt with
  | .error e => do
      let _ ← Sys.unlink tmpPath
      throw e
  | .ok value => do
      match ← Sys.rename tmpPath target with
      | .error e => do
          let _ ← Sys.unlink tmpPath
          throw (.Io (.os e))
      | .ok () => pure value

/-! ### Sidecars -/

section Sidecars
variable {Value : Type}

/-- `write_sidecar` and `write_multipart_meta`: the temporary file is in the target's
own directory. -/
def writeJson (codec : Codec Value) (path : PathBuf) (value : Value) : Op Unit :=
  installFile path.parent (fun file => do
    io (← Sys.write file (codec.encode value))
    io (← Sys.flush file)) path

/-- `read_sidecar` and `read_multipart_meta`, which differ in the error for a missing file. -/
def readJson (codec : Codec Value) (missing : Str → StorageError) (path : PathBuf) : Op Value := do
  match ← (readFile path).attempt with
  | .error .ENOENT => throw (missing path.display)
  | .error e => throw (.Io (.os e))
  | .ok bytes =>
      match codec.decode bytes with
      | .ok value => pure value
      | .error text => throw (.Io (.invalidData text))

end Sidecars

variable (crates : Crates) (storage : FsStorage)

def writeSidecar (path : PathBuf) (objectMeta : ObjectMeta) : Op Unit :=
  writeJson crates.objectMeta path objectMeta

def readSidecar (path : PathBuf) : Op ObjectMeta :=
  readJson crates.objectMeta .NoSuchKey path

def writeMultipartMeta (path : PathBuf) (multipartMeta : MultipartMeta) : Op Unit :=
  writeJson crates.multipartMeta path multipartMeta

def readMultipartMeta (path : PathBuf) : Op MultipartMeta :=
  readJson crates.multipartMeta .NoSuchUpload path

/-! ### Bodies -/

/-- The write loop: hash, count and write each chunk, then flush. -/
def streamToFile (file : Handle) : Body → EtagHasher → Nat → Op (EtagHasher × Nat)
  | [], hasher, bytesWritten => do
      io (← Sys.flush file)
      pure (hasher, bytesWritten)
  | .error e :: _, _, _ => throw (.Io e)
  | .ok chunk :: rest, hasher, bytesWritten => do
      io (← Sys.write file chunk)
      streamToFile file rest (hasher.update chunk) (bytesWritten + chunk.length)

def writeObjectBody (objectsDir : PathBuf) (encodedKey : Str) (body : Body) : Op (Str × Nat) := do
  let (hasher, bytesWritten) ←
    installFile objectsDir (fun file => streamToFile file body .new 0) (objectsDir.join encodedKey)
  pure (hasher.finalize crates, bytesWritten)

/-- An open object: the handle, where to start, and how much to deliver at most. -/
structure ObjectStream where
  handle : Handle
  start : Nat
  limit : Option Nat

/-- All bytes that a stream delivers. -/
def ObjectStream.collect (stream : ObjectStream) : IoOp Bytes := do
  let content ← Prog.ofExcept (← Sys.read stream.handle)
  let rest := content.drop stream.start
  match stream.limit with
  | none => pure rest
  | some limit => pure (rest.take limit)

def streamObject (path : PathBuf) : Op ObjectStream := do
  match ← Sys.open path with
  | .ok handle => pure ⟨handle, 0, none⟩
  | .error .ENOENT => throw (.NoSuchKey path.display)
  | .error e => throw (.Io (.os e))

/-! ### Bucket methods -/

def readBucketInfos : List PathBuf → Op (List BucketInfo)
  | [] => pure []
  | dir :: rest => do
      let bucketJson := dir.join bucketJsonName
      match ← (readFile bucketJson).attempt with
      | .ok bytes =>
          match crates.bucketInfo.decode bytes with
          | .ok info => do
              let buckets ← readBucketInfos rest
              pure (info :: buckets)
          | .error text =>
              throw (.Io (.invalidData ("corrupt .bucket.json at ".toList ++ bucketJson.display ++
                ": ".toList ++ text)))
      | .error .ENOENT => readBucketInfos rest
      | .error e => throw (.Io (.os e))

def listBuckets : Op (List BucketInfo) := do
  let entries ← match ← Sys.readDir storage.rootPath with
    | .ok entries => pure entries
    | .error .ENOENT => pure []
    | .error e => throw (.Io (.os e))
  let dirs := (entries.filter DirEntry.isDir).map fun entry => storage.rootPath.join entry.name
  readBucketInfos crates dirs

def createBucket (name : Str) : Op Unit := do
  lift (validateBucketName name)
  let bucketDir := storage.bucketPath name
  ioOp (createDirAll bucketDir.parent)
  match ← Sys.mkdir bucketDir with
  | .ok () => pure ()
  | .error .EEXIST => throw (.BucketAlreadyExists name)
  | .error e => throw (.Io (.os e))
  ioOp (createDirAll (storage.objectsDir name))
  ioOp (createDirAll (storage.metaDir name))
  let createdAt ← Sys.now
  let info : BucketInfo := ⟨name, createdAt⟩
  ioOp (writeFile (bucketDir.join bucketJsonName) (crates.bucketInfo.encode info))

/-- Remove an empty directory; after a failure look again whether it has entries. -/
def removeDirGuarded (dir : PathBuf) (name : Str) : Op Unit := do
  match ← Sys.rmdir dir with
  | .ok () => pure ()
  | .error .ENOENT => pure ()
  | .error e => do
      let stillHasEntries := match ← Sys.readDir dir with
        | .ok entries => !entries.isEmpty
        | .error _ => false
      if stillHasEntries then throw (.BucketNotEmpty name) else throw (.Io (.os e))

def deleteBucket (name : Str) : Op Unit := do
  lift (validateBucketName name)
  let bucketDir := storage.bucketPath name
  if !(← Sys.exists bucketDir) then throw (.NoSuchBucket name)
  let objectsDir := storage.objectsDir name
  let isEmpty ← match ← Sys.readDir objectsDir with
    | .ok entries => pure entries.isEmpty
    | .error .ENOENT => pure true
    | .error e => throw (.Io (.os e))
  if !isEmpty then throw (.BucketNotEmpty name)
  removeDirGuarded objectsDir name
  removeDirGuarded (storage.metaDir name) name
  match ← (Sys.unlink (bucketDir.join bucketJsonName)) with
  | .ok () => pure ()
  | .error .ENOENT => pure ()
  | .error e => throw (.Io (.os e))
  match ← Sys.rmdir bucketDir with
  | .ok () => pure ()
  | .error .ENOENT => pure ()
  | .error e => throw (.Io (.os e))

/-! ### Object methods -/

def defaultContentType : Str := "application/octet-stream".toList

def putObject (bucket key : Str) (body : Body) (contentType : Option Str) : Op ObjectMeta := do
  lift (validateBucketName bucket)
  if !(← (Sys.exists (storage.bucketPath bucket))) then throw (.NoSuchBucket bucket)
  let encodedKey ← lift (encodeKey key)
  let (etag, size) ← writeObjectBody crates (storage.objectsDir bucket) encodedKey body
  let lastModified ← Sys.now
  let objectMeta : ObjectMeta :=
    ⟨key, size, contentType.getD defaultContentType, etag, lastModified⟩
  writeSidecar crates (storage.metaPath bucket encodedKey) objectMeta
  pure objectMeta

def getObject (bucket key : Str) (range : Option ByteRange) : Op (ObjectMeta × ObjectStream) := do
  lift (validateBucketName bucket)
  let encodedKey ← lift (encodeKey key)
  let objectMeta ← readSidecar crates (storage.metaPath bucket encodedKey)
  let objPath := storage.objectPath bucket encodedKey
  match range with
  | none => do
      let stream ← streamObject objPath
      pure (objectMeta, stream)
  | some byteRange =>
      match byteRange.resolve (UInt64.ofNat objectMeta.size) with
      | none => throw .RangeNotSatisfiable
      | some resolved => do
          match ← Sys.open objPath with
          | .ok handle =>
              pure (objectMeta, ⟨handle, resolved.start.toNat, some resolved.length.toNat⟩)
          | .error .ENOENT => throw (.NoSuchKey key)
          | .error e => throw (.Io (.os e))

/-- A client's `get_object` without a range: the record, and the stream read to its end. -/
def fetchObject (bucket key : Str) : Op (ObjectMeta × Bytes) := do
  let (objectMeta, stream) ← getObject crates storage bucket key none
  let bytes ← ioOp stream.collect
  pure (objectMeta, bytes)

def headObject (bucket key : Str) : Op ObjectMeta := do
  lift (validateBucketName bucket)
  let encodedKey ← lift (encodeKey key)
  readSidecar crates (storage.metaPath bucket encodedKey)

def deleteObject (bucket key : Str) : Op Unit := do
  lift (validateBucketName bucket)
  let encodedKey ← lift (encodeKey key)
  match ← (Sys.unlink (storage.objectPath bucket encodedKey)) with
  | .ok () => pure ()
  | .error .ENOENT => throw (.NoSuchKey key)
  | .error e => throw (.Io (.os e))
  match ← (Sys.unlink (storage.metaPath bucket encodedKey)) with
  | .ok () => pure ()
  | .error .ENOENT => pure ()
  | .error e => throw (.Io (.os e))

/-! ### Listing -/

def scanKeys (bucket : Str) : Op (List Str) := do
  match ← (Sys.readDir (storage.objectsDir bucket)) with
  | .ok entries => pure (entries.filterMap fun entry => (decodeKey entry.name).toOption)
  | .error .ENOENT => pure []
  | .error e => throw (.Io (.os e))

/-- The output loop: one sidecar for each object, in order. -/
def buildOutput (bucket : Str) : List Item → Op (List ObjectMeta × List Str)
  | [] => pure ([], [])
  | .object key :: rest => do
      let encoded ← lift (encodeKey key)
      let objectMeta ← readSidecar crates ((storage.metaDir bucket).join (FsStorage.sidecarName encoded))
      let (objects, commonPrefixes) ← buildOutput bucket rest
      pure (objectMeta :: objects, commonPrefixes)
  | .commonPrefix cp :: rest => do
      let (objects, commonPrefixes) ← buildOutput bucket rest
      pure (objects, cp :: commonPrefixes)

/-- `crate::list::list_objects_v2`. -/
def listPage (bucket : Str) (req : ListV2Req) : Op ListV2Res := do
  let scanned ← scanKeys storage bucket
  let keys ← lift (selectKeys scanned req)
  let page := capPage req keys
  let (objects, commonPrefixes) ← buildOutput crates storage bucket page.capped
  pure ⟨objects, commonPrefixes.insertionSort (· ≤ ·), page.nextContinuationToken, page.isTruncated⟩

def listObjectsV2 (bucket : Str) (req : ListV2Req) : Op ListV2Res := do
  lift (validateBucketName bucket)
  if !(← (Sys.exists (storage.bucketPath bucket))) then throw (.NoSuchBucket bucket)
  listPage crates storage bucket req

/-! ### Multipart uploads -/

def createMultipartUpload (bucket key : Str) (contentType : Option Str) : Op Str := do
  lift (validateBucketName bucket)
  if !(← (Sys.exists (storage.bucketPath bucket))) then throw (.NoSuchBucket bucket)
  let uploadId ← Sys.uuid
  let dir := storage.uploadDir uploadId
  ioOp (createDirAll dir)
  writeMultipartMeta crates (dir.join multipartJsonName) ⟨bucket, key, contentType⟩
  pure uploadId

def uploadPart (_bucket uploadId : Str) (partNumber : Int) (body : Body) : Op Str := do
  if partNumber ≤ 0 then throw (.InvalidPartNumber partNumber)
  let dir := storage.uploadDir uploadId
  if !(← Sys.exists dir) then throw (.NoSuchUpload uploadId)
  let (hasher, _) ←
    installFile dir (fun file => streamToFile file body .new 0) (storage.partPath uploadId partNumber)
  pure (hasher.finalize crates)

/-- The chained stream of complete: each part is opened when its turn comes and copied. -/
def assembleParts (uploadDir : PathBuf) (file : Handle) :
    List Int → EtagHasher → Nat → Op (EtagHasher × Nat)
  | [], hasher, bytesWritten => do
      io (← Sys.flush file)
      pure (hasher, bytesWritten)
  | partNum :: rest, hasher, bytesWritten => do
      let part ← io (← (Sys.open (uploadDir.join (FsStorage.partName partNum))))
      let chunk ← io (← Sys.read part)
      io (← Sys.write file chunk)
      assembleParts uploadDir file rest (hasher.update chunk) (bytesWritten + chunk.length)

def completeMultipartUpload (_bucket key uploadId : Str) (parts : List Int) : Op ObjectMeta := do
  let uploadDir := storage.uploadDir uploadId
  let mpMeta ← readMultipartMeta crates (uploadDir.join multipartJsonName)
  let sortedParts := parts.insertionSort (· ≤ ·)
  let partCount := sortedParts.length
  let objectsDir := storage.objectsDir mpMeta.bucket
  ioOp (createDirAll objectsDir)
  let encodedKey ← lift (encodeKey key)
  let (hasher, size) ←
    installFile objectsDir (fun file => assembleParts uploadDir file sortedParts .new 0)
      (objectsDir.join encodedKey)
  let assembledEtag := hasher.finalize crates ++ '-' :: (toString partCount).toList
  let lastModified ← Sys.now
  let objMeta : ObjectMeta :=
    ⟨mpMeta.key, size, mpMeta.contentType.getD defaultContentType, assembledEtag, lastModified⟩
  writeSidecar crates (storage.metaPath mpMeta.bucket encodedKey) objMeta
  let _ ← (removeDirAll uploadDir).attempt
  pure objMeta

def abortMultipartUpload (_bucket uploadId : Str) : Op Unit := do
  match ← (removeDirAll (storage.uploadDir uploadId)).attempt with
  | .ok () => pure ()
  | .error .ENOENT => throw (.NoSuchUpload uploadId)
  | .error e => throw (.Io (.os e))

end Ferrobucket
