import Ferrobucket.Mirror
import Ferrobucket.S3Conversations
/-! The web interface as a second front of the service: its upload and download handlers and its
server functions. They call the storage in-process, so both fronts are to speak of one set of
buckets; the model of the service answers the requests of both. -/
namespace Ferrobucket
open Text Posix Program

/-! ### Requests -/

inductive WebRequest where
  | upload (bucket : Str) (key : ObjectKey) (params : UploadParams) (contentType : Option Str) (body : Body)
  | download (bucket : Str) (key : ObjectKey)
  | listBuckets
  | createBucket (name : Str)
  | deleteBucket (name : Str)
  | listObjects (bucket : Str) (pfx continuationToken : Option Str)
  | headObject (bucket key : Str)
  | deleteObject (bucket key : Str)

inductive WebReply where
  | uploaded (response : UploadResponse)
  | fetched (file : SavedFile)
  | buckets (rows : List BucketRow)
  | listing (listing : ObjectListing)
  | detail (detail : ObjectDetail)
  | done

abbrev WebOutcome := Except Str WebReply

section Serving
variable (crates : Crates) (storage : FsStorage) (web : WebCrates) (http : HeaderValues)

def webHandle : WebRequest → ServerFn WebReply
  | .upload bucket key params contentType body => do
      match ← (uploadHandler crates storage web bucket key params contentType body).attempt with
      | .ok response => pure (.uploaded response)
      | .error impossible => impossible.elim
  | .download bucket key => do
      let file ← fetchFile crates storage http bucket key
      pure (.fetched file)
  | .listBuckets => do
      let rows ← listBucketsFn crates storage web.texts
      pure (.buckets rows)
  | .createBucket name => do
      let _ ← createBucketFn crates storage web.texts name
      pure .done
  | .deleteBucket name => do
      let _ ← deleteBucketFn storage web.texts name
      pure .done
  | .listObjects bucket pfx continuationToken => do
      let listing ← listObjectsFn crates storage web.texts bucket pfx continuationToken
      pure (.listing listing)
  | .headObject bucket key => do
      let detail ← headObjectFn crates storage web.texts bucket key
      pure (.detail detail)
  | .deleteObject bucket key => do
      let _ ← deleteObjectFn storage web.texts bucket key
      pure .done

end Serving

/-- A request to either front, with its answer. -/
inductive Exchange where
  | s3 (request : S3Request) (outcome : S3Outcome)
  | web (request : WebRequest) (outcome : WebOutcome)

/-- Requests to both fronts, one after the other. -/
inductive FrontsServed (crates : Crates) (storage : FsStorage) (web : WebCrates) (http : HeaderValues) :
    FS → List Exchange → FS → Prop
  | nil (s : FS) : FrontsServed crates storage web http s [] s
  | s3 {s middle t : FS} {request : S3Request} {outcome : S3Outcome} {later : List Exchange}
      (run : Runs faultFree (s3Handle crates storage web.texts request) s outcome middle)
      (rest : FrontsServed crates storage web http middle later t) :
      FrontsServed crates storage web http s (.s3 request outcome :: later) t
  | web {s middle t : FS} {request : WebRequest} {outcome : WebOutcome} {later : List Exchange}
      (run : Runs faultFree (webHandle crates storage web http request) s outcome middle)
      (rest : FrontsServed crates storage web http middle later t) :
      FrontsServed crates storage web http s (.web request outcome :: later) t

/-! ### Answers of the model -/

/-- A storage answer as the response of the upload handler. -/
def responded {Value : Type} (web : WebCrates) (success : Value → UploadResponse) :
    Except StorageError Value → UploadResponse
  | .ok value => success value
  | .error e => refuse (e.text web.texts)

/-- A storage answer as that of a server function. -/
def toldAs {Value : Type} (texts : Texts) (shown : Value → WebReply) (outcome : Except StorageError Value) :
    WebOutcome := (outcome.mapError (StorageError.text texts)).map shown

def S3Object.detail (texts : Texts) (key : Str) (object : S3Object) : ObjectDetail :=
  ⟨key, UInt64.ofNat object.bytes.length, object.contentType, object.eTag, texts.rfc3339 object.lastModified⟩

namespace S3Model
variable (crates : Crates) (storage : FsStorage) (web : WebCrates) (http : HeaderValues) (model : S3Model)

/-- The first page of a bucket is what its row counts. -/
def bucketRow (texts : Texts) (name : Str) (bucket : S3Bucket) : Except StorageError BucketRow :=
  (model.page name ⟨none, none, none, none⟩).map fun page =>
    ⟨name, texts.rfc3339 bucket.creationDate, UInt64.ofNat page.objects.length,
      (page.objects.map fun o => UInt64.ofNat o.size).sum⟩

def bucketRows (texts : Texts) : List Str → Except StorageError (List BucketRow)
  | [] => .ok []
  | name :: rest =>
      match model.buckets.lookup name with
      | none => bucketRows texts rest
      | some bucket => do
          let row ← model.bucketRow texts name bucket
          let rows ← bucketRows texts rest
          pure (row :: rows)

def complete (key : Str) (id : Str) (body : Body) (time : Nat) : UploadResponse × S3Model :=
  match toBytes web (1024 * 1024) body with
  | .error e => (refuse ("failed to read body: ".toList ++ e), model)
  | .ok bytes =>
      match web.partsFromJson bytes with
      | .error e => (refuse ("invalid parts JSON: ".toList ++ e), model)
      | .ok parts =>
          let (outcome, after) := model.completeMultipartUpload crates key id (parts.map Int32.toInt) time
          (responded web (fun _ => { status := .ok })
            (outcome.mapError fun e => e.placed [] (uploadRecordShown storage id)), after)

/-- The action comes first, then the part, and everything else is a put. -/
def upload (choice : S3Choice) (bucket key : Str) (params : UploadParams) (contentType : Option Str)
    (body : Body) : UploadResponse × S3Model :=
  if params.action = some "create".toList then
    let (outcome, after) :=
      model.createMultipartUpload bucket key (resolveContentType key contentType) choice.uploadId
    (responded web (fun id => { status := .ok, body := id }) outcome, after)
  else if params.action = some "complete".toList then
    match params.uploadId with
    | none => (refuse "missing uploadId".toList, model)
    | some id => model.complete crates storage web key id body choice.time
  else if params.action = some "abort".toList then
    match params.uploadId with
    | none => (refuse "missing uploadId".toList, model)
    | some id =>
        let (outcome, after) := model.abortMultipartUpload id
        (responded web (fun _ => { status := .ok }) outcome, after)
  else
    match params.uploadId, params.partNumber with
    | some id, some number =>
        let (outcome, after) := model.uploadPart crates id number.toInt body
        (responded web (fun eTag => { status := .ok, eTag := some eTag }) outcome, after)
    | _, _ =>
        let (outcome, after) :=
          model.putObject crates bucket key body (resolveContentType key contentType) choice.time
        (responded web (fun _ => { status := .ok }) outcome, after)

/-- The answer of the service to a request of the web interface, and the state behind it. -/
def serve (choice : S3Choice) : WebRequest → WebOutcome × S3Model
  | .upload bucket key params contentType body =>
      let (response, after) := model.upload crates storage web choice bucket key params contentType body
      (.ok (.uploaded response), after)
  | .download bucket key =>
      (.ok (.fetched (match model.findObject bucket key with
        | .ok object => foundFile http key object.contentType object.bytes
        | .error _ => .notFound)), model)
  | .listBuckets => (toldAs web.texts .buckets (model.bucketRows web.texts choice.order), model)
  | .createBucket name =>
      let (outcome, after) := model.createBucket name choice.time
      (toldAs web.texts (fun _ => .done) outcome, after)
  | .deleteBucket name =>
      let (outcome, after) := model.deleteBucket name
      (toldAs web.texts (fun _ => .done) outcome, after)
  | .listObjects bucket pfx continuationToken =>
      (toldAs web.texts (fun page => .listing (shownListing web.texts pfx page))
        (model.page bucket ⟨pfx, some ['/'], continuationToken, none⟩), model)
  | .headObject bucket key =>
      (toldAs web.texts (fun object => .detail (object.detail web.texts key))
        ((model.findObject bucket key).mapError fun e => e.placed (recordShown storage bucket key) []), model)
  | .deleteObject bucket key =>
      let (outcome, after) := model.deleteObject bucket key
      (toldAs web.texts (fun _ => .done) outcome, after)

end S3Model

/-- The choices that the service may make for a request of the web interface. -/
structure S3Model.AllowsWeb (model : S3Model) (request : WebRequest) (outcome : WebOutcome)
    (choice : S3Choice) : Prop where
  fresh : ∀ bucket key params contentType body response,
    request = .upload bucket key params contentType body → params.action = some "create".toList →
    outcome = .ok (.uploaded response) → response.status = .ok →
    isUuid choice.uploadId = true ∧ choice.uploadId ∉ model.uploads
  order : request = .listBuckets → (choice.order : Multiset Str) = model.buckets.keys.val

/-- A conversation with both fronts of the service. -/
inductive S3Model.AnswersFronts (crates : Crates) (storage : FsStorage) (web : WebCrates)
    (http : HeaderValues) : S3Model → List Exchange → S3Model → Prop
  | nil (model : S3Model) : AnswersFronts crates storage web http model [] model
  | s3 {model after : S3Model} {request : S3Request} {outcome : S3Outcome} {choice : S3Choice}
      {later : List Exchange}
      (answered : outcome = (model.respond crates web.texts choice request).1)
      (allowed : model.Allows request outcome choice)
      (rest : AnswersFronts crates storage web http (model.respond crates web.texts choice request).2 later after) :
      AnswersFronts crates storage web http model (.s3 request outcome :: later) after
  | web {model after : S3Model} {request : WebRequest} {outcome : WebOutcome} {choice : S3Choice}
      {later : List Exchange}
      (answered : outcome = (model.serve crates storage web http choice request).1)
      (allowed : model.AllowsWeb request outcome choice)
      (rest : AnswersFronts crates storage web http (model.serve crates storage web http choice request).2 later
        after) :
      AnswersFronts crates storage web http model (.web request outcome :: later) after

/-! ### What a client knows from both -/

def newsOfWeb : WebRequest → WebOutcome → Option News
  | .createBucket name, .ok _ => some (.created name)
  | .deleteBucket name, .ok _ => some (.removed name)
  | .upload bucket key params _ _, .ok (.uploaded response) =>
      if params.action = some "create".toList ∧ response.status = .ok then
        some (.begun response.body bucket key)
      else none
  | _, _ => none

def Exchange.news : Exchange → Option News
  | .s3 request outcome => newsOf (request, outcome)
  | .web request outcome => newsOfWeb request outcome

/-- Ids are those of uploads, and an upload is completed where it was begun, at whichever front. -/
def OrderlyWeb (past : List News) : WebRequest → Prop
  | .upload bucket key params _ _ =>
      ∀ id, params.uploadId = some id → isUuid id = true ∧
        (params.action = some "complete".toList → CompletedOrderly past bucket key id)
  | _ => True

def Exchange.Orderly (past : List News) : Exchange → Prop
  | .s3 request _ => Ferrobucket.Orderly past request
  | .web request _ => OrderlyWeb past request

end Ferrobucket
