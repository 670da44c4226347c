import Ferrobucket.ServerFns
/-! The upload handler of the web interface, `POST /ui/upload/{bucket}/{*key}`. What a
request does is decided by its query parameters alone; the body is read as raw bytes. -/
namespace Ferrobucket
open Text Posix Program

/-! ### Content types -/

/-- What stands behind the last dot, or the whole key. -/
def lastExtension (key : Str) : Str := (key.splitOn '.').getLastD []

def asciiLower (c : Char) : Char := if 'A' ≤ c && c ≤ 'Z' then Char.ofNat (c.toNat + 32) else c

def mimeTable : List (Str × Str) :=
  [("png", "image/png"), ("jpg", "image/jpeg"), ("jpeg", "image/jpeg"), ("gif", "image/gif"),
    ("webp", "image/webp"), ("svg", "image/svg+xml"), ("ico", "image/x-icon"), ("bmp", "image/bmp"),
    ("avif", "image/avif"), ("txt", "text/plain"), ("md", "text/markdown"), ("csv", "text/csv"),
    ("html", "text/html"), ("htm", "text/html"), ("css", "text/css"),
    ("js", "application/javascript"), ("mjs", "application/javascript"),
    ("json", "application/json"), ("xml", "application/xml"), ("yaml", "application/yaml"),
    ("yml", "application/yaml"), ("toml", "application/toml"), ("pdf", "application/pdf"),
    ("wasm", "application/wasm"), ("woff2", "font/woff2"), ("mp4", "video/mp4"),
    ("mov", "video/quicktime"), ("zip", "application/zip"), ("tar", "application/x-tar"),
    ("gz", "application/gzip")].map fun row => (row.1.toList, row.2.toList)

def extMime (key : Str) : Option Str := mimeTable.lookup ((lastExtension key).map asciiLower)

/-- `str::trim` on a header value, which has no white space but blanks and tabs. -/
def trim (text : Str) : Str :=
  ((text.dropWhile Char.isWhitespace).reverse.dropWhile Char.isWhitespace).reverse

/-- The content type of the request if it says anything, else that of the extension. -/
def resolveContentType (key : Str) (header : Option Str) : Option Str :=
  match header with
  | some value =>
      let ct := trim ((value.splitOn ';').headD value)
      let generic := ct.isEmpty || ct = "application/octet-stream".toList ||
        ct = "application/x-www-form-urlencoded".toList
      if generic then extMime key else some ct
  | none => extMime key

/-! ### Requests and responses -/

structure UploadParams where
  uploadId : Option Str
  partNumber : Option Int32
  action : Option Str
  deriving DecidableEq

inductive UploadStatus where
  | ok
  | badRequest
  deriving DecidableEq

structure UploadResponse where
  status : UploadStatus
  eTag : Option Str := none
  body : Str := []

/-- What the handler uses of other crates: the texts of stream errors, and the reader of the
JSON list of part numbers. -/
structure WebCrates where
  texts : Texts
  streamError : IoError → Str
  tooLarge : Str
  partsFromJson : Bytes → Except Str (List Int32)

/-- `axum::body::to_bytes`: the whole body, if it has at most `limit` bytes. -/
def toBytes (web : WebCrates) : Nat → Body → Except Str Bytes
  | _, [] => .ok []
  | _, .error e :: _ => .error (web.streamError e)
  | limit, .ok chunk :: rest =>
      if limit < chunk.length then .error web.tooLarge
      else (toBytes web (limit - chunk.length) rest).map fun later => chunk ++ later

/-- Requests are always answered. -/
abbrev Handler := Prog Call Reply Empty

def refuse (text : Str) : UploadResponse := { status := .badRequest, body := text }

/-- The answer to a call of the storage: its error is the text of a bad request. -/
def respond {Value : Type} (web : WebCrates) (call : Op Value) (success : Value → UploadResponse) :
    Handler UploadResponse := do
  match ← call.attempt with
  | .ok value => pure (success value)
  | .error e => pure (refuse (e.text web.texts))

variable (crates : Crates) (storage : FsStorage) (web : WebCrates)

def completeHandler (bucket key : Str) (uploadId : Option Str) (body : Body) : Handler UploadResponse :=
  match uploadId with
  | none => pure (refuse "missing uploadId".toList)
  | some id =>
      match toBytes web (1024 * 1024) body with
      | .error e => pure (refuse ("failed to read body: ".toList ++ e))
      | .ok bytes =>
          match web.partsFromJson bytes with
          | .error e => pure (refuse ("invalid parts JSON: ".toList ++ e))
          | .ok parts =>
              respond web (completeMultipartUpload crates storage bucket key id (parts.map Int32.toInt))
                fun _ => { status := .ok }

def uploadHandler (bucket key : Str) (params : UploadParams) (contentType : Option Str) (body : Body) :
    Handler UploadResponse :=
  if params.action = some "create".toList then
    respond web (createMultipartUpload crates storage bucket key (resolveContentType key contentType))
      fun uploadId => { status := .ok, body := uploadId }
  else if params.action = some "complete".toList then
    completeHandler crates storage web bucket key params.uploadId body
  else if params.action = some "abort".toList then
    match params.uploadId with
    | none => pure (refuse "missing uploadId".toList)
    | some id => respond web (abortMultipartUpload storage bucket id) fun _ => { status := .ok }
  else
    match params.uploadId, params.partNumber with
    | some id, some number =>
        respond web (uploadPart crates storage bucket id number.toInt body)
          fun etag => { status := .ok, eTag := some etag }
    | _, _ =>
        respond web (putObject crates storage bucket key body (resolveContentType key contentType))
          fun _ => { status := .ok }

theorem wp_respond {Value State : Type} {sem : Semantics Call Reply State} {web : WebCrates}
    {call : Op Value} {success : Value → UploadResponse}
    {post : Except Empty UploadResponse → State → Prop} {s : State} :
    wp sem (respond web call success) post s ↔
      wp sem call (fun outcome after =>
        match outcome with
        | .ok value => post (.ok (success value)) after
        | .error e => post (.ok (refuse (e.text web.texts))) after) s := by
  unfold respond
  rw [wp_bind, wp_attempt]
  constructor
  · intro holds
    apply wp_mono holds
    intro outcome after answered
    cases outcome <;> exact answered
  · intro holds
    apply wp_mono holds
    intro outcome after answered
    cases outcome <;> exact answered

/-- An answer of the handler comes from a run of the call. -/
theorem respond_run {Value State : Type} {sem : Semantics Call Reply State} {web : WebCrates}
    {call : Op Value} {success : Value → UploadResponse} {response : UploadResponse} {s t : State}
    (run : Runs sem (respond web call success) s (.ok response) t) :
    ∃ result, Runs sem call s result t ∧
      response = match result with
        | .ok value => success value
        | .error e => refuse (e.text web.texts) := by
  obtain ⟨answer, middle, first, last⟩ := runs_bind_ok run
  obtain ⟨result, same, own⟩ := runs_attempt first
  cases same
  cases answer with
  | ok value =>
      cases last
      exact ⟨_, own, rfl⟩
  | error e =>
      cases last
      exact ⟨_, own, rfl⟩

end Ferrobucket
