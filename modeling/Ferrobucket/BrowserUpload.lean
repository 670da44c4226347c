import Ferrobucket.Completion
import Ferrobucket.Lib.Slices
import Ferrobucket.Lib.Traced
import Ferrobucket.Presign
import Ferrobucket.UploadZone
/-! A multipart upload of the browser against the upload handler: the slices of a file are posted one
by one, and completing puts them together again. Requests may get lost, break off or go unanswered. -/
namespace Ferrobucket
open Text Posix Program Url PercentEncoding

namespace UploadIsland

/-! ### The server behind the browser -/

def statusCode : Ferrobucket.UploadStatus → Nat
  | .ok => 200
  | .badRequest => 400

/-- The server reads the body in any chunks, and all of it unless it breaks off. -/
def Streams (body : Option Bytes) (stream : Body) : Prop :=
  failure stream = none → delivered stream = body.getD []

/-- What of a response reaches the browser. -/
inductive Carries (response : UploadResponse) : Reached → Prop
  | whole : Carries response (.response (statusCode response.status) (some response.body))
  | cut : Carries response (.response (statusCode response.status) none)
  | lost : Carries response .failed

section Online
variable (form : FormDecoder) (crates : Crates) (storage : FsStorage) (web : WebCrates)

/-- What becomes of a request. -/
inductive Handled (url : Str) (body : Option Bytes) (s : FS) : Reached → FS → Prop
  | lost : Handled url body s .failed s
  | unrouted {status : Nat} (text : Option Str) (nowhere : uploadTarget form url = none)
      (refused : isSuccess status = false) : Handled url body s (.response status text) s
  | handled {target : UploadTarget} {stream : Body} {contentType : Option Str} {response : UploadResponse}
      {reached : Reached} {t : FS} (found : uploadTarget form url = some target)
      (streams : Streams body stream)
      (run : Runs faultFree (uploadHandler crates storage web target.bucket target.key target.params
        contentType stream) s (.ok response) t)
      (carries : Carries response reached) : Handled url body s reached t

/-- The browser with a file of its own and the server at the other end. -/
def online (file : Bytes) : Semantics Browser BrowserReply FS
  | .newXhr, s, _, t => t = s
  | .send url blob, s, reached, t => Handled form crates storage web url (some blob) s reached t
  | .slice start stop, s, chunk, t => chunk = some ((file.drop start).take (stop - start)) ∧ t = s
  | .setPart _ _, s, _, t => t = s
  | .fetch url body, s, reached, t => Handled form crates storage web url body s reached t

end Online

/-! ### What is posted -/

structure Fetch where
  url : Str
  body : Option Bytes
  reached : Reached

def fetchOf : Program.Answer Browser BrowserReply → Option Fetch
  | ⟨.fetch url body, reached⟩ => some ⟨url, body, reached⟩
  | _ => none

def fetches (events : List (Program.Answer Browser BrowserReply)) : List Fetch := events.filterMap fetchOf

def Fetch.Succeeded (fetch : Fetch) : Prop := ∃ text, received fetch.reached = .ok text

/-- The number and the bytes of a part, if the server takes the request for one. -/
def postedPart (form : FormDecoder) (fetch : Fetch) : Option (Int × Bytes) := do
  let target ← uploadTarget form fetch.url
  let number ← target.params.partNumber
  pure (number.toInt, fetch.body.getD [])

/-- The server takes the request for the completion of an upload. -/
def Completes (form : FormDecoder) (fetch : Fetch) : Prop :=
  ∃ target, uploadTarget form fetch.url = some target ∧ target.params.action = some "complete".toList

def part (file : Bytes) (number : Nat) : Bytes := Slices.cut partSizeBytes file number

/-- The slices are neither empty nor too long, follow on each other and are the file. -/
structure Tiled (file : Bytes) : Prop where
  nonempty : ∀ number, 1 ≤ number → number ≤ numParts file.length → part file number ≠ []
  small : ∀ number, 1 ≤ number → number ≤ numParts file.length → (part file number).length ≤ partSizeBytes
  first : sliceStart 1 = 0
  next : ∀ number, 1 ≤ number → number < numParts file.length →
    sliceStop file.length number = sliceStart (number + 1)
  last : sliceStop file.length (numParts file.length) = file.length
  whole : (List.range' 1 (numParts file.length)).flatMap (part file) = file

theorem num_parts_count {fileSize : Nat} (large : partSizeBytes < fileSize) (exact : fileSize < 2 ^ 53) :
    numParts fileSize = Slices.count partSizeBytes fileSize ∧ numParts fileSize < 2 ^ 31 := by
  unfold numParts Slices.count partSizeBytes at *
  omega

theorem file_tiled {file : Bytes} (large : partSizeBytes < file.length) (exact : file.length < 2 ^ 53) :
    Tiled file := by
  have positive : 0 < partSizeBytes := by decide
  obtain ⟨counted, _⟩ := num_parts_count large exact
  refine ⟨?_, fun number first _ => Slices.cut_small first, rfl, ?_, ?_, ?_⟩
  · intro number first inside
    rw [counted] at inside
    exact Slices.cut_nonempty positive inside first
  · intro number _ inside
    rw [counted] at inside
    exact Slices.stop_consecutive positive inside
  · rw [counted]
    exact Slices.stop_last positive
  · rw [counted]
    exact Slices.cuts_whole positive file

/-! ### Where the requests lead -/

theorem key_verbatim {key : Str} (nonempty : key ≠ [])
    (plain : ∀ c ∈ key, isUnreserved c = true ∨ c = '/') : Verbatim key := by
  have each : ∀ c ∈ key, c.toNat < 128 ∧ c ≠ '%' ∧ c ≠ '?' ∧ c ≠ '#' := by
    intro c member
    have kept := (unreserved_or_slash_iff c).mpr (plain c member)
    have other : ∀ d, keeps uriPathSet d = false → c ≠ d := by
      rintro d reserved rfl
      rw [reserved] at kept
      cases kept
    refine ⟨?_, other '%' (by decide), other '?' (by decide), other '#' (by decide)⟩
    simp only [keeps, Bool.and_eq_true, decide_eq_true_eq] at kept
    exact kept.1
  refine ⟨nonempty, fun member => (each _ member).2.2.1 rfl, fun member => (each _ member).2.2.2 rfl, ?_⟩
  rw [← percent_decode_same_iff]
  exact percent_decode_ascii (fun c member => (each c member).1) fun member => (each _ member).2.1 rfl

section Targets
variable (form : FormDecoder) {bucket key uploadId : Str}

/-- The route wants a key. -/
theorem empty_key_nowhere (valid : validateBucketName bucket = .ok ()) :
    uploadTarget form (createUrl bucket []) = none := by
  have shape : path (createUrl bucket []) = uploadRoute ++ (bucket ++ '/' :: []) := by
    have front := upload_route_within
    have slash : Within ['/'] := by simp [Within]
    have questioned : path ([] ++ "?action=create".toList) = path [] := path_prefix [] _ (.inr rfl)
    rw [createUrl, upload_url_shape, path_append front, path_append (bucket_verbatim valid).within,
      ← List.singleton_append, path_append slash, questioned]
    rfl
  have captured : capture uploadRoute (path (createUrl bucket [])) = none := by
    rw [shape, capture_append (bucket_verbatim valid).nonempty (bucket_no_slash valid)]
    rfl
  rw [uploadTarget, captured]
  rfl

theorem create_target (valid : validateBucketName bucket = .ok ()) (verbatim : Verbatim key) :
    uploadTarget form (createUrl bucket key) = some ⟨bucket, key, ⟨none, none, some "create".toList⟩⟩ :=
  (action_url_iff form valid key (by decide)).mpr verbatim

theorem part_target (valid : validateBucketName bucket = .ok ()) (verbatim : Verbatim key)
    (uuid : isUuid uploadId = true) {number : Nat} (small : number < 2 ^ 31) :
    uploadTarget form (partUrl bucket key uploadId number) =
      some ⟨bucket, key, ⟨some uploadId, some (Int32.ofInt number), none⟩⟩ :=
  (part_url_iff form valid key uuid number _).mpr ⟨verbatim, small, rfl⟩

theorem abort_target (valid : validateBucketName bucket = .ok ()) (verbatim : Verbatim key)
    (uuid : isUuid uploadId = true) :
    uploadTarget form (abortUrl bucket key uploadId) =
      some ⟨bucket, key, ⟨some uploadId, none, some "abort".toList⟩⟩ :=
  (upload_action_url_iff form valid key uuid (by decide)).mpr verbatim

theorem complete_target (valid : validateBucketName bucket = .ok ()) (verbatim : Verbatim key)
    (uuid : isUuid uploadId = true) :
    uploadTarget form (completeUrl bucket key uploadId) =
      some ⟨bucket, key, ⟨some uploadId, none, some "complete".toList⟩⟩ :=
  (upload_action_url_iff form valid key uuid (by decide)).mpr verbatim

end Targets

/-! ### What the server answers -/

theorem to_bytes_ok {web : WebCrates} {limit : Nat} {body : Body} {bytes : Bytes}
    (read : toBytes web limit body = .ok bytes) : failure body = none ∧ delivered body = bytes := by
  induction body generalizing limit bytes with
  | nil =>
      cases read
      exact ⟨rfl, rfl⟩
  | cons piece rest ih =>
      cases piece with
      | error e => cases read
      | ok chunk =>
          rw [toBytes] at read
          split at read
          · cases read
          · cases later : toBytes web (limit - chunk.length) rest with
            | error e =>
                rw [later] at read
                cases read
            | ok found =>
                rw [later] at read
                cases read
                obtain ⟨whole, same⟩ := ih later
                exact ⟨whole, by rw [delivered, same]⟩

theorem uuid_trimmed {id : Str} (uuid : isUuid id = true) : trim id = id := by
  apply trim_plain
  intro c member
  simp only [isUuid, Bool.and_eq_true, decide_eq_true_eq, List.all_eq_true, Bool.or_eq_true] at uuid
  have own := uuid.2 c member
  have small := (uuid_chars (by simpa [isUuid] using uuid) c member).1
  have all : ∀ n : Fin 128, ((('0' ≤ Char.ofNat n.val ∧ Char.ofNat n.val ≤ '9') ∨
      ('a' ≤ Char.ofNat n.val ∧ Char.ofNat n.val ≤ 'f')) ∨ Char.ofNat n.val = '-') →
      isWhiteSpace (Char.ofNat n.val) = false := by decide +kernel
  have one := all ⟨c.toNat, small⟩
  rw [Char.ofNat_toNat] at one
  exact one own

section Requests
variable {form : FormDecoder} {crates : Crates} {storage : FsStorage} {web : WebCrates} {url : Str}
  {body : Option Bytes} {s t : FS} {reached : Reached}

/-- A request that leads nowhere. -/
theorem handled_nowhere (nowhere : uploadTarget form url = none)
    (handled : Handled form crates storage web url body s reached t) :
    received reached = .error () ∧ t = s := by
  cases handled with
  | lost => exact ⟨rfl, rfl⟩
  | unrouted text _ refused =>
      simp only [received, refused]
      exact ⟨rfl, trivial⟩
  | handled found streams run carries =>
      rw [nowhere] at found
      cases found

/-- A request that leads to the handler: it gets lost on the way, or the handler runs, and then a
success says what the handler has answered. -/
theorem handled_run {target : UploadTarget} (found : uploadTarget form url = some target)
    (handled : Handled form crates storage web url body s reached t) :
    (received reached = .error () ∧ t = s) ∨
    ∃ stream contentType response, Streams body stream ∧
      Runs faultFree (uploadHandler crates storage web target.bucket target.key target.params
        contentType stream) s (.ok response) t ∧
      ∀ text, received reached = .ok text → response.status = .ok ∧ text = response.body := by
  cases handled with
  | lost => exact .inl ⟨rfl, rfl⟩
  | unrouted text nowhere _ =>
      rw [found] at nowhere
      cases nowhere
  | @handled _ stream contentType response _ _ other streams run carries =>
      obtain rfl := Option.some.inj (found.symm.trans other)
      refine .inr ⟨stream, contentType, response, streams, run, ?_⟩
      intro text ok
      cases carries with
      | lost => cases ok
      | cut =>
          obtain ⟨status, same, _⟩ := received_ok ok
          cases same
      | whole =>
          obtain ⟨status, same, success⟩ := received_ok ok
          cases same
          cases answered : response.status with
          | ok => exact ⟨rfl, rfl⟩
          | badRequest =>
              rw [answered] at success
              cases success

end Requests

/-! ### What the server has collected -/

section Collecting
variable (crates : Crates) (storage : FsStorage) (buckets : Names Bucket)

/-- Nothing is stored but these buckets, and uploads. -/
def OnlyUploads (s : FS) : Prop := ∃ store, Holds crates storage s store ∧ store.buckets = buckets

/-- An upload into the bucket has all the listed parts of a file. -/
def Collected (bucket uploadId : Str) (file : Bytes) (numbers : List Nat) (s : FS) : Prop :=
  ∃ store upload, Holds crates storage s store ∧ store.buckets = buckets ∧
    store.staged.lookup uploadId = some upload ∧ upload.record.bucket = bucket ∧
    ∀ number ∈ numbers, upload.parts.lookup (FsStorage.partName number) = some (part file number)

variable {crates storage buckets} {bucket key uploadId : Str} {file : Bytes} {numbers : List Nat}
  {form : FormDecoder} {web : WebCrates} {body : Option Bytes} {s t : FS} {reached : Reached}

theorem collected_only (collected : Collected crates storage buckets bucket uploadId file numbers s) :
    OnlyUploads crates storage buckets s := by
  obtain ⟨store, _, holds, same, _⟩ := collected
  exact ⟨store, holds, same⟩

theorem collected_uuid (collected : Collected crates storage buckets bucket uploadId file numbers s) :
    isUuid uploadId = true := by
  obtain ⟨_, upload, holds, _, live, _⟩ := collected
  exact (holds.sound.uploads uploadId upload live).1

theorem create_handled {store : Store} (holds : Holds crates storage s store)
    (valid : validateBucketName bucket = .ok ()) (verbatim : Verbatim key)
    (handled : Handled form crates storage web (createUrl bucket key) body s reached t) :
    OnlyUploads crates storage store.buckets t ∧ ∀ id, received reached = .ok id →
      Collected crates storage store.buckets bucket id file [] t := by
  rcases handled_run (create_target form valid verbatim) handled with
    ⟨lost, rfl⟩ | ⟨stream, contentType, response, _, run, answered⟩
  · refine ⟨⟨store, holds, rfl⟩, fun id ok => ?_⟩
    rw [lost] at ok
    cases ok
  · rw [uploadHandler, if_pos rfl] at run
    obtain ⟨result, own, same⟩ := respond_run run
    obtain ⟨id, _, rfl, after⟩ := create_upload_run holds own
    have kept : (store.createMultipartUpload bucket key (resolveContentType key contentType) id).2.buckets =
        store.buckets := by
      unfold Store.createMultipartUpload
      split
      · rfl
      · split
        · rfl
        · rfl
    refine ⟨⟨_, after, kept⟩, fun text ok => ?_⟩
    obtain ⟨fine, rfl⟩ := answered text ok
    unfold Store.createMultipartUpload at same after
    rw [valid] at same after
    cases present : store.buckets.lookup bucket with
    | none =>
        simp only [present] at same
        rw [same] at fine
        cases fine
    | some old =>
        simp only [present] at same after
        subst same
        exact ⟨_, _, after, rfl, Store.live_setUpload _ _ _, rfl, fun _ member => nomatch member⟩

/-- A stored part is one more part, and the others stay: a part sent again has the same bytes. -/
theorem collected_part {store : Store} {upload : Upload} {number : Nat}
    (after : Holds crates storage t (store.setUpload uploadId
      { upload with parts := upload.parts.insert (FsStorage.partName number) (part file number) }))
    (target : upload.record.bucket = bucket)
    (parts : ∀ other ∈ numbers, upload.parts.lookup (FsStorage.partName other) = some (part file other)) :
    Collected crates storage store.buckets bucket uploadId file (numbers ++ [number]) t := by
  refine ⟨_, _, after, rfl, Store.live_setUpload _ _ _, target, ?_⟩
  intro other member
  by_cases same : other = number
  · subst same
    exact Finmap.lookup_insert _
  · have different : FsStorage.partName (other : Int) ≠ FsStorage.partName number := fun clash =>
      same (Int.ofNat.inj (part_name_injective clash))
    have listed : other ∈ numbers := (List.mem_append.mp member).resolve_right fun last =>
      same (List.mem_singleton.mp last)
    rw [Finmap.lookup_insert_of_ne _ different]
    exact parts other listed

theorem collected_fewer {fewer : List Nat} (within : fewer ⊆ numbers)
    (collected : Collected crates storage buckets bucket uploadId file numbers s) :
    Collected crates storage buckets bucket uploadId file fewer s := by
  obtain ⟨store, upload, holds, same, live, target, parts⟩ := collected
  exact ⟨store, upload, holds, same, live, target, fun number member => parts number (within member)⟩

theorem part_handled {number : Nat} (valid : validateBucketName bucket = .ok ()) (verbatim : Verbatim key)
    (collected : Collected crates storage buckets bucket uploadId file numbers s) (small : number < 2 ^ 31)
    (handled : Handled form crates storage web (partUrl bucket key uploadId number)
      (some (part file number)) s reached t) :
    Collected crates storage buckets bucket uploadId file numbers t ∧
      ∀ text, received reached = .ok text →
        Collected crates storage buckets bucket uploadId file (numbers ++ [number]) t := by
  have uuid := collected_uuid collected
  rcases handled_run (part_target form valid verbatim uuid small) handled with
    ⟨lost, rfl⟩ | ⟨stream, contentType, response, streams, run, answered⟩
  · refine ⟨collected, fun id ok => ?_⟩
    rw [lost] at ok
    cases ok
  · have create : ¬ (none : Option Str) = some "create".toList := by simp
    have complete : ¬ (none : Option Str) = some "complete".toList := by simp
    have abort : ¬ (none : Option Str) = some "abort".toList := by simp
    rw [uploadHandler, if_neg create, if_neg complete, if_neg abort] at run
    obtain ⟨result, own, same⟩ := respond_run run
    obtain ⟨store, upload, holds, rfl, live, target, parts⟩ := collected
    have fitting := fits holds (part_name_short (Int32.ofInt number))
    rw [int32_small small] at own fitting
    obtain ⟨rfl, after⟩ := wp_runs (part_within_refines holds bucket uuid number stream fitting) own
    unfold Store.uploadPart at same after
    by_cases first : (number : Int) ≤ 0
    · rw [if_pos first] at same after
      refine ⟨⟨store, upload, after, rfl, live, target, parts⟩, fun text ok => ?_⟩
      rw [same] at answered
      cases (answered text ok).1
    · rw [if_neg first] at same after
      simp only [live] at same after
      cases broken : failure stream with
      | some e =>
          simp only [broken] at same after
          refine ⟨⟨store, upload, after, rfl, live, target, parts⟩, fun text ok => ?_⟩
          rw [same] at answered
          cases (answered text ok).1
      | none =>
          have whole := streams broken
          rw [Option.getD_some] at whole
          simp only [broken, whole] at after
          have more := collected_part after target parts
          exact ⟨collected_fewer (List.subset_append_left numbers [number]) more, fun _ _ => more⟩

theorem abort_handled (valid : validateBucketName bucket = .ok ()) (verbatim : Verbatim key)
    (uuid : isUuid uploadId = true) (only : OnlyUploads crates storage buckets s)
    (handled : Handled form crates storage web (abortUrl bucket key uploadId) body s reached t) :
    OnlyUploads crates storage buckets t := by
  rcases handled_run (abort_target form valid verbatim uuid) handled with
    ⟨_, rfl⟩ | ⟨stream, contentType, response, _, run, _⟩
  · exact only
  · have create : ¬ some "abort".toList = some "create".toList := by decide
    have complete : ¬ some "abort".toList = some "complete".toList := by decide
    rw [uploadHandler, if_neg create, if_neg complete, if_pos rfl] at run
    obtain ⟨result, own, _⟩ := respond_run run
    obtain ⟨store, holds, rfl⟩ := only
    obtain ⟨_, after⟩ := wp_runs (abort_refines holds bucket uuid) own
    refine ⟨_, after, ?_⟩
    unfold Store.abortMultipartUpload
    split
    · rfl
    · rfl

end Collecting

/-! ### Completing -/

section Completing
variable {crates : Crates} {storage : FsStorage} {buckets : Names Bucket} {bucket key uploadId : Str}
  {file : Bytes} {form : FormDecoder} {web : WebCrates} {s t : FS} {reached : Reached}

/-- `serde_json` reads the list that the browser has written. -/
def ReadsJson (web : WebCrates) : Prop :=
  ∀ numbers : List Int32, (∀ number ∈ numbers, 0 < number.toInt) →
    web.partsFromJson (utf8 (bodyJson numbers)) = .ok numbers

/-- Where completing succeeds, a reader gets the parts that were put together. -/
theorem complete_stored {store : Store} {upload : Upload} {nameMax : Option Nat} {parts : List Int}
    {time : Nat} {objectMeta : ObjectMeta} {content : Bytes}
    (live : store.staged.lookup uploadId = some upload)
    (valid : validateBucketName upload.record.bucket = .ok ())
    (joined : Store.assembled upload (parts.insertionSort (· ≤ ·)) = some content)
    (answered : (store.completeWithin crates storage nameMax key uploadId parts time).1 = .ok objectMeta) :
    (store.completeWithin crates storage nameMax key uploadId parts time).2.getObject storage nameMax
      upload.record.bucket key = .ok (objectMeta, content) := by
  unfold Store.completeWithin at answered ⊢
  simp only [live, joined] at answered ⊢
  generalize (store.buckets.lookup upload.record.bucket).getD .bare = old at answered ⊢
  cases admitted : encodeKey key with
  | error e => simp [admitted] at answered
  | ok encoded =>
  simp only [admitted] at answered ⊢
  by_cases empty : key = []
  · simp [empty] at answered
  simp only [if_neg empty] at answered ⊢
  cases kept : old.sidecars with
  | none => simp [kept] at answered
  | some sidecars =>
  simp only [kept] at answered ⊢
  cases long : exceeds nameMax (FsStorage.sidecarName encoded) with
  | true => simp [long] at answered
  | false =>
  simp only [long, Bool.false_eq_true, if_false, Except.ok.injEq] at answered ⊢
  rw [answered]
  have stored : ((store.setBucket upload.record.bucket (Store.storedBucket old sidecars encoded content
      objectMeta)).dropUpload uploadId).buckets.lookup upload.record.bucket =
      some (Store.storedBucket old sidecars encoded content objectMeta) := Finmap.lookup_insert _
  have record : (Store.storedBucket old sidecars encoded content objectMeta).recordOf nameMax key =
      some objectMeta := (record_insert content objectMeta kept admitted long key).trans (if_pos rfl)
  have head := (head_record storage valid stored key objectMeta).mpr record
  have body : ((store.setBucket upload.record.bucket (Store.storedBucket old sidecars encoded content
      objectMeta)).dropUpload uploadId).bodyOf upload.record.bucket key = some content := by
    unfold Store.bodyOf
    rw [stored]
    simp [Store.storedBucket, admitted, Except.toOption]
  unfold Store.getObject
  simp only [Store.storedBucket] at head body
  rw [head]
  simp only [body]

theorem part_numbers_int {numbers : List Nat} (small : ∀ number ∈ numbers, 1 ≤ number ∧ number < 2 ^ 31) :
    (numbers.map Int32.ofNat).map Int32.toInt = numbers.map Int.ofNat := by
  rw [List.map_map]
  apply List.map_congr_left
  intro number member
  exact Int32.toInt_ofNat_of_lt (small number member).2

/-- The sorted list of the collected parts is the list itself. -/
theorem collected_assembled {upload : Upload} {numbers : List Nat} (ascending : numbers.Pairwise (· ≤ ·))
    (parts : ∀ number ∈ numbers, upload.parts.lookup (FsStorage.partName number) = some (part file number)) :
    Store.assembled upload ((numbers.map Int.ofNat).insertionSort (· ≤ ·)) =
      some (numbers.flatMap (part file)) := by
  have ordered : (numbers.map Int.ofNat).Pairwise (· ≤ ·) := by
    rw [List.pairwise_map]
    exact ascending.imp fun less => Int.ofNat_le.mpr less
  have there : ∀ number ∈ numbers.map Int.ofNat,
      upload.parts.lookup (FsStorage.partName number) = some (part file number.toNat) := by
    intro number member
    obtain ⟨own, listed, rfl⟩ := List.mem_map.mp member
    exact parts own listed
  rw [ordered.insertionSort_eq, assembled_parts there,
    List.flatMap_map]
  rfl

theorem complete_handled {numbers : List Nat} {text : Str} (reads : ReadsJson web)
    (valid : validateBucketName bucket = .ok ()) (verbatim : Verbatim key)
    (ascending : numbers.Pairwise (· ≤ ·)) (small : ∀ number ∈ numbers, 1 ≤ number ∧ number < 2 ^ 31)
    (collected : Collected crates storage buckets bucket uploadId file numbers s)
    (handled : Handled form crates storage web (completeUrl bucket key uploadId)
      (some (utf8 (bodyJson (numbers.map Int32.ofNat)))) s reached t)
    (ok : received reached = .ok text) :
    wp faultFree (fetchObject crates storage bucket key) (fun outcome _ =>
      ∃ objectMeta, outcome = .ok (objectMeta, numbers.flatMap (part file))) t := by
  have uuid := collected_uuid collected
  rcases handled_run (complete_target form valid verbatim uuid) handled with
    ⟨lost, _⟩ | ⟨stream, contentType, response, streams, run, answered⟩
  · rw [lost] at ok
    cases ok
  obtain ⟨fine, _⟩ := answered text ok
  have create : ¬ some "complete".toList = some "create".toList := by decide
  rw [uploadHandler, if_neg create, if_pos rfl, completeHandler] at run
  simp only [] at run
  cases read : toBytes web (1024 * 1024) stream with
  | error e =>
      rw [read] at run
      cases run
      cases fine
  | ok bytes =>
      obtain ⟨whole, same⟩ := to_bytes_ok read
      have sent := streams whole
      rw [Option.getD_some, same] at sent
      have positive : ∀ number ∈ numbers.map Int32.ofNat, 0 < number.toInt := by
        intro number member
        obtain ⟨own, listed, rfl⟩ := List.mem_map.mp member
        rw [Int32.toInt_ofNat_of_lt (small own listed).2]
        exact Int.ofNat_lt.mpr (small own listed).1
      rw [read, sent] at run
      simp only [reads _ positive, part_numbers_int small] at run
      obtain ⟨result, own, outcome⟩ := respond_run run
      obtain ⟨store, upload, holds, _, live, target, parts⟩ := collected
      have fitting : ∀ number ∈ numbers.map Int.ofNat,
          s.tooLong (FsStorage.partName number) = false := by
        intro number member
        rw [← part_numbers_int small] at member
        obtain ⟨short, _, rfl⟩ := List.mem_map.mp member
        exact fits holds (part_name_short short)
      obtain ⟨time, rfl, after⟩ := wp_runs (complete_within_refines holds bucket key uuid _ fitting) own
      cases made : (store.completeWithin crates storage s.nameMax key uploadId
          (numbers.map Int.ofNat) time).1 with
      | error e =>
          simp only [made] at outcome
          rw [outcome] at fine
          cases fine
      | ok objectMeta =>
          have stored := complete_stored live ((holds.sound.uploads uploadId upload live).2.valid)
            (collected_assembled ascending parts) made
          rw [target] at stored
          rw [fetch_refines after, (runs_continue own).limit, stored]
          exact ⟨objectMeta, rfl⟩

end Completing

end UploadIsland
end Ferrobucket
