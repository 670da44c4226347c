import Ferrobucket.ListingLoop
import Ferrobucket.UploadRefinement
/-! Requests of clients, served one after the other, with what each was answered. Every
request is one step of a store; what a run of requests keeps is shown on the steps. -/
namespace Ferrobucket
open Text Posix Program

inductive Request where
  | createBucket (name : Str)
  | deleteBucket (name : Str)
  | listBuckets
  | putObject (bucket key : Str) (body : Body) (contentType : Option Str)
  | getObject (bucket key : Str) (range : Option ByteRange)
  | headObject (bucket key : Str)
  | deleteObject (bucket key : Str)
  | listObjectsV2 (bucket : Str) (req : ListV2Req)
  | createMultipartUpload (bucket key : Str) (contentType : Option Str)
  | uploadPart (bucket uploadId : Str) (partNumber : Int) (body : Body)
  | completeMultipartUpload (bucket key uploadId : Str) (parts : List Int)
  | abortMultipartUpload (bucket uploadId : Str)

inductive Response where
  | done
  | object (objectMeta : ObjectMeta)
  | stream (objectMeta : ObjectMeta) (stream : ObjectStream)
  | buckets (infos : List BucketInfo)
  | page (res : ListV2Res)
  | upload (id : Str)
  | part (etag : Str)

section Serving
variable (crates : Crates) (storage : FsStorage)

def handle : Request → Op Response
  | .createBucket name => do
      createBucket crates storage name
      pure .done
  | .deleteBucket name => do
      deleteBucket storage name
      pure .done
  | .listBuckets => do
      let infos ← listBuckets crates storage
      pure (.buckets infos)
  | .putObject bucket key body contentType => do
      let objectMeta ← putObject crates storage bucket key body contentType
      pure (.object objectMeta)
  | .getObject bucket key range => do
      let found ← getObject crates storage bucket key range
      pure (.stream found.1 found.2)
  | .headObject bucket key => do
      let objectMeta ← headObject crates storage bucket key
      pure (.object objectMeta)
  | .deleteObject bucket key => do
      deleteObject storage bucket key
      pure .done
  | .listObjectsV2 bucket req => do
      let res ← listObjectsV2 crates storage bucket req
      pure (.page res)
  | .createMultipartUpload bucket key contentType => do
      let id ← createMultipartUpload crates storage bucket key contentType
      pure (.upload id)
  | .uploadPart bucket uploadId partNumber body => do
      let etag ← uploadPart crates storage bucket uploadId partNumber body
      pure (.part etag)
  | .completeMultipartUpload bucket key uploadId parts => do
      let objectMeta ← completeMultipartUpload crates storage bucket key uploadId parts
      pure (.object objectMeta)
  | .abortMultipartUpload bucket uploadId => do
      abortMultipartUpload storage bucket uploadId
      pure .done

abbrev Outcome := Except StorageError Response

/-- The requests of a run, each with its outcome. -/
inductive Served (allowed : FS → Request → Prop) : FS → List (Request × Outcome) → FS → Prop
  | nil (s : FS) : Served allowed s [] s
  | cons {s middle t : FS} {request : Request} {outcome : Outcome} {later : List (Request × Outcome)}
      (permitted : allowed s request) (run : Runs faultFree (handle crates storage request) s outcome middle)
      (rest : Served allowed middle later t) : Served allowed s ((request, outcome) :: later) t

theorem served_mono {allowed permitted : FS → Request → Prop} {s t : FS}
    {events : List (Request × Outcome)}
    (weaker : ∀ event ∈ events, ∀ state, allowed state event.1 → permitted state event.1)
    (run : Served crates storage allowed s events t) : Served crates storage permitted s events t := by
  induction run with
  | nil s => exact .nil s
  | cons first run _ ih =>
      exact .cons (weaker _ List.mem_cons_self _ first) run
        (ih fun event member => weaker event (List.mem_cons_of_mem _ member))

end Serving

/-- Upload ids are of the form in which the server issues them. -/
def Request.Issued : Request → Prop
  | .uploadPart _ uploadId _ _ => isUuid uploadId = true
  | .completeMultipartUpload _ _ uploadId _ => isUuid uploadId = true
  | .abortMultipartUpload _ uploadId => isUuid uploadId = true
  | _ => True

/-! ### One request on the store -/

/-- What a request does to a store and, where it changes anything, what it is answered. -/
def Store.Step (crates : Crates) (storage : FsStorage) (store : Store) :
    Request → Outcome → Store → Prop
  | .createBucket name, outcome, after =>
      ∃ time, outcome = (store.createBucket name time).1.map (fun _ => .done) ∧
        after = (store.createBucket name time).2
  | .deleteBucket name, outcome, after =>
      outcome = (store.deleteBucket name).1.map (fun _ => .done) ∧ after = (store.deleteBucket name).2
  | .putObject bucket key body contentType, outcome, after =>
      ∃ time, outcome = (store.putObject crates none bucket key body contentType time).1.map .object ∧
        after = (store.putObject crates none bucket key body contentType time).2
  | .deleteObject bucket key, outcome, after =>
      outcome = (store.deleteObject none bucket key).1.map (fun _ => .done) ∧
        after = (store.deleteObject none bucket key).2
  | .createMultipartUpload bucket key contentType, outcome, after =>
      ∃ id, (outcome.isOk = true → isUuid id = true ∧ store.staged.lookup id = none) ∧
        outcome = (store.createMultipartUpload bucket key contentType id).1.map .upload ∧
        after = (store.createMultipartUpload bucket key contentType id).2
  | .uploadPart _ uploadId partNumber body, outcome, after =>
      outcome = (store.uploadPart crates uploadId partNumber body).1.map .part ∧
        after = (store.uploadPart crates uploadId partNumber body).2
  | .completeMultipartUpload _ key uploadId parts, outcome, after =>
      ∃ time,
        outcome = (store.completeMultipartUpload crates storage key uploadId parts time).1.map .object ∧
        after = (store.completeMultipartUpload crates storage key uploadId parts time).2
  | .abortMultipartUpload _ uploadId, outcome, after =>
      outcome = (store.abortMultipartUpload uploadId).1.map (fun _ => .done) ∧
        after = (store.abortMultipartUpload uploadId).2
  | _, _, after => after = store

section Rules
variable {crates : Crates} {storage : FsStorage} {s t : FS} {store : Store}

theorem runs_shown {Value : Type} {call : Op Value} {shown : Value → Response} {outcome : Outcome}
    (run : Runs faultFree (call >>= fun value => pure (shown value)) s outcome t) :
    ∃ answered, outcome = answered.map shown ∧ Runs faultFree call s answered t := by
  rcases runs_bind run with ⟨value, middle, first, last⟩ | ⟨error, rfl, first⟩
  · cases last
    exact ⟨.ok value, rfl, first⟩
  · exact ⟨.error error, rfl, first⟩

theorem runs_answered {Value : Type} {call : Op Value} {shown : Value → Response} {outcome : Outcome}
    {post : Except StorageError Value → FS → Prop}
    (run : Runs faultFree (call >>= fun value => pure (shown value)) s outcome t)
    (holds : wp faultFree call post s) : ∃ answered, outcome = answered.map shown ∧ post answered t := by
  obtain ⟨answered, same, first⟩ := runs_shown run
  exact ⟨answered, same, wp_runs holds first⟩

/-- Reading changes nothing. -/
theorem wp_getObject (holds : Holds crates storage s store) (bucket key : Str)
    (range : Option ByteRange) :
    wp faultFree (getObject crates storage bucket key range) (fun _ after => after = s) s := by
  unfold getObject
  rw [wp_bind, wp_lift]
  cases valid : validateBucketName bucket with
  | error e => exact rfl
  | ok _ =>
  simp only []
  rw [wp_bind, wp_lift]
  cases admitted : encodeKey key with
  | error e => exact rfl
  | ok encoded =>
  simp only []
  rw [wp_bind, wp_readSidecar holds valid admitted]
  cases store.headObject storage s.nameMax bucket key with
  | error e => exact rfl
  | ok objectMeta =>
      cases range with
      | none =>
          simp only [streamObject, Prog.send_bind, Prog.call_bind, wp_open]
          rcases s.open (storage.objectPath bucket encoded) with e | handle
          · cases e <;> exact rfl
          · exact rfl
      | some byteRange =>
          simp only []
          cases byteRange.resolve (UInt64.ofNat objectMeta.size) with
          | none => exact rfl
          | some resolved =>
              simp only [Prog.send_bind, wp_open]
              rcases s.open (storage.objectPath bucket encoded) with e | handle
              · cases e <;> exact rfl
              · exact rfl

theorem runs_exists {Value : Type} {path : PathBuf} {next : Bool → Op Value}
    {outcome : Except StorageError Value}
    (run : Runs faultFree (.call (.exists path) next) s outcome t) :
    Runs faultFree (next (s.exists path)) s outcome t := by
  cases run with
  | call step rest =>
      obtain ⟨choice, performed⟩ := step
      cases performed
      exact rest

/-- A run that gets as far as drawing an id has found one that is new. -/
theorem unissued_dead (holds : Holds crates storage s store) {id : Str} (new : id ∉ s.issued) :
    store.staged.lookup id = none := by
  by_contra taken
  obtain ⟨upload, found⟩ := Option.ne_none_iff_exists'.mp taken
  exact new (holds.issued id upload found)

theorem create_upload_run (holds : Holds crates storage s store) {bucket key : Str}
    {contentType : Option Str} {outcome : Except StorageError Str}
    (run : Runs faultFree (createMultipartUpload crates storage bucket key contentType) s outcome t) :
    ∃ id, (outcome.isOk = true → isUuid id = true ∧ id ∉ s.issued) ∧
      outcome = (store.createMultipartUpload bucket key contentType id).1 ∧
      Holds crates storage t (store.createMultipartUpload bucket key contentType id).2 := by
  by_cases unissued : ∃ name, isUuid name = true ∧ name ∉ s.issued
  · obtain ⟨id, uuid, new, answered, still⟩ :=
      wp_runs (create_upload_refines holds unissued bucket key contentType) run
    exact ⟨id, fun _ => ⟨uuid, new⟩, answered, still⟩
  · -- No id is left, so the run has ended before it came to that.
    unfold createMultipartUpload at run
    unfold Store.createMultipartUpload
    refine ⟨[], ?_⟩
    cases valid : validateBucketName bucket with
    | error e =>
        rw [valid] at run
        cases run
        exact ⟨(fun ok => nomatch ok), rfl, holds⟩
    | ok _ =>
        rw [valid] at run
        have looked := runs_exists run
        rw [FS.exists_located (locate_bucket holds valid), look_bucket holds valid] at looked
        cases present : store.buckets.lookup bucket with
        | none =>
            rw [present] at looked
            cases looked
            exact ⟨(fun ok => nomatch ok), rfl, holds⟩
        | some old =>
            rw [present] at looked
            cases looked with
            | call step rest =>
                obtain ⟨choice, performed⟩ := step
                simp only [Call.perform] at performed
                split_ifs at performed with fits
                exact absurd ⟨choice.name, fits⟩ unissued

theorem served_step (holds : Holds crates storage s store) (unlimited : s.nameMax = none)
    (paired : store.Paired) {request : Request} {outcome : Outcome} (issued : request.Issued)
    (run : Runs faultFree (handle crates storage request) s outcome t) :
    ∃ after, store.Step crates storage request outcome after ∧ Holds crates storage t after := by
  cases request with
  | createBucket name =>
      obtain ⟨answered, rfl, time, rfl, still, _⟩ := runs_answered run (create_refines holds name)
      exact ⟨_, ⟨time, rfl, rfl⟩, still⟩
  | deleteBucket name =>
      obtain ⟨answered, rfl, rfl, still⟩ := runs_answered run (delete_bucket_refines holds paired name)
      exact ⟨_, ⟨rfl, rfl⟩, still⟩
  | listBuckets =>
      obtain ⟨answered, rfl, rfl, _⟩ := runs_answered run (list_buckets_refines holds)
      exact ⟨store, rfl, holds⟩
  | putObject bucket key body contentType =>
      obtain ⟨answered, rfl, time, rfl, still⟩ :=
        runs_answered run (put_refines holds bucket key body contentType)
      rw [unlimited] at still ⊢
      exact ⟨_, ⟨time, rfl, rfl⟩, still⟩
  | getObject bucket key range =>
      obtain ⟨answered, rfl, rfl⟩ := runs_answered run (wp_getObject holds bucket key range)
      exact ⟨store, rfl, holds⟩
  | headObject bucket key =>
      obtain ⟨answered, rfl, rfl⟩ := runs_answered run
        ((head_refines holds bucket key fun _ after => after = s).mpr rfl)
      exact ⟨store, rfl, holds⟩
  | deleteObject bucket key =>
      obtain ⟨answered, rfl, rfl, still⟩ := runs_answered run (delete_refines holds bucket key)
      rw [unlimited] at still ⊢
      exact ⟨_, ⟨rfl, rfl⟩, still⟩
  | listObjectsV2 bucket req =>
      obtain ⟨answered, rfl, rfl⟩ := runs_answered run
        (list_refines holds bucket req (fun _ after => after = s) rfl)
      exact ⟨store, rfl, holds⟩
  | createMultipartUpload bucket key contentType =>
      obtain ⟨answered, rfl, first⟩ := runs_shown run
      obtain ⟨id, fresh, rfl, still⟩ := create_upload_run holds first
      refine ⟨_, ⟨id, ?_, rfl, rfl⟩, still⟩
      intro succeeded
      suffices whole : (store.createMultipartUpload bucket key contentType id).1.isOk = true by
        exact ⟨(fresh whole).1, unissued_dead holds (fresh whole).2⟩
      cases made : (store.createMultipartUpload bucket key contentType id).1 with
      | error e => simp [made, Except.map, Except.isOk, Except.toBool] at succeeded
      | ok made => rfl
  | uploadPart bucket uploadId partNumber body =>
      obtain ⟨answered, rfl, rfl, still⟩ :=
        runs_answered run (part_refines holds unlimited bucket issued partNumber body)
      exact ⟨_, ⟨rfl, rfl⟩, still⟩
  | completeMultipartUpload bucket key uploadId parts =>
      obtain ⟨answered, rfl, time, rfl, still⟩ :=
        runs_answered run (complete_refines holds unlimited bucket key issued parts)
      exact ⟨_, ⟨time, rfl, rfl⟩, still⟩
  | abortMultipartUpload bucket uploadId =>
      obtain ⟨answered, rfl, rfl, still⟩ := runs_answered run (abort_refines holds bucket issued)
      exact ⟨_, ⟨rfl, rfl⟩, still⟩

end Rules
/-! ### What a step does to one bucket and to one upload -/

/-- The changes of a bucket that is there before and after. `Writes encoded key` says for
which name a record with the field `key` is written. -/
inductive Bucket.Change (Writes : Str → Str → Prop) (old : Bucket) : Bucket → Prop
  | same : Change Writes old old
  | body (encoded : Str) (content : Bytes) (bare : old.sidecars = none) :
      Change Writes old { old with objects := old.objects.insert encoded content }
  | whole {sidecars : Names ObjectMeta} (encoded : Str) (content : Bytes) (objectMeta : ObjectMeta)
      (kept : old.sidecars = some sidecars) (named : Writes encoded objectMeta.key) :
      Change Writes old (Store.storedBucket old sidecars encoded content objectMeta)
  | bodyGone (encoded : Str) (bare : old.sidecars = none) :
      Change Writes old { old with objects := old.objects.erase encoded }
  | gone {sidecars : Names ObjectMeta} (encoded : Str) (kept : old.sidecars = some sidecars) :
      Change Writes old
        { old with
          objects := old.objects.erase encoded
          sidecars := some (sidecars.erase (FsStorage.sidecarName encoded)) }

/-- The names for which a request writes a record with a key. -/
def Request.Writes (store : Store) (request : Request) (encoded key : Str) : Prop :=
  match request with
  | .putObject _ own _ _ => key = own ∧ encodeKey own = .ok encoded
  | .completeMultipartUpload _ own uploadId _ =>
      encodeKey own = .ok encoded ∧
        ∃ upload, store.staged.lookup uploadId = some upload ∧ upload.record.key = key
  | _ => False

/-- What a request may do to the bucket of one name. -/
inductive Store.BucketStep (store : Store) (request : Request) (outcome : Outcome) (name : Str) :
    Option Bucket → Option Bucket → Prop
  | absent : BucketStep store request outcome name none none
  | deleted {old : Bucket} (asked : request = .deleteBucket name) (succeeded : outcome.isOk = true) :
      BucketStep store request outcome name (some old) none
  | made (asked : request = .createBucket name) (info : BucketInfo) :
      BucketStep store request outcome name none (some (.fresh info))
  | bare {upload : Upload} {bucket key uploadId : Str} {parts : List Int} {new : Bucket}
      (asked : request = .completeMultipartUpload bucket key uploadId parts)
      (live : store.staged.lookup uploadId = some upload) (target : upload.record.bucket = name)
      (changed : Bucket.bare.Change (request.Writes store) new) :
      BucketStep store request outcome name none (some new)
  | changed {old new : Bucket} (changed : old.Change (request.Writes store) new) :
      BucketStep store request outcome name (some old) (some new)

section Steps
variable {crates : Crates} {storage : FsStorage} {store after : Store} {request : Request}
  {outcome : Outcome}

theorem bucket_same (name : Str) :
    store.BucketStep request outcome name (store.buckets.lookup name) (store.buckets.lookup name) := by
  cases store.buckets.lookup name with
  | none => exact .absent
  | some old => exact .changed .same

/-- A bucket that is replaced; all others stay. -/
theorem bucket_replaced {changedName : Str} {new : Bucket}
    (here : store.BucketStep request outcome changedName (store.buckets.lookup changedName) (some new))
    (name : Str) :
    store.BucketStep request outcome name (store.buckets.lookup name)
      ((store.setBucket changedName new).buckets.lookup name) := by
  by_cases same : name = changedName
  · subst same
    simpa [Store.setBucket] using here
  · simpa [Store.setBucket, Finmap.lookup_insert_of_ne _ same] using bucket_same name

theorem step_bucket (step : store.Step crates storage request outcome after) (name : Str) :
    store.BucketStep request outcome name (store.buckets.lookup name) (after.buckets.lookup name) := by
  cases request with
  | createBucket asked =>
      obtain ⟨time, rfl, rfl⟩ := step
      unfold Store.createBucket
      cases validateBucketName asked with
      | error e => exact bucket_same name
      | ok _ =>
          cases present : store.buckets.lookup asked with
          | some old => exact bucket_same name
          | none =>
              apply bucket_replaced
              rw [present]
              exact .made rfl _
  | deleteBucket asked =>
      obtain ⟨rfl, rfl⟩ := step
      unfold Store.deleteBucket
      cases validateBucketName asked with
      | error e => exact bucket_same name
      | ok _ =>
          cases present : store.buckets.lookup asked with
          | none => exact bucket_same name
          | some old =>
              by_cases empty : old.objects = ∅
              · simp only [if_pos empty]
                by_cases same : name = asked
                · subst same
                  simp only [present, Store.dropBucket, Finmap.lookup_erase]
                  exact .deleted rfl rfl
                · simpa [Store.dropBucket, Finmap.lookup_erase_ne same] using bucket_same name
              · simp only [if_neg empty]
                exact bucket_same name
  | putObject bucket key body contentType =>
      obtain ⟨time, rfl, rfl⟩ := step
      unfold Store.putObject
      cases validateBucketName bucket with
      | error e => exact bucket_same name
      | ok _ =>
      cases present : store.buckets.lookup bucket with
      | none => exact bucket_same name
      | some old =>
      cases admitted : encodeKey key with
      | error e => exact bucket_same name
      | ok encoded =>
      cases failure body with
      | some e => exact bucket_same name
      | none =>
          by_cases empty : key = []
          · simp only [if_pos empty]
            exact bucket_same name
          · simp only [if_neg empty]
            cases kept : old.sidecars with
            | none =>
                apply bucket_replaced
                rw [present]
                have changed : old.Change (Request.Writes store
                  (.putObject bucket key body contentType)) _ := .body encoded (delivered body) kept
                rw [kept] at changed
                exact .changed changed
            | some sidecars =>
                apply bucket_replaced
                rw [present]
                exact .changed (.whole encoded (delivered body) _ kept ⟨rfl, admitted⟩)
  | deleteObject bucket key =>
      obtain ⟨rfl, rfl⟩ := step
      unfold Store.deleteObject
      cases validateBucketName bucket with
      | error e => exact bucket_same name
      | ok _ =>
      cases admitted : encodeKey key with
      | error e => exact bucket_same name
      | ok encoded =>
      cases present : store.buckets.lookup bucket with
      | none => exact bucket_same name
      | some old =>
          by_cases empty : key = []
          · simp only [if_pos empty]
            exact bucket_same name
          · simp only [if_neg empty]
            cases stored : old.objects.lookup encoded with
            | none => exact bucket_same name
            | some body =>
                cases kept : old.sidecars with
                | none =>
                    apply bucket_replaced
                    rw [present]
                    have changed : old.Change (Request.Writes store (.deleteObject bucket key)) _ :=
                      .bodyGone encoded kept
                    rw [kept] at changed
                    exact .changed changed
                | some sidecars =>
                    apply bucket_replaced
                    rw [present]
                    exact .changed (.gone encoded kept)
  | completeMultipartUpload bucket key uploadId parts =>
      obtain ⟨time, rfl, rfl⟩ := step
      unfold Store.completeMultipartUpload
      cases live : store.staged.lookup uploadId with
      | none => exact bucket_same name
      | some upload =>
      simp only []
      -- The bucket is the one of the upload, made anew if it is gone.
      have replaced : ∀ {result : Except StorageError ObjectMeta} {new : Bucket},
          ((store.buckets.lookup upload.record.bucket).getD .bare).Change
            (Request.Writes store (.completeMultipartUpload bucket key uploadId parts)) new →
          store.BucketStep (.completeMultipartUpload bucket key uploadId parts) (result.map .object)
            name (store.buckets.lookup name)
            ((store.setBucket upload.record.bucket new).buckets.lookup name) := by
        intro result new changed
        apply bucket_replaced
        cases present : store.buckets.lookup upload.record.bucket with
        | none =>
            rw [present] at changed
            exact .bare rfl live rfl changed
        | some old =>
            rw [present] at changed
            exact .changed changed
      generalize (store.buckets.lookup upload.record.bucket).getD .bare = old at replaced ⊢
      cases admitted : encodeKey key with
      | error e => exact replaced .same
      | ok encoded =>
      cases assembled : Store.assembled upload (parts.insertionSort (· ≤ ·)) with
      | none => exact replaced .same
      | some body =>
          by_cases empty : key = []
          · simp only [if_pos empty]
            exact replaced .same
          · simp only [if_neg empty]
            cases kept : old.sidecars with
            | none =>
                have changed : old.Change (Request.Writes store
                  (.completeMultipartUpload bucket key uploadId parts)) _ := .body encoded body kept
                rw [kept] at changed
                exact replaced changed
            | some sidecars =>
                exact replaced (.whole encoded body _ kept ⟨admitted, upload, live, rfl⟩)
  | createMultipartUpload bucket key contentType =>
      obtain ⟨id, _, rfl, rfl⟩ := step
      unfold Store.createMultipartUpload
      split
      · exact bucket_same name
      · split
        · exact bucket_same name
        · exact bucket_same name
  | uploadPart bucket uploadId partNumber body =>
      obtain ⟨rfl, rfl⟩ := step
      unfold Store.uploadPart
      split
      · exact bucket_same name
      · split
        · exact bucket_same name
        · split
          · exact bucket_same name
          · exact bucket_same name
  | abortMultipartUpload bucket uploadId =>
      obtain ⟨rfl, rfl⟩ := step
      unfold Store.abortMultipartUpload
      split
      · exact bucket_same name
      · exact bucket_same name
  | listBuckets | getObject bucket key range | headObject bucket key | listObjectsV2 bucket req =>
      obtain rfl := step
      exact bucket_same name

/-- The request has stored a part of the upload. -/
def Request.StoresPart (uploadId : Str) (request : Request) (outcome : Outcome) : Prop :=
  match request with
  | .uploadPart _ id _ _ => id = uploadId ∧ outcome.isOk = true
  | _ => False

/-- What a request may do to the upload of one id. -/
inductive Store.UploadStep (request : Request) (outcome : Outcome) (id : Str) :
    Option Upload → Option Upload → Prop
  | same (live : Option Upload) (quiet : ¬ request.StoresPart id outcome) :
      UploadStep request outcome id live live
  | created {bucket key : Str} {contentType : Option Str}
      (asked : request = .createMultipartUpload bucket key contentType)
      (answered : outcome = .ok (.upload id)) (uuid : isUuid id = true) :
      UploadStep request outcome id none (some ⟨⟨bucket, key, contentType⟩, ∅⟩)
  | stored {upload : Upload} {bucket : Str} {partNumber : Int} {body : Body}
      (asked : request = .uploadPart bucket id partNumber body) (succeeded : outcome.isOk = true)
      (whole : failure body = none) :
      UploadStep request outcome id (some upload)
        (some { upload with
          parts := upload.parts.insert (FsStorage.partName partNumber) (delivered body) })
  | completed {upload : Upload} {bucket key : Str} {parts : List Int}
      (asked : request = .completeMultipartUpload bucket key id parts) (succeeded : outcome.isOk = true) :
      UploadStep request outcome id (some upload) none
  | aborted {upload : Upload} {bucket : Str} (asked : request = .abortMultipartUpload bucket id) :
      UploadStep request outcome id (some upload) none

theorem staged_setUpload (id other : Str) (upload : Upload) :
    (store.setUpload id upload).staged.lookup other =
      if other = id then some upload else store.staged.lookup other := by
  by_cases same : other = id
  · subst same
    simp [Store.setUpload, Store.staged]
  · simp [Store.setUpload, Store.staged, same, Finmap.lookup_insert_of_ne _ same]

theorem staged_dropUpload (id other : Str) :
    (store.dropUpload id).staged.lookup other =
      if other = id then none else store.staged.lookup other := by
  by_cases same : other = id
  · subst same
    cases uploads : store.uploads <;> simp [Store.dropUpload, Store.staged, uploads]
  · cases uploads : store.uploads <;>
      simp [Store.dropUpload, Store.staged, uploads, same, Finmap.lookup_erase_ne same]

theorem step_upload (step : store.Step crates storage request outcome after) (id : Str) :
    Store.UploadStep request outcome id (store.staged.lookup id) (after.staged.lookup id) := by
  cases request with
  | createBucket name =>
      obtain ⟨time, rfl, rfl⟩ := step
      unfold Store.createBucket
      split
      · exact .same _ not_false
      · split
        · exact .same _ not_false
        · exact .same _ not_false
  | deleteBucket name =>
      obtain ⟨rfl, rfl⟩ := step
      unfold Store.deleteBucket
      split
      · exact .same _ not_false
      · split
        · exact .same _ not_false
        · split
          · exact .same _ not_false
          · exact .same _ not_false
  | putObject bucket key body contentType =>
      obtain ⟨time, rfl, rfl⟩ := step
      unfold Store.putObject
      repeat' split
      all_goals exact .same _ not_false
  | deleteObject bucket key =>
      obtain ⟨rfl, rfl⟩ := step
      unfold Store.deleteObject
      repeat' split
      all_goals exact .same _ not_false
  | createMultipartUpload bucket key contentType =>
      obtain ⟨made, fresh, rfl, rfl⟩ := step
      unfold Store.createMultipartUpload at fresh ⊢
      split
      · exact .same _ not_false
      · next valid =>
          split
          · exact .same _ not_false
          · next old present =>
              simp only [valid, present] at fresh
              obtain ⟨uuid, absent⟩ := fresh rfl
              simp only [staged_setUpload]
              by_cases same : id = made
              · subst same
                rw [if_pos rfl, absent]
                exact .created rfl rfl uuid
              · rw [if_neg same]
                exact .same _ not_false
  | uploadPart bucket uploadId partNumber body =>
      obtain ⟨rfl, rfl⟩ := step
      unfold Store.uploadPart
      have failed : ∀ e : StorageError, ¬ Request.StoresPart id
          (.uploadPart bucket uploadId partNumber body) (Except.map .part (.error e)) := by
        rintro e ⟨_, ok⟩
        cases ok
      split
      · exact .same _ (failed _)
      · split
        · exact .same _ (failed _)
        · next upload live =>
            split
            · exact .same _ (failed _)
            · next whole =>
                simp only [staged_setUpload]
                by_cases same : id = uploadId
                · subst same
                  rw [if_pos rfl, live]
                  exact .stored rfl rfl whole
                · rw [if_neg same]
                  exact .same _ fun stores => same stores.1.symm
  | completeMultipartUpload bucket key uploadId parts =>
      obtain ⟨time, rfl, rfl⟩ := step
      unfold Store.completeMultipartUpload
      cases live : store.staged.lookup uploadId with
      | none => exact .same _ not_false
      | some upload =>
          simp only []
          repeat' split
          all_goals try exact .same _ not_false
          simp only [staged_dropUpload]
          by_cases same : id = uploadId
          · subst same
            rw [if_pos rfl, live]
            exact .completed rfl rfl
          · rw [if_neg same]
            exact .same _ not_false
  | abortMultipartUpload bucket uploadId =>
      obtain ⟨rfl, rfl⟩ := step
      unfold Store.abortMultipartUpload
      cases live : store.staged.lookup uploadId with
      | none => exact .same _ not_false
      | some upload =>
          simp only [staged_dropUpload]
          by_cases same : id = uploadId
          · subst same
            rw [if_pos rfl, live]
            exact .aborted rfl
          · rw [if_neg same]
            exact .same _ not_false
  | listBuckets | getObject bucket key range | headObject bucket key | listObjectsV2 bucket req =>
      obtain rfl := step
      exact .same _ not_false

/-! No sidecar is ever without its body. -/

theorem change_paired {Writes : Str → Str → Prop} {old new : Bucket} (paired : old.Paired)
    (changed : old.Change Writes new) : new.Paired := by
  intro found encoded objectMeta present stored
  cases changed with
  | same => exact paired found encoded objectMeta present stored
  | body name content bare =>
      simp only [bare] at present
      cases present
  | whole name content other kept _ =>
      obtain rfl := Option.some.inj present
      by_cases same : encoded = name
      · subst same
        exact ⟨content, Finmap.lookup_insert _⟩
      · have different : FsStorage.sidecarName encoded ≠ FsStorage.sidecarName name :=
          fun clash => same (sidecar_injective clash)
        rw [Finmap.lookup_insert_of_ne _ different] at stored
        obtain ⟨body, inside⟩ := paired _ encoded objectMeta kept stored
        exact ⟨body, (Finmap.lookup_insert_of_ne _ same).trans inside⟩
  | bodyGone name bare =>
      simp only [bare] at present
      cases present
  | gone name kept =>
      obtain rfl := Option.some.inj present
      by_cases same : encoded = name
      · subst same
        simp at stored
      · have different : FsStorage.sidecarName encoded ≠ FsStorage.sidecarName name :=
          fun clash => same (sidecar_injective clash)
        rw [Finmap.lookup_erase_ne different] at stored
        obtain ⟨body, inside⟩ := paired _ encoded objectMeta kept stored
        exact ⟨body, (Finmap.lookup_erase_ne same).trans inside⟩

theorem fresh_paired (info : BucketInfo) : (Bucket.fresh info).Paired := by
  intro sidecars encoded objectMeta kept stored
  obtain rfl := Option.some.inj kept
  simp at stored

theorem bare_paired : Bucket.bare.Paired := by
  intro sidecars encoded objectMeta kept
  cases kept

theorem step_paired (paired : store.Paired) (step : store.Step crates storage request outcome after) :
    after.Paired := by
  intro name bucket present
  have own := step_bucket step name
  rw [present] at own
  cases before : store.buckets.lookup name with
  | none =>
      rw [before] at own
      cases own with
      | made _ info => exact fresh_paired info
      | bare _ _ _ changed => exact change_paired bare_paired changed
  | some old =>
      rw [before] at own
      cases own with
      | changed changed => exact change_paired (paired name old before) changed

end Steps

/-- Between two requests. -/
structure Standing (crates : Crates) (storage : FsStorage) (s : FS) (store : Store) : Prop where
  holds : Holds crates storage s store
  unlimited : s.nameMax = none
  paired : store.Paired

theorem standing_step {crates : Crates} {storage : FsStorage} {s t : FS} {store : Store}
    {request : Request} {outcome : Outcome} (standing : Standing crates storage s store)
    (issued : request.Issued) (run : Runs faultFree (handle crates storage request) s outcome t) :
    ∃ after, store.Step crates storage request outcome after ∧ Standing crates storage t after := by
  obtain ⟨after, step, still⟩ := served_step standing.holds standing.unlimited standing.paired issued run
  exact ⟨after, step, still, (runs_continue run).limit.trans standing.unlimited,
    step_paired standing.paired step⟩

theorem standing_start (crates : Crates) {storage : FsStorage} {s : FS} (start : EmptyRoot storage s)
    (unlimited : s.nameMax = none) : Standing crates storage s .empty := by
  refine ⟨holds_empty crates start (.inl unlimited), unlimited, ?_⟩
  intro name bucket present
  simp [Store.empty] at present

end Ferrobucket
