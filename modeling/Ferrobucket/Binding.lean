import Ferrobucket.Assembly
/-! Uploads that are completed only under the bucket and the key they were created for:
then every sidecar names the key of its own file, and a listing shows exactly the keys
whose bodies can be read. `complete_multipart_upload` does not look at its bucket and
takes the path from one source and the record from another, so it is the requests that
have to agree. -/
namespace Ferrobucket
open Text Posix Program

/-- The upload, if it is still there, was created for this bucket and this key. -/
def Matches (crates : Crates) (storage : FsStorage) (s : FS) (bucket key uploadId : Str) : Prop :=
  ∀ record : MultipartMeta,
    s.look (multipartJsonName :: uploadId :: uploadsName :: storage.dataRoot) =
      some (.file (crates.multipartMeta.encode record)) →
    record.bucket = bucket ∧ record.key = key

/-- Completing only what was created for this bucket and key, and before the bucket is gone. -/
def Request.Bound (crates : Crates) (storage : FsStorage) (s : FS) : Request → Prop
  | .completeMultipartUpload bucket key uploadId _ =>
      Matches crates storage s bucket key uploadId ∧
        (s.look (uploadId :: uploadsName :: storage.dataRoot) = some .dir →
          s.look (bucket :: storage.dataRoot) = some .dir)
  | _ => True

/-- What the binding of an upload to its bucket and key asks of one call. -/
def Binds (crates : Crates) (storage : FsStorage) (s : FS) (bucket key uploadId other otherKey : Str)
    (parts : List Int) : Prop :=
  wp faultFree (completeMultipartUpload crates storage other otherKey uploadId parts)
    (fun outcome after => (outcome.isOk = true → other = bucket ∧ otherKey = key) ∧
      (¬ (other = bucket ∧ otherKey = key) →
        (∃ path, outcome = .error (.NoSuchUpload path)) ∧ after = s)) s

/-! ### On the store -/

def Store.Complete (store : Store) : Prop :=
  ∀ name bucket, store.buckets.lookup name = some bucket → bucket.Complete none

/-- The upload, if it is still there, is one for this bucket and this key. -/
def Store.Owned (store : Store) (bucket key uploadId : Str) : Prop :=
  ∀ upload, store.staged.lookup uploadId = some upload →
    upload.record.bucket = bucket ∧ upload.record.key = key

section Views
variable {crates : Crates} {storage : FsStorage} {s : FS} {store : Store}

theorem look_record (holds : Holds crates storage s store) (uploadId : Str) :
    s.look (multipartJsonName :: uploadId :: uploadsName :: storage.dataRoot) =
      (store.staged.lookup uploadId).map fun upload =>
        .file (crates.multipartMeta.encode upload.record) := by
  have seen := look_staged holds uploadId [multipartJsonName]
  cases found : store.staged.lookup uploadId <;> simpa [found, Upload.view] using seen

theorem matches_iff (holds : Holds crates storage s store) (bucket key uploadId : Str) :
    Matches crates storage s bucket key uploadId ↔ store.Owned bucket key uploadId := by
  unfold Matches Store.Owned
  rw [look_record holds]
  constructor
  · intro matching upload live
    exact matching upload.record (by rw [live]; rfl)
  · intro owned record present
    obtain ⟨upload, live, same⟩ := Option.map_eq_some_iff.mp present
    obtain rfl := codec_injective crates.multipartMeta (FS.Entry.file.inj same)
    exact owned upload live

theorem bound_bucket (holds : Holds crates storage s store) {bucket key uploadId : Str}
    {parts : List Int} {upload : Upload}
    (bound : (Request.completeMultipartUpload bucket key uploadId parts).Bound crates storage s)
    (live : store.staged.lookup uploadId = some upload) :
    upload.record.bucket = bucket ∧ upload.record.key = key ∧
      ∃ old, store.buckets.lookup bucket = some old := by
  obtain ⟨matching, there⟩ := bound
  obtain ⟨rfl, rfl⟩ := (matches_iff holds bucket key uploadId).mp matching upload live
  have valid := (holds.sound.uploads uploadId upload live).2.valid
  rw [look_upload holds, live, look_bucket holds valid] at there
  obtain ⟨old, present, _⟩ := Option.map_eq_some_iff.mp (there rfl)
  exact ⟨rfl, rfl, old, present⟩

end Views
/-! ### One call on an upload -/

section Calls
variable {crates : Crates} {storage : FsStorage} {s t : FS} {store : Store} {uploadId : Str}

theorem complete_dead (holds : Holds crates storage s store) (uuid : isUuid uploadId = true)
    (dead : store.staged.lookup uploadId = none) (bucket key : Str) (parts : List Int) :
    wp faultFree (completeMultipartUpload crates storage bucket key uploadId parts)
      (fun outcome after => (∃ path, outcome = .error (.NoSuchUpload path)) ∧ after = s) s := by
  unfold completeMultipartUpload readMultipartMeta
  rw [wp_bind, wp_readJson, contents_record holds uuid, dead]
  exact ⟨⟨_, rfl⟩, rfl⟩

theorem encode_key_refusal {key : Str} {e : StorageError} (refused : encodeKey key = .error e)
    (path : Str) : e ≠ .NoSuchUpload path := by
  rintro rfl
  unfold encodeKey at refused
  simp only [] at refused
  split_ifs at refused
  all_goals cases refused

theorem complete_live {upload : Upload} (live : store.staged.lookup uploadId = some upload)
    (key : Str) (parts : List Int) (time : Nat) (path : Str) :
    (store.completeMultipartUpload crates storage key uploadId parts time).1 ≠
      .error (.NoSuchUpload path) := by
  unfold Store.completeMultipartUpload
  simp only [live]
  intro answered
  cases admitted : encodeKey key with
  | error e =>
      rw [admitted] at answered
      exact encode_key_refusal admitted path (Except.error.inj answered)
  | ok encoded =>
      simp only [admitted] at answered
      split at answered
      · cases answered
      · split_ifs at answered
        · cases answered
        · split at answered
          · cases answered
          · cases answered

/-- One call on an upload does what the binding asks exactly if it names the bucket and
the key of the upload, or the upload is not there any more. -/
theorem binds_iff (holds : Holds crates storage s store) (unlimited : s.nameMax = none)
    (uuid : isUuid uploadId = true) {bucket key : Str} (owned : store.Owned bucket key uploadId)
    (other otherKey : Str) (parts : List Int) :
    Binds crates storage s bucket key uploadId other otherKey parts ↔
      Matches crates storage s other otherKey uploadId := by
  rw [matches_iff holds]
  cases live : store.staged.lookup uploadId with
  | none =>
      have absent : store.Owned other otherKey uploadId := by
        intro upload present
        rw [live] at present
        cases present
      refine ⟨fun _ => absent, fun _ => ?_⟩
      apply wp_mono (complete_dead holds uuid live other otherKey parts)
      rintro outcome after ⟨⟨path, rfl⟩, rfl⟩
      exact ⟨(fun ok => nomatch ok), fun _ => ⟨⟨path, rfl⟩, rfl⟩⟩
  | some upload =>
      obtain ⟨rfl, rfl⟩ := owned upload live
      have answered := complete_refines holds unlimited other otherKey uuid parts
      constructor
      · intro binds present same
        obtain rfl := Option.some.inj (live.symm.trans same)
        by_contra different
        -- The call runs, and what it answers is not what the binding asks.
        obtain ⟨outcome, after, run, time, rfl, _⟩ := wp_returns answered
        obtain ⟨_, refused⟩ := wp_runs binds run
        obtain ⟨⟨path, missing⟩, _⟩ := refused fun same => different ⟨same.1.symm, same.2.symm⟩
        exact complete_live live otherKey parts time path missing
      · intro matching
        obtain ⟨rfl, rfl⟩ := matching upload live
        exact wp_mono answered fun _ _ _ => ⟨fun _ => ⟨rfl, rfl⟩, fun different => absurd ⟨rfl, rfl⟩ different⟩

theorem created_new (holds : Holds crates storage s store) {bucket key : Str}
    {contentType : Option Str}
    (run : Runs faultFree (handle crates storage (.createMultipartUpload bucket key contentType)) s
      (.ok (.upload uploadId)) t) : uploadId ∉ s.issued := by
  obtain ⟨answered, same, first⟩ := runs_shown run
  cases answered with
  | error e => cases same
  | ok made =>
      obtain rfl := Response.upload.inj (Except.ok.inj same)
      obtain ⟨id, fresh, created, _⟩ := create_upload_run holds first
      have new := (fresh rfl).2
      unfold Store.createMultipartUpload at created
      split at created
      · cases created
      · split at created
        · cases created
        · obtain rfl := Except.ok.inj created
          exact new

end Calls
/-! ### Every bucket stays complete -/

section Buckets
variable {old new : Bucket} {encoded : Str}

theorem complete_erase {sidecars : Names ObjectMeta} (complete : old.Complete none)
    (kept : old.sidecars = some sidecars) :
    Bucket.Complete none { old with
      objects := old.objects.erase encoded
      sidecars := some (sidecars.erase (FsStorage.sidecarName encoded)) } := by
  constructor
  · rfl
  · rintro key ⟨name, body, admitted, stored⟩
    by_cases same : name = encoded
    · subst same
      rw [Finmap.lookup_erase] at stored
      cases stored
    · rw [Finmap.lookup_erase_ne same] at stored
      obtain ⟨objectMeta, record, named⟩ := complete.records key ⟨name, body, admitted, stored⟩
      refine ⟨objectMeta, ?_, named⟩
      have different : FsStorage.sidecarName name ≠ FsStorage.sidecarName encoded :=
        fun clash => same (sidecar_injective clash)
      simpa [Bucket.recordOf, kept, admitted, Except.toOption, Finmap.lookup_erase_ne different]
        using record

theorem change_complete {Writes : Str → Str → Prop} (complete : old.Complete none)
    (own : ∀ encoded key, Writes encoded key → encodeKey key = .ok encoded)
    (changed : old.Change Writes new) : new.Complete none := by
  cases changed with
  | same => exact complete
  | body _ _ bare =>
      have there := complete.sidecars
      rw [bare] at there
      cases there
  | whole encoded content objectMeta kept named =>
      exact complete_insert content objectMeta complete kept (own _ _ named) rfl rfl
  | bodyGone _ bare =>
      have there := complete.sidecars
      rw [bare] at there
      cases there
  | gone encoded kept => exact complete_erase complete kept

/-- Where the bucket is complete, what can be read is what is stored. -/
theorem fetched_iff {storage : FsStorage} {store : Store} {name : Str} (complete : old.Complete none)
    (valid : validateBucketName name = .ok ()) (present : store.buckets.lookup name = some old)
    (key : Str) : (store.getObject storage none name key).isOk = true ↔ old.Stores key := by
  have body : store.bodyOf name key =
      (encodeKey key).toOption.bind fun encoded => old.objects.lookup encoded := by
    simp [Store.bodyOf, present]
  unfold Store.getObject
  rw [body]
  constructor
  · intro found
    cases head : store.headObject storage none name key with
    | error e => simp [head, Except.isOk, Except.toBool] at found
    | ok objectMeta =>
        cases admitted : encodeKey key with
        | error e => simp [head, admitted, Except.isOk, Except.toBool, Except.toOption] at found
        | ok encoded =>
            cases stored : old.objects.lookup encoded with
            | none => simp [head, admitted, stored, Except.isOk, Except.toBool, Except.toOption] at found
            | some body => exact ⟨encoded, body, admitted, stored⟩
  · intro stores
    obtain ⟨objectMeta, record, _⟩ := complete.records key stores
    have head := (head_record storage valid present key objectMeta).mpr record
    obtain ⟨encoded, body, admitted, stored⟩ := stores
    simp [head, admitted, stored, Except.isOk, Except.toBool, Except.toOption]

/-- A sidecar in a complete bucket names the key of its own file. -/
theorem sidecar_named {name : Str} {sidecars : Names ObjectMeta} {objectMeta : ObjectMeta}
    (complete : old.Complete none) (sound : old.Sound name) (paired : old.Paired)
    (kept : old.sidecars = some sidecars)
    (written : sidecars.lookup (FsStorage.sidecarName encoded) = some objectMeta) :
    decodeKey encoded = .ok objectMeta.key := by
  obtain ⟨body, stored⟩ := paired sidecars encoded objectMeta kept written
  obtain ⟨key, _, admitted⟩ := sound.objects encoded body stored
  obtain ⟨found, record, named⟩ := complete.records key ⟨encoded, body, admitted, stored⟩
  have same : found = objectMeta := by
    simpa [Bucket.recordOf, kept, admitted, Except.toOption, written, exceeds, eq_comm] using record
  rw [decode_encode_key admitted, ← same, named]

end Buckets
/-! ### Runs -/

section Runs
variable {crates : Crates} {storage : FsStorage} {s t : FS} {store after : Store} {request : Request}
  {outcome : Outcome}

theorem bound_writes (holds : Holds crates storage s store) (bound : request.Bound crates storage s)
    (encoded key : Str) (written : request.Writes store encoded key) : encodeKey key = .ok encoded := by
  cases request with
  | putObject bucket own body contentType =>
      obtain ⟨rfl, admitted⟩ := written
      exact admitted
  | completeMultipartUpload bucket own uploadId parts =>
      obtain ⟨admitted, upload, live, rfl⟩ := written
      obtain ⟨_, same, _⟩ := bound_bucket holds bound live
      rw [same]
      exact admitted
  | _ => exact absurd written not_false

theorem complete_step (holds : Holds crates storage s store) (complete : store.Complete)
    (bound : request.Bound crates storage s) (step : store.Step crates storage request outcome after) :
    after.Complete := by
  intro name bucket present
  have own := step_bucket step name
  rw [present] at own
  cases before : store.buckets.lookup name with
  | none =>
      rw [before] at own
      cases own with
      | made _ info => exact fresh_complete none info
      | bare asked live target _ =>
          -- A bucket is made by completing an upload only if it is gone.
          subst asked
          obtain ⟨same, _, old, there⟩ := bound_bucket holds bound live
          rw [← same, target, before] at there
          cases there
  | some old =>
      rw [before] at own
      cases own with
      | changed changed =>
          exact change_complete (complete name old before) (bound_writes holds bound) changed

theorem owned_step {bucket key uploadId : Str} (holds : Holds crates storage s store)
    (owned : store.Owned bucket key uploadId) (taken : uploadId ∈ s.issued)
    (run : Runs faultFree (handle crates storage request) s outcome t)
    (step : store.Step crates storage request outcome after) : after.Owned bucket key uploadId := by
  intro upload live
  have own := step_upload step uploadId
  rw [live] at own
  generalize before : store.staged.lookup uploadId = past at own
  cases own with
  | same _ _ => exact owned upload before
  | created asked answered _ =>
      subst asked answered
      exact absurd taken (created_new holds run)
  | @stored earlier _ _ _ _ _ _ => exact owned earlier before

/-- What holds between two requests of such a run. -/
structure Bindings (crates : Crates) (storage : FsStorage) (s : FS) (store : Store)
    (events : List (Request × Outcome)) : Prop where
  standing : Standing crates storage s store
  complete : store.Complete
  owners : ∀ bucket key contentType uploadId,
    (.createMultipartUpload bucket key contentType, .ok (.upload uploadId)) ∈ events →
    isUuid uploadId = true ∧ uploadId ∈ s.issued ∧ store.Owned bucket key uploadId

theorem bindings_step {past : List (Request × Outcome)} (bindings : Bindings crates storage s store past)
    (issued : request.Issued) (bound : request.Bound crates storage s)
    (run : Runs faultFree (handle crates storage request) s outcome t) :
    ∃ after, Bindings crates storage t after (past ++ [(request, outcome)]) := by
  obtain ⟨after, step, standing⟩ := standing_step bindings.standing issued run
  refine ⟨after, standing, complete_step bindings.standing.holds bindings.complete bound step, ?_⟩
  intro bucket key contentType uploadId member
  rcases List.mem_append.mp member with earlier | recent
  · obtain ⟨uuid, taken, owned⟩ := bindings.owners bucket key contentType uploadId earlier
    exact ⟨uuid, (runs_continue run).issued taken,
      owned_step bindings.standing.holds owned taken run step⟩
  · obtain ⟨rfl, rfl⟩ := Prod.mk.inj (List.mem_singleton.mp recent)
    obtain ⟨upload, live, same, _⟩ := tracks_started step
    refine ⟨(standing.holds.sound.uploads uploadId upload live).1,
      standing.holds.issued uploadId upload live, ?_⟩
    intro other present
    obtain rfl := Option.some.inj (live.symm.trans present)
    rw [same]
    exact ⟨rfl, rfl⟩

theorem bindings_run {past events : List (Request × Outcome)}
    (bindings : Bindings crates storage s store past)
    (run : Served crates storage (fun state request =>
      request.Issued ∧ request.Bound crates storage state) s events t) :
    ∃ after, Bindings crates storage t after (past ++ events) := by
  induction run generalizing store past with
  | nil s => exact ⟨store, by simpa using bindings⟩
  | cons permitted run _ ih =>
      obtain ⟨next, still⟩ := bindings_step bindings permitted.1 permitted.2 run
      obtain ⟨after, final⟩ := ih still
      exact ⟨after, by simpa using final⟩

end Runs

/-- The sidecars that can be seen, and those of the store. -/
theorem look_any_sidecar {crates : Crates} {storage : FsStorage} {s : FS} {store : Store}
    (holds : Holds crates storage s store) {bucket encoded : Str} {content : Bytes}
    (there : s.look (FsStorage.sidecarName encoded :: metaName :: bucket :: storage.dataRoot) =
      some (.file content)) :
    ∃ old sidecars objectMeta, store.buckets.lookup bucket = some old ∧
      old.sidecars = some sidecars ∧
      sidecars.lookup (FsStorage.sidecarName encoded) = some objectMeta ∧
      content = crates.objectMeta.encode objectMeta := by
  by_cases staging : bucket = uploadsName
  · -- No upload has the id `meta`.
    subst staging
    have seen := look_staged holds metaName [FsStorage.sidecarName encoded]
    cases live : store.staged.lookup metaName with
    | none =>
        rw [live] at seen
        rw [show [FsStorage.sidecarName encoded].reverse = [FsStorage.sidecarName encoded] from rfl,
          List.singleton_append, there] at seen
        cases seen
    | some upload =>
        have uuid := (holds.sound.uploads metaName upload live).1
        exact absurd uuid (by decide)
  · have seen := congrFun holds.seen [bucket, metaName, FsStorage.sidecarName encoded]
    rw [view_bucket staging] at seen
    cases present : store.buckets.lookup bucket with
    | none => simp [under, there, present] at seen
    | some old =>
        have valid := (holds.sound.buckets bucket old present).valid
        rw [look_sidecar holds valid present] at there
        obtain ⟨objectMeta, found, same⟩ := Option.map_eq_some_iff.mp there
        obtain ⟨sidecars, kept, written⟩ := Option.bind_eq_some_iff.mp found
        exact ⟨old, sidecars, objectMeta, rfl, kept, written, (FS.Entry.file.inj same).symm⟩

end Ferrobucket
