import Ferrobucket.Requests
/-! A multipart upload from its start to its completion, with any other requests in
between: the parts that are there are the last ones that were uploaded, and completing
puts them together in the order of their numbers. -/
namespace Ferrobucket
open Text Posix Program

/-- The bytes that an event has stored as a part, if it has. -/
def uploadedBy (uploadId : Str) (partNumber : Int) : Request × Outcome → Option Bytes
  | (.uploadPart _ id number body, outcome) =>
      if id = uploadId ∧ number = partNumber ∧ outcome.isOk = true then some (delivered body) else none
  | _ => none

/-- The bytes of the last successful upload of a part. -/
def lastUpload (uploadId : Str) (events : List (Request × Outcome)) (partNumber : Int) :
    Option Bytes :=
  events.reverse.findSome? (uploadedBy uploadId partNumber)

/-- The event does not delete the bucket. -/
def KeepsBucket (bucket : Str) : Request × Outcome → Prop
  | (.deleteBucket name, outcome) => name = bucket → outcome.isOk = false
  | _ => True

/-- The event does not end the upload. -/
def KeepsUpload (uploadId : Str) : Request × Outcome → Prop
  | (.completeMultipartUpload _ _ id _, _) => id ≠ uploadId
  | (.abortMultipartUpload _ id, _) => id ≠ uploadId
  | _ => True

/-- The bucket is there, with its directory of sidecars. -/
def Store.HasBucket (store : Store) (name : Str) : Prop :=
  ∃ bucket, store.buckets.lookup name = some bucket ∧ bucket.sidecars.isSome = true

/-- The upload is there, and its parts are the last ones that the events have stored. -/
def Store.Tracks (store : Store) (record : MultipartMeta) (uploadId : Str)
    (events : List (Request × Outcome)) : Prop :=
  ∃ upload, store.staged.lookup uploadId = some upload ∧ upload.record = record ∧
    ∀ partNumber, upload.parts.lookup (FsStorage.partName partNumber) =
      lastUpload uploadId events partNumber

section Steps
variable {crates : Crates} {storage : FsStorage} {store after : Store} {request : Request}
  {outcome : Outcome}

theorem change_sidecars {Writes : Str → Str → Prop} {old new : Bucket}
    (there : old.sidecars.isSome = true) (changed : old.Change Writes new) :
    new.sidecars.isSome = true := by
  cases changed with
  | same => exact there
  | body _ _ _ => exact there
  | whole _ _ _ _ _ => rfl
  | bodyGone _ _ => exact there
  | gone _ _ => rfl

theorem has_bucket_step {name : Str} (has : store.HasBucket name)
    (step : store.Step crates storage request outcome after)
    (kept : KeepsBucket name (request, outcome)) : after.HasBucket name := by
  obtain ⟨bucket, present, there⟩ := has
  have own := step_bucket step name
  rw [present] at own
  cases left : after.buckets.lookup name with
  | none =>
      rw [left] at own
      cases own with
      | deleted asked succeeded =>
          subst asked
          rw [kept rfl] at succeeded
          cases succeeded
  | some new =>
      rw [left] at own
      cases own with
      | changed changed => exact ⟨new, left, change_sidecars there changed⟩

theorem last_upload_next (uploadId : Str) (events : List (Request × Outcome))
    (event : Request × Outcome) (partNumber : Int) :
    lastUpload uploadId (events ++ [event]) partNumber =
      (uploadedBy uploadId partNumber event <|> lastUpload uploadId events partNumber) := by
  unfold lastUpload
  rw [List.reverse_append, List.reverse_singleton, List.singleton_append, List.findSome?_cons]
  cases uploadedBy uploadId partNumber event <;> rfl

theorem not_uploaded {uploadId : Str} (partNumber : Int)
    (quiet : ¬ request.StoresPart uploadId outcome) :
    uploadedBy uploadId partNumber (request, outcome) = none := by
  cases request with
  | uploadPart bucket id number body =>
      have other : ¬ (id = uploadId ∧ number = partNumber ∧ outcome.isOk = true) :=
        fun all => quiet ⟨all.1, all.2.2⟩
      simp only [uploadedBy, if_neg other]
  | _ => rfl

theorem tracks_step {record : MultipartMeta} {uploadId : Str} {events : List (Request × Outcome)}
    (tracks : store.Tracks record uploadId events)
    (step : store.Step crates storage request outcome after)
    (kept : KeepsUpload uploadId (request, outcome)) :
    after.Tracks record uploadId (events ++ [(request, outcome)]) := by
  obtain ⟨upload, live, same, parts⟩ := tracks
  have own := step_upload step uploadId
  rw [live] at own
  cases left : after.staged.lookup uploadId with
  | none =>
      rw [left] at own
      cases own with
      | completed asked _ =>
          subst asked
          exact absurd rfl kept
      | aborted asked =>
          subst asked
          exact absurd rfl kept
  | some new =>
      rw [left] at own
      cases own with
      | same _ quiet =>
          refine ⟨upload, left, same, ?_⟩
          intro partNumber
          rw [last_upload_next, not_uploaded partNumber quiet, parts]
          rfl
      | @stored _ bucket number body asked succeeded whole =>
          subst asked
          refine ⟨_, left, same, ?_⟩
          intro partNumber
          rw [last_upload_next]
          by_cases again : partNumber = number
          · subst again
            simp [uploadedBy, succeeded]
          · have different : FsStorage.partName partNumber ≠ FsStorage.partName number :=
              fun clash => again (part_name_injective clash)
            rw [Finmap.lookup_insert_of_ne _ different, parts]
            simp [uploadedBy, Ne.symm again]

end Steps
/-! ### Runs -/

section Runs
variable {crates : Crates} {storage : FsStorage} {s t : FS} {store : Store}

theorem standing_run {events : List (Request × Outcome)} (standing : Standing crates storage s store)
    (run : Served crates storage (fun _ request => request.Issued) s events t) :
    ∃ after, Standing crates storage t after := by
  induction run generalizing store with
  | nil s => exact ⟨store, standing⟩
  | cons issued run _ ih =>
      obtain ⟨next, _, still⟩ := standing_step standing issued run
      exact ih still

theorem has_bucket_run {name : Str} {events : List (Request × Outcome)}
    (standing : Standing crates storage s store) (has : store.HasBucket name)
    (run : Served crates storage (fun _ request => request.Issued) s events t)
    (kept : ∀ event ∈ events, KeepsBucket name event) :
    ∃ after, Standing crates storage t after ∧ after.HasBucket name := by
  induction run generalizing store with
  | nil s => exact ⟨store, standing, has⟩
  | cons issued run _ ih =>
      obtain ⟨next, step, still⟩ := standing_step standing issued run
      have first := has_bucket_step has step (kept _ List.mem_cons_self)
      exact ih still first fun event member => kept event (List.mem_cons_of_mem _ member)

/-- The invariant of the upload while other requests are served. -/
theorem tracks_run {name uploadId : Str} {record : MultipartMeta}
    {past events : List (Request × Outcome)} (standing : Standing crates storage s store)
    (has : store.HasBucket name) (tracks : store.Tracks record uploadId past)
    (run : Served crates storage (fun _ request => request.Issued) s events t)
    (keptBucket : ∀ event ∈ events, KeepsBucket name event)
    (keptUpload : ∀ event ∈ events, KeepsUpload uploadId event) :
    ∃ after, Standing crates storage t after ∧ after.HasBucket name ∧
      after.Tracks record uploadId (past ++ events) := by
  induction run generalizing store past with
  | nil s => exact ⟨store, standing, has, by simpa using tracks⟩
  | cons issued run _ ih =>
      obtain ⟨next, step, still⟩ := standing_step standing issued run
      have hasNext := has_bucket_step has step (keptBucket _ List.mem_cons_self)
      have tracksNext := tracks_step tracks step (keptUpload _ List.mem_cons_self)
      obtain ⟨after, final, there, all⟩ := ih still hasNext tracksNext
        (fun event member => keptBucket event (List.mem_cons_of_mem _ member))
        (fun event member => keptUpload event (List.mem_cons_of_mem _ member))
      exact ⟨after, final, there, by simpa using all⟩

end Runs

/-! ### Completing -/

/-- Complete the upload and read the object. -/
def completeAndFetch (crates : Crates) (storage : FsStorage) (bucket key uploadId : Str)
    (parts : List Int) : Op (ObjectMeta × ObjectMeta × Bytes) := do
  let objectMeta ← completeMultipartUpload crates storage bucket key uploadId parts
  let found ← fetchObject crates storage bucket key
  pure (objectMeta, found)

theorem assembled_parts {upload : Upload} {content : Int → Bytes} {numbers : List Int}
    (there : ∀ number ∈ numbers,
      upload.parts.lookup (FsStorage.partName number) = some (content number)) :
    Store.assembled upload numbers = some (numbers.flatMap content) := by
  induction numbers with
  | nil => rfl
  | cons number rest ih =>
      have later := ih fun other member => there other (List.mem_cons_of_mem number member)
      simp [Store.assembled, there number List.mem_cons_self, later]

/-- What completing an upload of these parts answers. -/
def assembledMeta (crates : Crates) (record : MultipartMeta) (content : Int → Bytes)
    (numbers : List Int) (time : Nat) : ObjectMeta where
  key := record.key
  size := (numbers.map fun number => (content number).length).sum
  contentType := record.contentType.getD defaultContentType
  etag := hexMd5 crates (numbers.flatMap content) ++ '-' :: (toString numbers.length).toList
  lastModified := time

theorem complete_made (crates : Crates) (storage : FsStorage) {store : Store} {upload : Upload}
    {old : Bucket} {sidecars : Names ObjectMeta} {uploadId encoded : Str} (content : Int → Bytes)
    {numbers parts : List Int} (time : Nat) (live : store.staged.lookup uploadId = some upload)
    (present : store.buckets.lookup upload.record.bucket = some old)
    (kept : old.sidecars = some sidecars) {key : Str} (nonempty : key ≠ [])
    (admitted : encodeKey key = .ok encoded) (ascending : numbers.Pairwise (· < ·))
    (order : parts.Perm numbers)
    (there : ∀ number ∈ numbers,
      upload.parts.lookup (FsStorage.partName number) = some (content number)) :
    store.completeMultipartUpload crates storage key uploadId parts time =
      (.ok (assembledMeta crates upload.record content numbers time),
        (store.setBucket upload.record.bucket (Store.storedBucket old sidecars encoded
          (numbers.flatMap content) (assembledMeta crates upload.record content numbers time))
        ).dropUpload uploadId) := by
  have sorted : parts.insertionSort (· ≤ ·) = numbers := by
    have reordered := (List.perm_insertionSort (· ≤ ·) parts).trans order
    exact reordered.eq_of_pairwise (fun _ _ _ _ => le_antisymm) (List.pairwise_insertionSort _ _)
      (ascending.imp fun less => less.le)
  have whole := assembled_parts there
  have size : (numbers.flatMap content).length =
      (numbers.map fun number => (content number).length).sum := List.length_flatMap
  unfold Store.completeMultipartUpload assembledMeta
  simp only [live, present, Option.getD_some, admitted, sorted, whole, if_neg nonempty, kept,
    order.length_eq, size]
  rfl

theorem wp_completeTracked {crates : Crates} {storage : FsStorage} {s : FS} {store : Store}
    {bucket key encoded uploadId : Str} {contentType : Option Str}
    {events : List (Request × Outcome)} {numbers parts : List Int}
    (standing : Standing crates storage s store) (has : store.HasBucket bucket)
    (tracks : store.Tracks ⟨bucket, key, contentType⟩ uploadId events) (nonempty : key ≠ [])
    (admitted : encodeKey key = .ok encoded) (ascending : numbers.Pairwise (· < ·))
    (order : parts.Perm numbers)
    (uploaded : ∀ number ∈ numbers, (lastUpload uploadId events number).isSome = true) :
    wp faultFree (completeAndFetch crates storage bucket key uploadId parts) (fun outcome after =>
      let content := fun number => (lastUpload uploadId events number).getD []
      ∃ time, outcome = .ok (assembledMeta crates ⟨bucket, key, contentType⟩ content numbers time,
          assembledMeta crates ⟨bucket, key, contentType⟩ content numbers time,
          numbers.flatMap content) ∧
        after.look (uploadId :: uploadsName :: storage.dataRoot) = none) s := by
  obtain ⟨old, present, there⟩ := has
  obtain ⟨sidecars, kept⟩ := Option.isSome_iff_exists.mp there
  obtain ⟨upload, live, same, parts_last⟩ := tracks
  have uuid := (standing.holds.sound.uploads uploadId upload live).1
  unfold completeAndFetch
  rw [wp_bind]
  apply wp_mono (wp_limited (complete_refines standing.holds standing.unlimited bucket key uuid parts))
  rintro outcome after ⟨⟨time, rfl, still⟩, limit⟩
  have contents : ∀ number ∈ numbers, upload.parts.lookup (FsStorage.partName number) =
      some ((lastUpload uploadId events number).getD []) := by
    intro number member
    obtain ⟨content, found⟩ := Option.isSome_iff_exists.mp (uploaded number member)
    rw [parts_last, found]
    rfl
  have made := complete_made crates storage (fun number =>
    (lastUpload uploadId events number).getD []) time live (by rw [same]; exact present) kept nonempty admitted
    ascending order contents
  rw [same] at made
  simp only [made] at still ⊢
  generalize shape : assembledMeta crates ⟨bucket, key, contentType⟩ (fun number =>
    (lastUpload uploadId events number).getD []) numbers time = objectMeta at still ⊢
  generalize (numbers.flatMap fun number => (lastUpload uploadId events number).getD []) = content
    at still ⊢
  -- The object is read back, and nothing is left of the upload.
  have valid := (standing.holds.sound.buckets bucket old present).valid
  have stored : (((store.setBucket bucket (Store.storedBucket old sidecars encoded content objectMeta)
      ).dropUpload uploadId).buckets.lookup bucket) =
      some (Store.storedBucket old sidecars encoded content objectMeta) := Finmap.lookup_insert _
  have record : (Store.storedBucket old sidecars encoded content objectMeta).recordOf none key =
      some objectMeta := (record_insert content objectMeta kept admitted rfl key).trans (if_pos rfl)
  have head := (head_record storage valid stored key objectMeta).mpr record
  have body : ((store.setBucket bucket (Store.storedBucket old sidecars encoded content objectMeta)
      ).dropUpload uploadId).bodyOf bucket key = some content := by
    unfold Store.bodyOf
    rw [stored]
    simp [Store.storedBucket, admitted, Except.toOption]
  have gone := look_upload still uploadId
  rw [staged_dropUpload, if_pos rfl] at gone
  rw [wp_bind, fetch_refines still, limit, standing.unlimited]
  simp only [Store.getObject, head, body]
  refine ⟨time, ?_, gone⟩
  rw [shape]

/-- The bucket that a request has just made. -/
theorem has_bucket_made {crates : Crates} {storage : FsStorage} {store after : Store} {bucket : Str}
    (step : store.Step crates storage (.createBucket bucket) (.ok .done) after) :
    after.HasBucket bucket := by
  obtain ⟨time, answered, rfl⟩ := step
  unfold Store.createBucket at answered ⊢
  cases valid : validateBucketName bucket with
  | error e => simp [valid, Except.map] at answered
  | ok _ =>
      cases present : store.buckets.lookup bucket with
      | some old => simp [valid, present, Except.map] at answered
      | none => exact ⟨.fresh ⟨bucket, time⟩, Finmap.lookup_insert _, rfl⟩

/-- The upload that a request has just started. -/
theorem tracks_started {crates : Crates} {storage : FsStorage} {store after : Store}
    {bucket key uploadId : Str} {contentType : Option Str}
    (step : store.Step crates storage (.createMultipartUpload bucket key contentType)
      (.ok (.upload uploadId)) after) :
    after.Tracks ⟨bucket, key, contentType⟩ uploadId [] := by
  obtain ⟨id, _, answered, rfl⟩ := step
  unfold Store.createMultipartUpload at answered ⊢
  cases valid : validateBucketName bucket with
  | error e => simp [valid, Except.map] at answered
  | ok _ =>
      cases present : store.buckets.lookup bucket with
      | none => simp [valid, present, Except.map] at answered
      | some old =>
          simp only [valid, present, Except.map, Except.ok.injEq, Response.upload.injEq] at answered
          subst answered
          refine ⟨⟨⟨bucket, key, contentType⟩, ∅⟩, ?_, rfl, ?_⟩
          · simp [staged_setUpload]
          · intro partNumber
            rfl

theorem served_append {crates : Crates} {storage : FsStorage} {allowed : FS → Request → Prop}
    {first later : List (Request × Outcome)} {s t : FS}
    (run : Served crates storage allowed s (first ++ later) t) :
    ∃ middle, Served crates storage allowed s first middle ∧
      Served crates storage allowed middle later t := by
  induction first generalizing s with
  | nil => exact ⟨s, .nil s, run⟩
  | cons event rest ih =>
      cases run with
      | cons permitted one others =>
          obtain ⟨middle, before, behind⟩ := ih others
          exact ⟨middle, .cons permitted one before, behind⟩

/-- Between its start and its completion an upload holds the parts that were last uploaded. -/
theorem upload_tracked {crates : Crates} {storage : FsStorage} {s t : FS} {bucket key uploadId : Str}
    {contentType : Option Str} {before earlier events : List (Request × Outcome)}
    (start : EmptyRoot storage s) (unlimited : s.nameMax = none)
    (run : Served crates storage (fun _ request => request.Issued) s
      (before ++ (.createBucket bucket, .ok .done) :: earlier ++
        (.createMultipartUpload bucket key contentType, .ok (.upload uploadId)) :: events) t)
    (keptBucket : ∀ event ∈ earlier ++ events, KeepsBucket bucket event)
    (keptUpload : ∀ event ∈ events, KeepsUpload uploadId event) :
    ∃ store, Standing crates storage t store ∧ store.HasBucket bucket ∧
      store.Tracks ⟨bucket, key, contentType⟩ uploadId events := by
  obtain ⟨_, begun, rest⟩ := served_append run
  obtain ⟨_, first, made⟩ := served_append begun
  obtain ⟨_, standing⟩ := standing_run (standing_start crates start unlimited) first
  cases made with
  | cons issued one recent =>
  obtain ⟨_, step, standing⟩ := standing_step standing issued one
  obtain ⟨_, standing, has⟩ := has_bucket_run standing (has_bucket_made step) recent
    fun event member => keptBucket event (List.mem_append_left _ member)
  cases rest with
  | cons issued one meanwhile =>
  obtain ⟨_, step, standing⟩ := standing_step standing issued one
  exact tracks_run standing (has_bucket_step has step trivial) (tracks_started step) meanwhile
    (fun event member => keptBucket event (List.mem_append_right _ member)) keptUpload

/-- Every run: an upload is started in a bucket that is not deleted since it was made, parts
are uploaded in any order and any number of times while other requests are served, and then
it is completed with parts that were all uploaded, in whatever order they are listed. -/
theorem multipart_assembles {crates : Crates} {storage : FsStorage} {s t : FS}
    {bucket key encoded uploadId : Str} {contentType : Option Str}
    {before earlier events : List (Request × Outcome)} {numbers parts : List Int}
    (start : EmptyRoot storage s) (unlimited : s.nameMax = none)
    (run : Served crates storage (fun _ request => request.Issued) s
      (before ++ (.createBucket bucket, .ok .done) :: earlier ++
        (.createMultipartUpload bucket key contentType, .ok (.upload uploadId)) :: events) t)
    (keptBucket : ∀ event ∈ earlier ++ events, KeepsBucket bucket event)
    (keptUpload : ∀ event ∈ events, KeepsUpload uploadId event) (nonempty : key ≠ [])
    (admitted : encodeKey key = .ok encoded) (ascending : numbers.Pairwise (· < ·))
    (uploaded : ∀ number ∈ numbers, (lastUpload uploadId events number).isSome = true)
    (order : parts.Perm numbers) :
    wp faultFree (completeAndFetch crates storage bucket key uploadId parts) (fun outcome after =>
      let content := fun number => (lastUpload uploadId events number).getD []
      ∃ time, outcome = .ok (assembledMeta crates ⟨bucket, key, contentType⟩ content numbers time,
          assembledMeta crates ⟨bucket, key, contentType⟩ content numbers time,
          numbers.flatMap content) ∧
        after.look (uploadId :: uploadsName :: storage.dataRoot) = none) t := by
  obtain ⟨store, standing, has, tracks⟩ := upload_tracked start unlimited run keptBucket keptUpload
  exact wp_completeTracked standing has tracks nonempty admitted ascending order uploaded

namespace Reference

/-- A photo sent in two parts, the second one first and empty. -/
noncomputable def photoParts (uploadId : Str) : List (Request × Outcome) :=
  [(.uploadPart bucket uploadId 2 [], .ok (.part (hexMd5 Crates.reference []))),
    (.uploadPart bucket uploadId 1 [.ok (utf8 "hello".toList)],
      .ok (.part (hexMd5 Crates.reference (utf8 "hello".toList))))]

theorem photo_parts_last (uploadId : Str) :
    lastUpload uploadId (photoParts uploadId) 1 = some (utf8 "hello".toList) ∧
      lastUpload uploadId (photoParts uploadId) 2 = some [] := by
  simp [lastUpload, photoParts, uploadedBy, Except.isOk, Except.toBool, delivered]

theorem photo_uploaded : ∃ uploadId s,
    Served Crates.reference storage (fun _ request => request.Issued) (disk none)
      ([] ++ (.createBucket bucket, .ok .done) :: [] ++
        (.createMultipartUpload bucket "a".toList (some "image/png".toList),
          .ok (.upload uploadId)) :: photoParts uploadId) s := by
  obtain ⟨s, store, info, made, unlimited, issued, holds, _, present⟩ := bucket_run none (.inl rfl)
  have unissued : ∃ name, isUuid name = true ∧ name ∉ s.issued :=
    ⟨"00000000-0000-4000-8000-000000000000".toList, by decide, by simp [issued]⟩
  have valid : validateBucketName bucket = .ok () := by decide
  have started := wp_limited (create_upload_refines holds unissued bucket "a".toList
    (some "image/png".toList))
  obtain ⟨outcome, s₁, run₁, ⟨uploadId, uuid, _, rfl, holds₁⟩, limit₁⟩ := wp_returns started
  simp only [Store.createMultipartUpload, valid, present] at run₁ holds₁
  have unlimited₁ := limit₁.trans unlimited
  have second := wp_limited (part_refines holds₁ unlimited₁ bucket uuid 2 [])
  obtain ⟨outcome, s₂, run₂, ⟨rfl, holds₂⟩, limit₂⟩ := wp_returns second
  rw [Store.part_made Crates.reference _ (Store.live_setUpload _ uploadId _) (by decide) rfl]
    at run₂ holds₂
  have unlimited₂ := limit₂.trans unlimited₁
  have first := wp_returns (part_refines holds₂ unlimited₂ bucket uuid 1
    [.ok (utf8 "hello".toList)])
  obtain ⟨outcome, s₃, run₃, rfl, _⟩ := first
  rw [Store.part_made Crates.reference _ (Store.live_setUpload _ uploadId _) (by decide) rfl] at run₃
  exact ⟨uploadId, s₃, .cons trivial (runs_then made (.done _ _))
    (.cons trivial (runs_then run₁ (.done _ _)) (.cons uuid (runs_then run₂ (.done _ _))
      (.cons uuid (runs_then run₃ (.done _ _)) (.nil _))))⟩

noncomputable def photoContent (uploadId : Str) (number : Int) : Bytes :=
  (lastUpload uploadId (photoParts uploadId) number).getD []

/-- The record of the photo when it is completed. -/
def photoMeta (time : Nat) : ObjectMeta :=
  ⟨"a".toList, 5, "image/png".toList, "5d41402abc4b2a76b9719d911017c592-2".toList, time⟩

theorem photo_assembled (uploadId : Str) (time : Nat) :
    assembledMeta Crates.reference ⟨bucket, "a".toList, some "image/png".toList⟩
        (photoContent uploadId) [1, 2] time = photoMeta time ∧
      [1, 2].flatMap (photoContent uploadId) = utf8 "hello".toList := by
  obtain ⟨first, second⟩ := photo_parts_last uploadId
  have digest : hexMd5 Crates.reference (utf8 "hello".toList) ++ "-2".toList =
      "5d41402abc4b2a76b9719d911017c592-2".toList := by decide
  simp only [assembledMeta, photoMeta, photoContent, List.map_cons, List.map_nil, List.flatMap_cons,
    List.flatMap_nil, first, second, Option.getD_some, List.append_nil, ← digest]
  exact ⟨rfl, trivial⟩

end Reference

theorem multipart_assembles_photo : ∃ uploadId s,
    Served Crates.reference Reference.storage (fun _ request => request.Issued) (Reference.disk none)
      ([] ++ (.createBucket Reference.bucket, .ok .done) :: [] ++
        (.createMultipartUpload Reference.bucket "a".toList (some "image/png".toList),
          .ok (.upload uploadId)) :: Reference.photoParts uploadId) s ∧
    wp faultFree (completeAndFetch Crates.reference Reference.storage Reference.bucket "a".toList
      uploadId [2, 1]) (fun outcome after => ∃ time,
        outcome = .ok (Reference.photoMeta time, Reference.photoMeta time, utf8 "hello".toList) ∧
        after.look (uploadId :: uploadsName :: Reference.storage.dataRoot) = none) s := by
  obtain ⟨uploadId, s, served⟩ := Reference.photo_uploaded
  obtain ⟨first, second⟩ := Reference.photo_parts_last uploadId
  have encoded : encodeKey "a".toList = .ok "a".toList := by decide
  have order : ([2, 1] : List Int).Perm [1, 2] := by decide
  have assembles := multipart_assembles (Reference.disk_empty none) rfl served
    (by simp [KeepsBucket, Reference.photoParts]) (by simp [KeepsUpload, Reference.photoParts])
    (by decide) encoded (by decide) (by simp [first, second]) order
  refine ⟨uploadId, s, served, wp_mono assembles ?_⟩
  rintro outcome after ⟨time, rfl, gone⟩
  obtain ⟨shown, joined⟩ := Reference.photo_assembled uploadId time
  refine ⟨time, ?_, gone⟩
  rw [← shown, ← joined]
  rfl

end Ferrobucket
