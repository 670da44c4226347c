import Ferrobucket.Binding
import Ferrobucket.Server
/-! Buckets from their creation to their deletion. A bucket is looked up in two ways, by
its directory and by the record in it; the two agree as long as every bucket directory is
whole, and the one request that can make a directory that is not is the completion of an
upload whose bucket is gone. -/
namespace Ferrobucket
open Text Posix Program

/-- An upload is completed only while the bucket that it was created in is there. -/
def Request.Housed (crates : Crates) (storage : FsStorage) (s : FS) : Request → Prop
  | .completeMultipartUpload _ _ uploadId _ =>
      ∀ record : MultipartMeta,
        s.look (multipartJsonName :: uploadId :: uploadsName :: storage.dataRoot) =
          some (.file (crates.multipartMeta.encode record)) →
        s.look (record.bucket :: storage.dataRoot) = some .dir
  | _ => True

/-- Every directory of the data root other than `.uploads` has the parts of a bucket. -/
def BucketsWhole (storage : FsStorage) (s : FS) : Prop :=
  ∀ name, name ≠ uploadsName → s.look (name :: storage.dataRoot) = some .dir →
    (∃ content, s.look (bucketJsonName :: name :: storage.dataRoot) = some (.file content)) ∧
      s.look (objectsName :: name :: storage.dataRoot) = some .dir ∧
      s.look (metaName :: name :: storage.dataRoot) = some .dir

/-- The bucket is listed, and found when it is asked for. -/
def Reported (crates : Crates) (storage : FsStorage) (s : FS) (bucket : Str) : Prop :=
  wp faultFree (listBuckets crates storage) (fun outcome _ =>
    ∃ infos, outcome = .ok infos ∧ bucket ∈ infos.map BucketInfo.name) s ∧
  wp faultFree (headBucket crates storage bucket) (fun outcome _ => outcome = .ok ()) s

/-- Was the call turned away because of its bucket? -/
def Refused {Value : Type} (bucket : Str) (outcome : Except StorageError Value) : Prop :=
  outcome = .error (.NoSuchBucket bucket) ∨ ∃ text, outcome = .error (.InvalidBucketName text)

/-! ### On the store -/

/-- A bucket that `create_bucket` made and nothing took apart. -/
def Bucket.Whole (bucket : Bucket) : Prop := bucket.info.isSome = true ∧ bucket.sidecars.isSome = true

def Store.Whole (store : Store) : Prop :=
  ∀ name bucket, store.buckets.lookup name = some bucket → bucket.Whole

section Steps
variable {crates : Crates} {storage : FsStorage} {s t : FS} {store after : Store} {request : Request}
  {outcome : Outcome}

theorem change_whole {Writes : Str → Str → Prop} {old new : Bucket} (whole : old.Whole)
    (changed : old.Change Writes new) : new.Whole := by
  cases changed with
  | same => exact whole
  | body => exact whole
  | whole => exact ⟨whole.1, rfl⟩
  | bodyGone => exact whole
  | gone => exact ⟨whole.1, rfl⟩

/-- An upload that is there has its bucket, if the request is housed. -/
theorem housed_bucket (holds : Holds crates storage s store) {bucket key uploadId : Str}
    {parts : List Int} (housed : Request.Housed crates storage s
      (.completeMultipartUpload bucket key uploadId parts)) {upload : Upload}
    (live : store.staged.lookup uploadId = some upload) :
    store.buckets.lookup upload.record.bucket ≠ none := by
  have there := housed upload.record (by simp [look_record holds, live])
  have valid := (holds.sound.uploads uploadId upload live).2.valid
  rw [look_bucket holds valid] at there
  intro gone
  rw [gone] at there
  cases there

/-- Buckets come only from `create_bucket`. -/
theorem housed_step (holds : Holds crates storage s store) (housed : request.Housed crates storage s)
    (step : store.Step crates storage request outcome after) {name : Str}
    (absent : store.buckets.lookup name = none) :
    after.buckets.lookup name = none ∨
      request = .createBucket name ∧ ∃ info, after.buckets.lookup name = some (.fresh info) := by
  have own := step_bucket step name
  rw [absent] at own
  cases left : after.buckets.lookup name with
  | none => exact .inl rfl
  | some bucket =>
      rw [left] at own
      cases own with
      | made asked info => exact .inr ⟨asked, info, rfl⟩
      | bare asked live target _ =>
          subst asked
          rw [← target] at absent
          exact absurd absent (housed_bucket holds housed live)

theorem whole_step (holds : Holds crates storage s store) (whole : store.Whole)
    (housed : request.Housed crates storage s) (step : store.Step crates storage request outcome after) :
    after.Whole := by
  intro name bucket present
  cases before : store.buckets.lookup name with
  | none =>
      rcases housed_step holds housed step before with gone | ⟨_, info, made⟩
      · rw [gone] at present
        cases present
      · rw [made] at present
        obtain rfl := Option.some.inj present
        exact ⟨rfl, rfl⟩
  | some old =>
      have own := step_bucket step name
      rw [before, present] at own
      cases own with
      | changed changed => exact change_whole (whole name old before) changed

/-- A bucket that a request has just deleted. -/
theorem delete_gone {name : Str} (step : store.Step crates storage (.deleteBucket name) (.ok .done) after) :
    validateBucketName name = .ok () ∧ after.buckets.lookup name = none := by
  obtain ⟨answered, rfl⟩ := step
  unfold Store.deleteBucket at answered ⊢
  cases valid : validateBucketName name with
  | error e => simp [valid, Except.map] at answered
  | ok _ =>
      cases present : store.buckets.lookup name with
      | none => simp [valid, present, Except.map] at answered
      | some old =>
          by_cases empty : old.objects = ∅
          · simp [empty, Store.dropBucket]
          · simp [valid, present, empty, Except.map] at answered

end Steps
/-! ### What a whole store shows -/

section Views
variable {crates : Crates} {storage : FsStorage} {s : FS} {store : Store}

theorem buckets_whole (holds : Holds crates storage s store) (whole : store.Whole) :
    BucketsWhole storage s := by
  intro name ordinary there
  have seen := congrFun holds.seen [name]
  rw [view_bucket ordinary] at seen
  cases present : store.buckets.lookup name with
  | none => simp [under, there, present] at seen
  | some old =>
      have valid := (holds.sound.buckets name old present).valid
      obtain ⟨recorded, kept⟩ := whole name old present
      obtain ⟨info, found⟩ := Option.isSome_iff_exists.mp recorded
      obtain ⟨sidecars, found_sidecars⟩ := Option.isSome_iff_exists.mp kept
      refine ⟨⟨crates.bucketInfo.encode info, ?_⟩, look_objects holds valid present, ?_⟩
      · simp [look_json holds valid present, found]
      · simp [look_meta holds valid present, found_sidecars]

/-- A bucket that has its record is found both ways. -/
theorem record_reported (holds : Holds crates storage s store) {name : Str} {old : Bucket}
    (present : store.buckets.lookup name = some old) (recorded : old.info.isSome = true) :
    Reported crates storage s name := by
  obtain ⟨info, found⟩ := Option.isSome_iff_exists.mp recorded
  have named := (holds.sound.buckets name old present).named info found
  have listed : ∀ order : List Str, (∀ name, store.buckets.lookup name ≠ none → name ∈ order) →
      info ∈ store.bucketInfos order := by
    intro order covers
    apply List.mem_filterMap.mpr
    refine ⟨name, covers name (by simp [present]), ?_⟩
    rw [present]
    exact found
  constructor
  · apply wp_mono (list_buckets_refines holds)
    rintro outcome after ⟨rfl, order, _, covers, rfl⟩
    refine ⟨_, rfl, ?_⟩
    rw [← named]
    exact List.mem_map_of_mem (listed order covers)
  · unfold headBucket served
    rw [wp_bind, wp_bind, wp_attempt]
    apply wp_mono (list_buckets_refines holds)
    rintro outcome after ⟨rfl, order, _, covers, rfl⟩
    have any : (store.bucketInfos order).any (fun info => info.name = name) = true := by
      apply List.any_eq_true.mpr
      exact ⟨info, listed order covers, by simpa using named⟩
    change wp faultFree (if (store.bucketInfos order).any (fun info => info.name = name) then pure ()
      else throw _) _ _
    rw [if_pos any]
    exact rfl

/-- A bucket of a whole store is found both ways. -/
theorem bucket_reported (holds : Holds crates storage s store) (whole : store.Whole) {name : Str}
    {old : Bucket} (present : store.buckets.lookup name = some old) :
    Reported crates storage s name :=
  record_reported holds present (whole name old present).1

theorem name_refused {name : Str} {e : StorageError} (refused : validateBucketName name = .error e) :
    ∃ text, e = .InvalidBucketName text := by
  unfold validateBucketName at refused
  simp only [] at refused
  split_ifs at refused
  all_goals exact ⟨_, (Except.error.inj refused).symm⟩

/-- A call that looks for its bucket first is turned away or has found one. -/
theorem refused_or_present {Value : Type} {name : Str} {outcome : Except StorageError Value}
    (invalid : ∀ e, validateBucketName name = .error e → outcome = .error e)
    (absent : validateBucketName name = .ok () → store.buckets.lookup name = none →
      outcome = .error (.NoSuchBucket name)) :
    Refused name outcome ∨ ∃ old, store.buckets.lookup name = some old := by
  cases valid : validateBucketName name with
  | error e =>
      obtain ⟨text, rfl⟩ := name_refused valid
      exact .inl (.inr ⟨text, invalid _ valid⟩)
  | ok _ =>
      cases present : store.buckets.lookup name with
      | none => exact .inl (.inl (absent valid present))
      | some old => exact .inr ⟨old, rfl⟩

theorem listed_reported (holds : Holds crates storage s store) (whole : store.Whole) (bucket : Str)
    (req : ListV2Req) :
    wp faultFree (listObjectsV2 crates storage bucket req)
      (fun outcome _ => Refused bucket outcome ∨ Reported crates storage s bucket) s := by
  apply list_refines holds
  have found : Refused bucket (store.listObjectsV2 storage s.nameMax bucket req) ∨
      ∃ old, store.buckets.lookup bucket = some old := by
    apply refused_or_present
    · intro e invalid
      simp [Store.listObjectsV2, invalid]
    · intro valid absent
      simp [Store.listObjectsV2, valid, absent]
  rcases found with refused | ⟨old, present⟩
  · exact .inl refused
  · exact .inr (bucket_reported holds whole present)

theorem put_reported (holds : Holds crates storage s store) (whole : store.Whole) (bucket key : Str)
    (body : Body) (contentType : Option Str) :
    wp faultFree (putObject crates storage bucket key body contentType)
      (fun outcome _ => Refused bucket outcome ∨ Reported crates storage s bucket) s := by
  apply wp_mono (put_refines holds bucket key body contentType)
  rintro outcome after ⟨time, rfl, _⟩
  have found : Refused bucket
      (store.putObject crates s.nameMax bucket key body contentType time).1 ∨
      ∃ old, store.buckets.lookup bucket = some old := by
    apply refused_or_present
    · intro e invalid
      simp [Store.putObject, invalid]
    · intro valid absent
      simp [Store.putObject, valid, absent]
  rcases found with refused | ⟨old, present⟩
  · exact .inl refused
  · exact .inr (bucket_reported holds whole present)

end Views
/-! ### Runs -/

section Runs
variable {crates : Crates} {storage : FsStorage} {s t : FS} {store : Store}
  {events : List (Request × Outcome)}

/-- The requests of a run: ids as they are issued, and uploads completed in their buckets. -/
def Request.Orderly (crates : Crates) (storage : FsStorage) (s : FS) (request : Request) : Prop :=
  request.Issued ∧ request.Housed crates storage s

theorem whole_run (standing : Standing crates storage s store) (whole : store.Whole)
    (run : Served crates storage (Request.Orderly crates storage) s events t) :
    ∃ after, Standing crates storage t after ∧ after.Whole := by
  induction run generalizing store with
  | nil s => exact ⟨store, standing, whole⟩
  | cons permitted run _ ih =>
      obtain ⟨next, step, still⟩ := standing_step standing permitted.1 run
      exact ih still (whole_step standing.holds whole permitted.2 step)

/-- A bucket that is gone stays gone until it is created again. -/
theorem gone_run {name : Str} (standing : Standing crates storage s store)
    (absent : store.buckets.lookup name = none)
    (run : Served crates storage (Request.Orderly crates storage) s events t)
    (uncreated : ∀ outcome, (.createBucket name, outcome) ∉ events) :
    ∃ after, Standing crates storage t after ∧ after.buckets.lookup name = none := by
  induction run generalizing store with
  | nil s => exact ⟨store, standing, absent⟩
  | @cons _ _ _ request outcome _ permitted run _ ih =>
      obtain ⟨next, step, still⟩ := standing_step standing permitted.1 run
      have others := fun outcome member => uncreated outcome (List.mem_cons_of_mem _ member)
      rcases housed_step standing.holds permitted.2 step absent with gone | ⟨rfl, _⟩
      · exact ih still gone others
      · exact absurd List.mem_cons_self (uncreated outcome)

end Runs

/-- Every run in which uploads are completed while their buckets are there: bucket directories
are whole, a bucket that takes an object or is listed is reported, and one that was deleted
does not come back before it is created again. -/
theorem buckets_live {crates : Crates} {storage : FsStorage} {s t : FS}
    {events : List (Request × Outcome)} (start : EmptyRoot storage s) (unlimited : s.nameMax = none)
    (run : Served crates storage (Request.Orderly crates storage) s events t) :
    BucketsWhole storage t ∧
    (∀ bucket req, wp faultFree (listObjectsV2 crates storage bucket req)
      (fun outcome _ => Refused bucket outcome ∨ Reported crates storage t bucket) t) ∧
    (∀ bucket key body contentType,
      wp faultFree (putObject crates storage bucket key body contentType)
        (fun outcome _ => Refused bucket outcome ∨ Reported crates storage t bucket) t) ∧
    (∀ bucket earlier later, events = earlier ++ (.deleteBucket bucket, .ok .done) :: later →
      (∀ outcome, (.createBucket bucket, outcome) ∉ later) →
      t.look (bucket :: storage.dataRoot) = none) := by
  have standing := standing_start crates start unlimited
  have empty : Store.empty.Whole := by
    intro name bucket present
    simp [Store.empty] at present
  obtain ⟨store, final, whole⟩ := whole_run standing empty run
  refine ⟨buckets_whole final.holds whole, listed_reported final.holds whole,
    put_reported final.holds whole, ?_⟩
  rintro bucket earlier later rfl uncreated
  obtain ⟨middle, before, after⟩ := served_append run
  obtain ⟨first, standing, _⟩ := whole_run standing empty before
  cases after with
  | cons permitted deleted later =>
      obtain ⟨next, step, standing⟩ := standing_step standing permitted.1 deleted
      obtain ⟨valid, gone⟩ := delete_gone step
      obtain ⟨last, standing, absent⟩ := gone_run standing gone later uncreated
      simp [look_bucket standing.holds valid, absent]

theorem wp_shown {Value : Type} {call : Op Value} (shown : Value → Response) {s : FS}
    {post : Except StorageError Value → FS → Prop} (holds : wp faultFree call post s) :
    wp faultFree (call >>= fun value => pure (shown value)) (fun outcome after =>
      ∃ answered, outcome = answered.map shown ∧ post answered after) s := by
  rw [wp_bind]
  apply wp_mono holds
  intro outcome after final
  cases outcome with
  | ok value => exact ⟨.ok value, rfl, final⟩
  | error e => exact ⟨.error e, rfl, final⟩

namespace Reference

/-- The bucket `photos` with an upload of `a` that has no parts yet. -/
theorem upload_begun : ∃ uploadId middle s store info, isUuid uploadId = true ∧
    Runs faultFree (handle Crates.reference storage (.createBucket bucket)) (disk none) (.ok .done)
      middle ∧
    Runs faultFree (handle Crates.reference storage (.createMultipartUpload bucket "a".toList none))
      middle (.ok (.upload uploadId)) s ∧
    s.nameMax = none ∧ Holds Crates.reference storage s store ∧ store.Paired ∧
    store.staged.lookup uploadId = some ⟨⟨bucket, "a".toList, none⟩, ∅⟩ ∧
    store.buckets.lookup bucket = some (.fresh info) := by
  obtain ⟨s, time, made, unlimited, issued, holds⟩ := bucket_stored none (.inl rfl)
  have present : (Store.empty.setBucket bucket (.fresh ⟨bucket, time⟩)).buckets.lookup bucket =
      some (.fresh ⟨bucket, time⟩) := Finmap.lookup_insert _
  have paired : (Store.empty.setBucket bucket (.fresh ⟨bucket, time⟩)).Paired := by
    intro name old found
    by_cases same : name = bucket
    · subst same
      obtain rfl := Option.some.inj (present.symm.trans found)
      exact fresh_paired _
    · simp [Store.setBucket, Store.empty, Finmap.lookup_insert_of_ne _ same] at found
  have unissued : ∃ name, isUuid name = true ∧ name ∉ s.issued :=
    ⟨"00000000-0000-4000-8000-000000000000".toList, by decide, by simp [issued]⟩
  have valid : validateBucketName bucket = .ok () := by decide
  have started := wp_limited (create_upload_refines holds unissued bucket "a".toList none)
  obtain ⟨outcome, s₁, run₁, ⟨uploadId, uuid, _, rfl, holds₁⟩, limit₁⟩ := wp_returns started
  simp only [Store.createMultipartUpload, valid, present] at run₁ holds₁
  exact ⟨uploadId, s, s₁, _, ⟨bucket, time⟩, uuid, runs_then made (.done _ _),
    runs_then run₁ (.done _ _), limit₁.trans unlimited, holds₁, paired,
    Store.live_setUpload _ uploadId _, present⟩

end Reference

/-- The upload is completed while its bucket is there. -/
theorem buckets_live_photos : ∃ uploadId outcome s,
    Served Crates.reference Reference.storage (Request.Orderly Crates.reference Reference.storage)
      (Reference.disk none)
      [(.createBucket Reference.bucket, .ok .done),
        (.createMultipartUpload Reference.bucket "a".toList none, .ok (.upload uploadId)),
        (.completeMultipartUpload Reference.bucket "a".toList uploadId [], outcome)] s ∧
    BucketsWhole Reference.storage s := by
  obtain ⟨uploadId, middle, s, store, info, uuid, made, begun, unlimited, holds, _, live, present⟩ :=
    Reference.upload_begun
  have valid : validateBucketName Reference.bucket = .ok () := by decide
  obtain ⟨outcome, after, run, _⟩ :=
    wp_returns (wp_shown .object (complete_refines holds unlimited Reference.bucket "a".toList uuid []))
  have housed : Request.Housed Crates.reference Reference.storage s
      (.completeMultipartUpload Reference.bucket "a".toList uploadId []) := by
    intro record there
    rw [look_record holds, live, Option.map_some] at there
    obtain rfl := codec_injective _ (FS.Entry.file.inj (Option.some.inj there))
    simp [look_bucket holds valid, present]
  have served : Served Crates.reference Reference.storage
      (Request.Orderly Crates.reference Reference.storage) (Reference.disk none)
      [(.createBucket Reference.bucket, .ok .done),
        (.createMultipartUpload Reference.bucket "a".toList none, .ok (.upload uploadId)),
        (.completeMultipartUpload Reference.bucket "a".toList uploadId [], outcome)] after :=
    .cons ⟨trivial, trivial⟩ made (.cons ⟨trivial, trivial⟩ begun
      (.cons ⟨uuid, housed⟩ run (.nil _)))
  exact ⟨uploadId, outcome, after, served, (buckets_live (Reference.disk_empty none) rfl served).1⟩

/-- The upload is completed after its bucket was deleted, and the bucket is there again
without its record. -/
theorem bucket_back_from_upload : ∃ uploadId outcome s,
    Served Crates.reference Reference.storage (fun _ request => request.Issued) (Reference.disk none)
      [(.createBucket Reference.bucket, .ok .done),
        (.createMultipartUpload Reference.bucket "a".toList none, .ok (.upload uploadId)),
        (.deleteBucket Reference.bucket, .ok .done),
        (.completeMultipartUpload Reference.bucket "a".toList uploadId [], outcome)] s ∧
    s.look (Reference.bucket :: Reference.storage.dataRoot) = some .dir ∧
    ¬ BucketsWhole Reference.storage s := by
  obtain ⟨uploadId, middle, s, store, info, uuid, made, begun, unlimited, holds, paired, live,
    present⟩ := Reference.upload_begun
  have valid : validateBucketName Reference.bucket = .ok () := by decide
  have encoded : encodeKey "a".toList = .ok "a".toList := by decide
  have deleted := wp_returns (wp_shown (fun _ => .done)
    (wp_limited (delete_bucket_refines holds paired Reference.bucket)))
  obtain ⟨outcome, s₁, run₁, _, rfl, ⟨rfl, holds₁⟩, limit₁⟩ := deleted
  have dropped : store.deleteBucket Reference.bucket = (.ok (), store.dropBucket Reference.bucket) := by
    simp [Store.deleteBucket, valid, present, Bucket.fresh]
  rw [dropped] at run₁ holds₁
  have completed := wp_returns (wp_shown .object (complete_refines holds₁ (limit₁.trans unlimited)
    Reference.bucket "a".toList uuid []))
  obtain ⟨outcome, s₂, run₂, _, rfl, time, rfl, holds₂⟩ := completed
  have bare : (Store.completeMultipartUpload Crates.reference Reference.storage
      (store.dropBucket Reference.bucket) "a".toList uploadId [] time).2.buckets.lookup
      Reference.bucket = some ⟨none, Bucket.bare.objects.insert "a".toList [], none⟩ := by
    have still : (store.dropBucket Reference.bucket).staged.lookup uploadId =
        some ⟨⟨Reference.bucket, "a".toList, none⟩, ∅⟩ := live
    have gone : (store.dropBucket Reference.bucket).buckets.lookup Reference.bucket = none := by
      simp [Store.dropBucket]
    have nonempty : "a".toList ≠ [] := by decide
    simp only [Store.completeMultipartUpload, still, encoded, gone, Option.getD_none,
      List.insertionSort_nil, Store.assembled, if_neg nonempty, Bucket.bare, Store.setBucket,
      Finmap.lookup_insert]
  have there : s₂.look (Reference.bucket :: Reference.storage.dataRoot) = some .dir := by
    rw [look_bucket holds₂ valid, bare]
    rfl
  refine ⟨uploadId, _, s₂, .cons trivial made (.cons trivial begun
    (.cons trivial run₁ (.cons uuid run₂ (.nil _)))), there, ?_⟩
  intro whole
  obtain ⟨⟨content, recorded⟩, _⟩ := whole Reference.bucket (bucket_not_uploads valid) there
  rw [look_json holds₂ valid bare] at recorded
  cases recorded

end Ferrobucket
