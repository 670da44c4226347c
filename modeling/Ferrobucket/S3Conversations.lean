import Ferrobucket.S3Refinement
/-! Conversations with the S3 service. A client that completes its uploads where it began them sees
nothing but what the model answers, whatever else it asks and in whatever order; and the disk
holds the state of the model all the time. -/
namespace Ferrobucket
open Text Posix Program

/-! ### What a client knows from the conversation -/

/-- What an answer may tell of buckets and uploads. -/
inductive News where
  | created (name : Str)
  | removed (name : Str)
  | begun (id bucket key : Str)

def newsOf : S3Request × S3Outcome → Option News
  | (.createBucket name, .ok _) => some (.created name)
  | (.deleteBucket name, .ok _) => some (.removed name)
  | (.createMultipartUpload bucket key _, .ok (.upload output)) =>
      output.uploadId.map fun id => .begun id bucket key
  | _ => none

def bucketStep (name : Str) (there : Bool) : News → Bool
  | .created own => there || own = name
  | .removed own => there && own ≠ name
  | .begun .. => there

/-- The bucket has been created and not been deleted since. -/
def bucketThere (name : Str) (past : List News) : Bool := past.foldl (bucketStep name) false

def begunStep (id : Str) (begun : Option (Str × Str)) : News → Option (Str × Str)
  | .begun own bucket key => if own = id then some (bucket, key) else begun
  | _ => begun

/-- The bucket and the key that the upload was last begun for. -/
def begunFor (id : Str) (past : List News) : Option (Str × Str) := past.foldl (begunStep id) none

/-- An upload is completed only into the bucket and under the key that it was begun for, and only
while the bucket is there. -/
def CompletedOrderly (past : List News) (bucket key id : Str) : Prop :=
  ∀ own, begunFor id past = some own → own = (bucket, key) ∧ bucketThere bucket past = true

def Orderly (past : List News) : S3Request → Prop
  | .completeMultipartUpload bucket key uploadId _ => CompletedOrderly past bucket key uploadId
  | _ => True

/-- The model agrees with what the client knows. -/
structure S3Model.Remembers (model : S3Model) (past : List News) : Prop where
  buckets : ∀ name, bucketThere name past = true ↔ name ∈ model.buckets
  uploads : ∀ id upload, model.uploads.lookup id = some upload →
    begunFor id past = some (upload.bucket, upload.key)

/-- No bucket came or went, and no upload was begun. -/
structure S3Model.Settled (model after : S3Model) : Prop where
  buckets : ∀ name, name ∈ after.buckets ↔ name ∈ model.buckets
  uploads : ∀ id upload, after.uploads.lookup id = some upload →
    ∃ old, model.uploads.lookup id = some old ∧ old.bucket = upload.bucket ∧ old.key = upload.key

/-- What is told of a step is what it has changed. -/
def S3Model.Tells (model after : S3Model) : Option News → Prop
  | none => model.Settled after
  | some (.created name) =>
      (∀ other, other ∈ after.buckets ↔ other ∈ model.buckets ∨ other = name) ∧ after.uploads = model.uploads
  | some (.removed name) =>
      (∀ other, other ∈ after.buckets ↔ other ∈ model.buckets ∧ other ≠ name) ∧ after.uploads = model.uploads
  | some (.begun id bucket key) =>
      (∀ other, other ∈ after.buckets ↔ other ∈ model.buckets) ∧ ∃ contentType, after.uploads =
        model.uploads.insert id ⟨bucket, key, contentType, fun _ => none⟩

section Remembering
variable {crates : Crates} {texts : Texts} {model next after : S3Model} {past : List News}

theorem settled_self : model.Settled model := ⟨fun _ => Iff.rfl, fun _ upload live => ⟨upload, live, rfl, rfl⟩⟩

theorem settled_trans (first : model.Settled next) (second : next.Settled after) : model.Settled after := by
  refine ⟨fun name => (second.buckets name).trans (first.buckets name), ?_⟩
  intro id upload live
  obtain ⟨middle, there, bucket, key⟩ := second.uploads id upload live
  obtain ⟨old, before, bucket', key'⟩ := first.uploads id middle there
  exact ⟨old, before, bucket'.trans bucket, key'.trans key⟩

theorem settled_set {name : Str} {bucket found : S3Bucket} (present : model.buckets.lookup name = some found) :
    model.Settled (model.setBucket name bucket) := by
  refine ⟨?_, fun _ upload live => ⟨upload, live, rfl, rfl⟩⟩
  intro other
  simp only [S3Model.setBucket, Finmap.mem_insert]
  constructor
  · rintro (rfl | member)
    · exact Finmap.lookup_isSome.mp (by rw [present]; rfl)
    · exact member
  · exact .inr

theorem settled_object (model : S3Model) (name key : Str) (object : S3Object) :
    model.Settled (model.setObject name key object) := by
  unfold S3Model.setObject
  cases present : model.buckets.lookup name with
  | none => exact settled_self
  | some found => exact settled_set present

theorem settled_ended (model : S3Model) (id : Str) :
    model.Settled { model with uploads := model.uploads.erase id } := by
  refine ⟨fun _ => Iff.rfl, ?_⟩
  intro other upload live
  by_cases same : other = id
  · subst same
    simp at live
  · exact ⟨upload, by simpa [Finmap.lookup_erase_ne same] using live, rfl, rfl⟩

theorem settled_put (model : S3Model) (bucket key : Str) (body : Body) (contentType : Option Str)
    (time : Nat) : model.Settled (model.putObject crates bucket key body contentType time).2 := by
  unfold S3Model.putObject
  repeat' split
  all_goals first | exact settled_self | exact settled_object ..

theorem settled_delete (model : S3Model) (bucket key : Str) :
    model.Settled (model.deleteObject bucket key).2 := by
  unfold S3Model.deleteObject
  repeat' split
  all_goals first | exact settled_self | exact settled_set (by assumption)

theorem settled_batch (bucket : Str) (quiet : Bool) (objects : List ObjectIdentifier) (model : S3Model) :
    model.Settled (S3Model.deleteObjects texts bucket quiet objects model).2 := by
  induction objects generalizing model with
  | nil => exact settled_self
  | cons obj rest ih =>
      have first := settled_trans (settled_delete model bucket obj.key) (ih _)
      simp only [S3Model.deleteObjects]
      split <;> exact first

theorem settled_part (model : S3Model) (id : Str) (number : Int) (body : Body) :
    model.Settled (model.uploadPart crates id number body).2 := by
  unfold S3Model.uploadPart
  split
  · exact settled_self
  split
  · exact settled_self
  next upload live =>
    split
    · exact settled_self
    · refine ⟨fun _ => Iff.rfl, ?_⟩
      intro other found now
      by_cases same : other = id
      · subst same
        simp only [S3Model.setUpload, Finmap.lookup_insert, Option.some.injEq] at now
        subst now
        exact ⟨upload, live, rfl, rfl⟩
      · simp only [S3Model.setUpload, Finmap.lookup_insert_of_ne _ same] at now
        exact ⟨found, now, rfl, rfl⟩

theorem settled_complete (model : S3Model) (key id : Str) (parts : List Int) (time : Nat) :
    model.Settled (model.completeMultipartUpload crates key id parts time).2 := by
  unfold S3Model.completeMultipartUpload
  repeat' split
  all_goals first
    | exact settled_self
    | exact settled_trans (settled_object model _ _ _) (settled_ended _ id)

theorem settled_abort (model : S3Model) (id : Str) :
    model.Settled (model.abortMultipartUpload id).2 := by
  unfold S3Model.abortMultipartUpload
  split
  · exact settled_self
  · exact settled_ended model id

theorem tells_created (model : S3Model) (name : Str) (time : Nat) :
    model.Tells (model.createBucket name time).2
      (if (model.createBucket name time).1.isOk then some (.created name) else none) := by
  unfold S3Model.createBucket
  cases validateBucketName name with
  | error e => exact settled_self
  | ok _ =>
  cases model.buckets.lookup name with
  | some found => exact settled_self
  | none =>
      refine ⟨?_, rfl⟩
      intro other
      rw [S3Model.setBucket, Finmap.mem_insert, or_comm]

theorem tells_removed (model : S3Model) (name : Str) :
    model.Tells (model.deleteBucket name).2
      (if (model.deleteBucket name).1.isOk then some (.removed name) else none) := by
  unfold S3Model.deleteBucket
  cases validateBucketName name with
  | error e => exact settled_self
  | ok _ =>
  cases model.buckets.lookup name with
  | none => exact settled_self
  | some found =>
      by_cases empty : found.objects = ∅
      · simp only [if_pos empty]
        refine ⟨?_, rfl⟩
        intro other
        rw [Finmap.mem_erase, and_comm]
      · simp only [if_neg empty]
        exact settled_self

theorem tells_begun (model : S3Model) (bucket key : Str) (contentType : Option Str) (id : Str) :
    model.Tells (model.createMultipartUpload bucket key contentType id).2
      ((model.createMultipartUpload bucket key contentType id).1.toOption.map fun own =>
        .begun own bucket key) := by
  unfold S3Model.createMultipartUpload
  cases validateBucketName bucket with
  | error e => exact settled_self
  | ok _ =>
  cases model.buckets.lookup bucket with
  | none => exact settled_self
  | some found => exact ⟨fun _ => Iff.rfl, contentType, rfl⟩

/-- Whoever is told what a step has changed still agrees with the model. -/
theorem remembers_told {news : Option News} (remembers : model.Remembers past) (told : model.Tells after news) :
    after.Remembers (past ++ news.toList) := by
  cases news with
  | none =>
      rw [Option.toList_none, List.append_nil]
      refine ⟨fun name => (remembers.buckets name).trans (told.buckets name).symm, ?_⟩
      intro id upload live
      obtain ⟨old, before, bucket, key⟩ := told.uploads id upload live
      rw [← bucket, ← key]
      exact remembers.uploads id old before
  | some news =>
      rw [Option.toList_some]
      cases news with
      | created name =>
          obtain ⟨buckets, uploads⟩ := told
          constructor
          · intro other
            rw [buckets, ← remembers.buckets other, bucketThere, List.foldl_concat]
            simp only [bucketStep, Bool.or_eq_true, decide_eq_true_eq]
            exact or_congr Iff.rfl eq_comm
          · intro id upload live
            rw [uploads] at live
            rw [begunFor, List.foldl_concat]
            exact remembers.uploads id upload live
      | removed name =>
          obtain ⟨buckets, uploads⟩ := told
          constructor
          · intro other
            rw [buckets, ← remembers.buckets other, bucketThere, List.foldl_concat]
            simp only [bucketStep, Bool.and_eq_true, decide_eq_true_eq]
            exact and_congr Iff.rfl ne_comm
          · intro id upload live
            rw [uploads] at live
            rw [begunFor, List.foldl_concat]
            exact remembers.uploads id upload live
      | begun own bucket key =>
          obtain ⟨buckets, contentType, uploads⟩ := told
          constructor
          · intro other
            rw [buckets, ← remembers.buckets other, bucketThere, List.foldl_concat]
            rfl
          · intro id upload live
            rw [begunFor, List.foldl_concat]
            by_cases same : id = own
            · subst same
              rw [uploads, Finmap.lookup_insert] at live
              cases live
              simp [begunStep]
            · rw [uploads, Finmap.lookup_insert_of_ne _ same] at live
              rw [begunStep, if_neg (Ne.symm same)]
              exact remembers.uploads id upload live

variable (crates texts) in
/-- The answers of the model tell what it has changed. -/
theorem respond_tells (model : S3Model) (choice : S3Choice) (request : S3Request) :
    model.Tells (model.respond crates texts choice request).2
      (newsOf (request, (model.respond crates texts choice request).1)) := by
  cases request with
  | putObject bucket key body contentType =>
      cases body with
      | none => exact settled_self
      | some blob => exact settled_put ..
  | getObject bucket key range => exact settled_self
  | headObject bucket key => exact settled_self
  | deleteObject bucket key => exact settled_delete ..
  | deleteObjects bucket delete => exact settled_batch ..
  | createBucket bucket =>
      have told := tells_created model bucket choice.time
      cases made : (model.createBucket bucket choice.time).1 with
      | error e => simpa [S3Model.respond, newsOf, seen, made, Except.mapError, Except.map, Except.isOk,
          Except.toBool] using told
      | ok _ => simpa [S3Model.respond, newsOf, seen, made, Except.mapError, Except.map, Except.isOk,
          Except.toBool] using told
  | deleteBucket bucket =>
      have told := tells_removed model bucket
      cases gone : (model.deleteBucket bucket).1 with
      | error e => simpa [S3Model.respond, newsOf, seen, gone, Except.mapError, Except.map, Except.isOk,
          Except.toBool] using told
      | ok _ => simpa [S3Model.respond, newsOf, seen, gone, Except.mapError, Except.map, Except.isOk,
          Except.toBool] using told
  | listBuckets => exact settled_self
  | headBucket bucket => exact settled_self
  | createMultipartUpload bucket key contentType =>
      have told := tells_begun model bucket key contentType choice.uploadId
      cases begun : (model.createMultipartUpload bucket key contentType choice.uploadId).1 with
      | error e => simpa [S3Model.respond, newsOf, seen, begun, Except.mapError, Except.map, Except.toOption]
          using told
      | ok id => simpa [S3Model.respond, newsOf, seen, begun, Except.mapError, Except.map, Except.toOption]
          using told
  | uploadPart bucket uploadId partNumber body =>
      cases body with
      | none => exact settled_self
      | some blob => exact settled_part ..
  | completeMultipartUpload bucket key uploadId multipartUpload => exact settled_complete ..
  | abortMultipartUpload bucket uploadId => exact settled_abort ..
  | listObjectsV2 input => exact settled_self

theorem completed_orderly {bucket key id : Str} (remembers : model.Remembers past)
    (orderly : CompletedOrderly past bucket key id) : model.Orderly bucket key id := by
  intro upload live
  obtain ⟨same, there⟩ := orderly _ (remembers.uploads _ upload live)
  obtain ⟨own, named⟩ := Prod.mk.inj same
  exact ⟨own, named, (remembers.buckets bucket).mp there⟩

theorem orderly_model (remembers : model.Remembers past) {request : S3Request}
    (orderly : Orderly past request) : request.Orderly model := by
  cases request with
  | completeMultipartUpload bucket key uploadId multipartUpload => exact completed_orderly remembers orderly
  | _ => trivial

end Remembering

/-! ### Whole conversations -/

section Conversations
variable {crates : Crates} {storage : FsStorage} {texts : Texts} {s t : FS}
  {events : List (S3Request × S3Outcome)}

-- Induction on the run; what has been said before it says which uploads may be completed.
theorem conversation_answered {model : S3Model} {past : List News}
    (stands : S3Stands crates storage s model) (remembers : model.Remembers past)
    (run : S3Served crates storage texts s events t)
    (orderly : ∀ earlier request outcome later, events = earlier ++ (request, outcome) :: later →
      Orderly (past ++ earlier.filterMap newsOf) request) :
    ∃ after, S3Model.Answers crates texts model events after ∧ S3Stands crates storage t after := by
  induction run generalizing model past with
  | nil s => exact ⟨model, .nil model, stands⟩
  | @cons s middle t request outcome later run _ ih =>
      have first : Orderly past request := by
        have own := orderly [] request outcome later rfl
        rwa [List.filterMap_nil, List.append_nil] at own
      obtain ⟨choice, rfl, allowed, next⟩ := s3_step stands (orderly_model remembers first) run
      have told := remembers_told remembers (respond_tells crates texts model choice request)
      obtain ⟨after, answers, final⟩ := ih next told (by
        intro earlier other answered rest same
        have inside := orderly ((request, _) :: earlier) other answered rest (by rw [same]; rfl)
        rw [List.append_assoc]
        cases news : newsOf (request, (model.respond crates texts choice request).1) with
        | none => simpa [List.filterMap_cons, news] using inside
        | some told => simpa [List.filterMap_cons, news] using inside)
      exact ⟨after, .cons rfl allowed answers, final⟩

theorem begins_empty (crates : Crates) (start : EmptyRoot storage s) (unlimited : s.nameMax = none) :
    S3Stands crates storage s .empty ∧ S3Model.empty.Remembers [] := by
  refine ⟨⟨unlimited, .empty, holds_empty crates start (.inl unlimited), offers_bare⟩, ?_, ?_⟩
  · intro name
    simp [bucketThere, S3Model.empty, Finmap.notMem_empty]
  · intro id upload live
    simp [S3Model.empty] at live

end Conversations

/-! ### An upload of `a` -/

section Photo
open Reference

def photoKey : ObjectKey := ⟨['a'], List.cons_ne_nil _ _⟩

/-- The bucket is made and the upload begun; its id is the server's choice. -/
def photoBegun (id : Str) : List (S3Request × S3Outcome) :=
  [(.createBucket bucket, .ok .done),
    (.createMultipartUpload bucket photoKey none, .ok (.upload ⟨some bucket, some ['a'], some id⟩))]

def photoEvents (id : UploadId) (part completed listed : S3Outcome) : List (S3Request × S3Outcome) :=
  photoBegun id ++
    [(.uploadPart bucket id 1 (some [.ok [1], .ok [2]]), part),
      (.completeMultipartUpload bucket photoKey id (some ⟨some [⟨some 1⟩]⟩), completed),
      (.listObjectsV2 ⟨bucket, none, none, none, none⟩, listed)]

theorem photo_begun : ∃ (id : UploadId) (s : FS) (store : Store), s.nameMax = none ∧
    Holds Crates.reference storage s store ∧
    ∀ later t, S3Served Crates.reference storage texts s later t →
      S3Served Crates.reference storage texts (disk none) (photoBegun id ++ later) t := by
  have start := holds_empty Crates.reference (disk_empty none) (.inl rfl)
  have made : wp faultFree (s3Handle Crates.reference storage texts (.createBucket bucket))
      (fun outcome after => outcome = .ok .done ∧ after.issued = [] ∧ after.nameMax = none ∧ ∃ time,
        Holds Crates.reference storage after (Store.empty.setBucket bucket (.fresh ⟨bucket, time⟩)))
      (disk none) := by
    unfold s3Handle s3CreateBucket
    rw [wp_return, wp_return, wp_served]
    apply wp_mono (wp_limited (create_refines start bucket))
    rintro outcome after ⟨⟨time, rfl, still, issued⟩, limit⟩
    have valid : validateBucketName bucket = .ok () := by decide
    have created : Store.createBucket .empty bucket time =
        (.ok (), Store.empty.setBucket bucket (.fresh ⟨bucket, time⟩)) := by
      simp [Store.createBucket, valid, Store.empty]
    rw [created] at still ⊢
    exact ⟨rfl, issued, limit, time, still⟩
  obtain ⟨_, middle, first, rfl, issued, unlimited, time, holds⟩ := wp_returns made
  have unissued : ∃ name, isUuid name = true ∧ name ∉ middle.issued := 
    ⟨"00000000-0000-4000-8000-000000000000".toList, by decide, by simp [issued]⟩
  have begun : wp faultFree (s3Handle Crates.reference storage texts
      (.createMultipartUpload bucket photoKey none)) (fun outcome after => ∃ id, isUuid id = true ∧
        outcome = .ok (.upload ⟨some bucket, some ['a'], some id⟩) ∧ after.nameMax = none ∧ ∃ store,
          Holds Crates.reference storage after store) middle := by
    unfold s3Handle s3CreateMultipartUpload
    rw [wp_return, wp_return, wp_served]
    apply wp_mono (wp_limited (create_upload_refines holds unissued bucket photoKey none))
    rintro outcome after ⟨⟨id, uuid, _, rfl, still⟩, limit⟩
    have valid : validateBucketName bucket = .ok () := by decide
    have present : (Store.empty.setBucket bucket (.fresh ⟨bucket, time⟩)).buckets.lookup bucket =
        some (.fresh ⟨bucket, time⟩) := Finmap.lookup_insert _
    simp only [Store.createMultipartUpload, valid, present] at still ⊢
    exact ⟨id, uuid, rfl, limit.trans unlimited, _, still⟩
  obtain ⟨_, s, second, id, uuid, rfl, limit, store, still⟩ := wp_returns begun
  exact ⟨⟨id, uuid⟩, s, store, limit, still, fun later t rest => .cons first (.cons second rest)⟩

theorem photo_served : ∃ (id : UploadId) (part completed listed : S3Outcome) (t : FS),
    S3Served Crates.reference storage texts (disk none) (photoEvents id part completed listed) t := by
  obtain ⟨id, s, store, unlimited, holds, extends'⟩ := photo_begun
  have sent : wp faultFree (s3Handle Crates.reference storage texts
      (.uploadPart bucket id 1 (some [.ok [1], .ok [2]]))) (fun _ after => after.nameMax = none ∧
        ∃ store, Holds Crates.reference storage after store) s := by
    unfold s3Handle s3UploadPart
    rw [wp_return, wp_return, wp_served]
    apply wp_mono (wp_limited (part_refines holds unlimited bucket id.property (1 : Int32).toInt
      [.ok [1], .ok [2]]))
    rintro outcome after ⟨⟨_, still⟩, limit⟩
    exact ⟨limit.trans unlimited, _, still⟩
  obtain ⟨part, parted, third, unlimited, store, holds⟩ := wp_returns sent
  have whole : wp faultFree (s3Handle Crates.reference storage texts
      (.completeMultipartUpload bucket photoKey id (some ⟨some [⟨some 1⟩]⟩)))
      (fun _ after => ∃ store, Holds Crates.reference storage after store) parted := by
    unfold s3Handle s3CompleteMultipartUpload
    simp only []
    rw [wp_return, wp_return, wp_served]
    apply wp_mono (complete_refines holds unlimited bucket photoKey id.property
      ((requestedParts (some ⟨some [⟨some 1⟩]⟩)).map Int32.toInt))
    rintro outcome after ⟨_, _, still⟩
    exact ⟨_, still⟩
  obtain ⟨completed, middle, fourth, store, holds⟩ := wp_returns whole
  have shown : wp faultFree (s3Handle Crates.reference storage texts
      (.listObjectsV2 ⟨bucket, none, none, none, none⟩)) (fun _ _ => True) middle := by
    unfold s3Handle s3ListObjectsV2
    rw [wp_return, wp_return, wp_served]
    exact list_refines holds _ _ _ trivial
  obtain ⟨listed, t, fifth, _⟩ := wp_returns shown
  exact ⟨id, part, completed, listed, t, extends' _ t (.cons third (.cons fourth (.cons fifth (.nil t))))⟩

end Photo
end Ferrobucket
