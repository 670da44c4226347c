import Ferrobucket.MapRefinement
import Ferrobucket.S3Model
/-! The S3 service answers every conversation as its model does. A store offers a model when the
objects and the parts of the two are the same; one request keeps them so, and is answered alike. -/
namespace Ferrobucket
open Text Posix Program Grouping

/-! ### What relates a store to the model -/

/-- A bucket directory and the objects it offers. -/
structure Bucket.Offers (name : Str) (bucket : Bucket) (offered : S3Bucket) : Prop where
  info : bucket.info = some ⟨name, offered.creationDate⟩
  sidecars : bucket.sidecars.isSome = true
  bodies : ∀ key, bucket.bodyOf key = (offered.objects.lookup key).map S3Object.bytes
  records : ∀ key, bucket.recordOf none key = (offered.objects.lookup key).map (S3Object.record key)

/-- A staging directory and the upload it stands for. -/
structure Upload.Offers (upload : Upload) (begun : S3Upload) : Prop where
  record : upload.record = ⟨begun.bucket, begun.key, begun.contentType⟩
  parts : ∀ number, upload.parts.lookup (FsStorage.partName number) = begun.parts number

structure Store.Offers (store : Store) (model : S3Model) : Prop where
  buckets : ∀ name,
    Option.Rel (Bucket.Offers name) (store.buckets.lookup name) (model.buckets.lookup name)
  uploads : ∀ id, Option.Rel Upload.Offers (store.staged.lookup id) (model.uploads.lookup id)

/-- A file system, the store on it and the model that it offers. -/
def S3Stands (crates : Crates) (storage : FsStorage) (s : FS) (model : S3Model) : Prop :=
  s.nameMax = none ∧ ∃ store, Holds crates storage s store ∧ store.Offers model

section Facts
variable {store : Store} {model : S3Model} {bucket : Bucket} {offered : S3Bucket} {upload : Upload}
  {begun : S3Upload} {name key encoded : Str} {id : Str}

theorem related_none {Left Right : Type} {related : Left → Right → Prop} {left : Option Left}
    {right : Option Right} (same : Option.Rel related left right) : left = none ↔ right = none := by
  cases same <;> simp

theorem related_some {Left Right : Type} {related : Left → Right → Prop} {value : Left}
    {right : Option Right} (same : Option.Rel related (some value) right) :
    ∃ other, right = some other ∧ related value other := by
  cases same with
  | some inside => exact ⟨_, rfl, inside⟩

theorem offers_none (offers : store.Offers model) (absent : store.buckets.lookup name = none) :
    model.buckets.lookup name = none := (related_none (offers.buckets name)).mp absent

theorem offers_some (offers : store.Offers model) (present : store.buckets.lookup name = some bucket) :
    ∃ offered, model.buckets.lookup name = some offered ∧ bucket.Offers name offered := by
  have related := offers.buckets name
  rw [present] at related
  exact related_some related

theorem offers_ended (offers : store.Offers model) (ended : store.staged.lookup id = none) :
    model.uploads.lookup id = none := (related_none (offers.uploads id)).mp ended

theorem offers_live (offers : store.Offers model) (live : store.staged.lookup id = some upload) :
    ∃ begun, model.uploads.lookup id = some begun ∧ upload.Offers begun := by
  have related := offers.uploads id
  rw [live] at related
  exact related_some related

theorem offers_bare : Store.empty.Offers .empty := by
  constructor
  · intro name
    simp only [Store.empty, S3Model.empty, Finmap.lookup_empty]
    exact .none
  · intro id
    simp only [Store.empty, Store.staged, S3Model.empty, Option.getD_none, Finmap.lookup_empty]
    exact .none

/-! Buckets. -/

theorem offers_set (offers : store.Offers model) (inside : bucket.Offers name offered) :
    (store.setBucket name bucket).Offers (model.setBucket name offered) := by
  refine ⟨?_, offers.uploads⟩
  intro other
  by_cases same : other = name
  · subst same
    simp only [Store.setBucket, S3Model.setBucket, Finmap.lookup_insert]
    exact .some inside
  · simp only [Store.setBucket, S3Model.setBucket, Finmap.lookup_insert_of_ne _ same]
    exact offers.buckets other

theorem offers_drop (offers : store.Offers model) :
    (store.dropBucket name).Offers { model with buckets := model.buckets.erase name } := by
  refine ⟨?_, offers.uploads⟩
  intro other
  by_cases same : other = name
  · subst same
    simp only [Store.dropBucket, Finmap.lookup_erase]
    exact .none
  · simp only [Store.dropBucket, Finmap.lookup_erase_ne same]
    exact offers.buckets other

theorem offers_fresh (time : Nat) : (Bucket.fresh ⟨name, time⟩).Offers name ⟨time, ∅⟩ := by
  refine ⟨rfl, rfl, ?_, ?_⟩
  · intro key
    unfold Bucket.bodyOf
    cases encodeKey key <;> simp [Except.toOption, Bucket.fresh]
  · intro key
    unfold Bucket.recordOf
    cases encodeKey key <;> simp [Except.toOption, Bucket.fresh]

theorem offers_stored {sidecars : Names ObjectMeta} (object : S3Object) (inside : bucket.Offers name offered)
    (kept : bucket.sidecars = some sidecars) (admitted : encodeKey key = .ok encoded) :
    (Store.storedBucket bucket sidecars encoded object.bytes (object.record key)).Offers name
      { offered with objects := offered.objects.insert key object } := by
  refine ⟨inside.info, rfl, ?_, ?_⟩
  · intro other
    rw [body_insert object.bytes (object.record key) admitted]
    by_cases same : other = key
    · subst same
      simp
    · rw [if_neg same, Finmap.lookup_insert_of_ne _ same]
      exact inside.bodies other
  · intro other
    rw [record_insert object.bytes _ kept admitted rfl]
    by_cases same : other = key
    · subst same
      simp
    · rw [if_neg same, Finmap.lookup_insert_of_ne _ same]
      exact inside.records other

theorem offers_deleted {sidecars : Names ObjectMeta} (inside : bucket.Offers name offered)
    (kept : bucket.sidecars = some sidecars) (admitted : encodeKey key = .ok encoded) :
    Bucket.Offers name
      { bucket with
        objects := bucket.objects.erase encoded
        sidecars := some (sidecars.erase (FsStorage.sidecarName encoded)) }
      { offered with objects := offered.objects.erase key } := by
  refine ⟨inside.info, rfl, ?_, ?_⟩
  · intro other
    by_cases same : other = key
    · subst same
      simp [Bucket.bodyOf, admitted, Except.toOption]
    · rw [Finmap.lookup_erase_ne same, ← inside.bodies]
      unfold Bucket.bodyOf
      cases own : encodeKey other with
      | error e => rfl
      | ok other_name =>
          have different : other_name ≠ encoded := by
            rintro rfl
            exact same (encode_key_injective own admitted)
          simp [Except.toOption, Finmap.lookup_erase_ne different]
  · intro other
    by_cases same : other = key
    · subst same
      simp [Bucket.recordOf, admitted, Except.toOption]
    · rw [Finmap.lookup_erase_ne same, ← inside.records]
      unfold Bucket.recordOf
      cases own : encodeKey other with
      | error e => rfl
      | ok other_name =>
          have different : FsStorage.sidecarName other_name ≠ FsStorage.sidecarName encoded := by
            intro clash
            obtain rfl := sidecar_injective clash
            exact same (encode_key_injective own admitted)
          simp [Except.toOption, kept, Finmap.lookup_erase_ne different]

theorem offers_body (inside : bucket.Offers name offered) (admitted : encodeKey key = .ok encoded) :
    bucket.objects.lookup encoded = (offered.objects.lookup key).map S3Object.bytes := by
  rw [← inside.bodies key, Bucket.bodyOf, admitted]
  rfl

theorem offers_stores (inside : bucket.Offers name offered) (key : Str) :
    bucket.Stores key ↔ key ∈ offered.objects := by
  rw [stores_iff, inside.bodies, Option.isSome_map, Finmap.lookup_isSome]

theorem offers_empty (sound : bucket.Sound name) (inside : bucket.Offers name offered) :
    bucket.objects = ∅ ↔ offered.objects = ∅ := by
  rw [names_empty, names_empty]
  constructor
  · intro empty key
    have absent : bucket.bodyOf key = none := by
      unfold Bucket.bodyOf
      cases encodeKey key with
      | error e => rfl
      | ok encoded => exact empty encoded
    rw [inside.bodies, Option.map_eq_none_iff] at absent
    exact absent
  · intro empty encoded
    cases stored : bucket.objects.lookup encoded with
    | none => rfl
    | some body =>
        obtain ⟨key, _, admitted⟩ := sound.objects encoded body stored
        rw [offers_body inside admitted, empty key] at stored
        cases stored

/-- Every sidecar has its body. -/
theorem offers_paired (sound : store.Sound) (offers : store.Offers model) : store.Paired := by
  intro name bucket present sidecars encoded objectMeta kept found
  obtain ⟨own, object, same⟩ := (sound.buckets name bucket present).sidecars _ _ _ kept found
  obtain rfl := sidecar_injective same
  obtain ⟨key, _, admitted⟩ := object
  have record : bucket.recordOf none key = some objectMeta := by
    simp [Bucket.recordOf, admitted, Except.toOption, kept, exceeds, found]
  obtain ⟨offered, _, inside⟩ := offers_some offers present
  rw [inside.records] at record
  obtain ⟨object, there, _⟩ := Option.map_eq_some_iff.mp record
  exact ⟨object.bytes, by rw [offers_body inside admitted, there]; rfl⟩

/-! Uploads. -/

theorem offers_begun (offers : store.Offers model) (inside : upload.Offers begun) :
    (store.setUpload id upload).Offers (model.setUpload id begun) := by
  refine ⟨offers.buckets, ?_⟩
  intro other
  by_cases same : other = id
  · subst same
    rw [Store.live_setUpload]
    simp only [S3Model.setUpload, Finmap.lookup_insert]
    exact .some inside
  · have kept : (store.setUpload id upload).staged.lookup other = store.staged.lookup other := by
      simp [Store.staged, Store.setUpload, Finmap.lookup_insert_of_ne _ same]
    simp only [kept, S3Model.setUpload, Finmap.lookup_insert_of_ne _ same]
    exact offers.uploads other

theorem offers_over (offers : store.Offers model) :
    (store.dropUpload id).Offers { model with uploads := model.uploads.erase id } := by
  refine ⟨offers.buckets, ?_⟩
  intro other
  rw [staged_dropUpload]
  by_cases same : other = id
  · subst same
    rw [if_pos rfl, Finmap.lookup_erase]
    exact .none
  · rw [if_neg same, Finmap.lookup_erase_ne same]
    exact offers.uploads other

theorem offers_new (record : MultipartMeta) :
    Upload.Offers ⟨record, ∅⟩ ⟨record.bucket, record.key, record.contentType, fun _ => none⟩ :=
  ⟨rfl, fun _ => rfl⟩

theorem offers_part (inside : upload.Offers begun) (number : Int) (content : Bytes) :
    Upload.Offers { upload with parts := upload.parts.insert (FsStorage.partName number) content }
      { begun with parts := Function.update begun.parts number (some content) } := by
  refine ⟨inside.record, ?_⟩
  intro other
  by_cases same : other = number
  · subst same
    simp only [Function.update_self, Finmap.lookup_insert]
  · have different : FsStorage.partName other ≠ FsStorage.partName number :=
      fun clash => same (part_name_injective clash)
    simp only [Function.update_of_ne same, Finmap.lookup_insert_of_ne _ different]
    exact inside.parts other

theorem offers_joined (inside : upload.Offers begun) (parts : List Int) :
    Store.assembled upload parts = begun.joined parts := by
  unfold S3Upload.joined
  induction parts with
  | nil => rfl
  | cons number rest ih =>
      rw [Store.assembled, inside.parts, ih, List.mapM_cons]
      cases begun.parts number with
      | none => rfl
      | some content => cases rest.mapM begun.parts <;> rfl

end Facts

/-! ### One call on the store and on the model -/

section Calls
variable {crates : Crates} {storage : FsStorage} {store : Store} {model : S3Model}

theorem create_offers (offers : store.Offers model) (name : Str) (time : Nat) :
    (store.createBucket name time).1 = (model.createBucket name time).1 ∧
      (store.createBucket name time).2.Offers (model.createBucket name time).2 := by
  unfold Store.createBucket S3Model.createBucket
  cases validateBucketName name with
  | error e => exact ⟨rfl, offers⟩
  | ok _ =>
  cases present : store.buckets.lookup name with
  | some bucket =>
      obtain ⟨offered, found, _⟩ := offers_some offers present
      simp only [found]
      exact ⟨trivial, offers⟩
  | none =>
      simp only [offers_none offers present]
      exact ⟨trivial, offers_set offers (offers_fresh time)⟩

theorem delete_bucket_offers (sound : store.Sound) (offers : store.Offers model) (name : Str) :
    (store.deleteBucket name).1 = (model.deleteBucket name).1 ∧
      (store.deleteBucket name).2.Offers (model.deleteBucket name).2 := by
  unfold Store.deleteBucket S3Model.deleteBucket
  cases validateBucketName name with
  | error e => exact ⟨rfl, offers⟩
  | ok _ =>
  cases present : store.buckets.lookup name with
  | none =>
      simp only [offers_none offers present]
      exact ⟨trivial, offers⟩
  | some bucket =>
      obtain ⟨offered, found, inside⟩ := offers_some offers present
      have same := offers_empty (sound.buckets name bucket present) inside
      simp only [found, same]
      by_cases empty : offered.objects = ∅
      · simp only [if_pos empty]
        exact ⟨trivial, offers_drop offers⟩
      · simp only [if_neg empty]
        exact ⟨trivial, offers⟩

variable (crates) in
theorem put_offers (offers : store.Offers model) (bucket : Str) (key : ObjectKey) (body : Body)
    (contentType : Option Str) (time : Nat) :
    (store.putObject crates none bucket key body contentType time).1 =
        (model.putObject crates bucket key body contentType time).1.map (S3Object.record key) ∧
      (store.putObject crates none bucket key body contentType time).2.Offers
        (model.putObject crates bucket key body contentType time).2 := by
  unfold Store.putObject S3Model.putObject
  cases validateBucketName bucket with
  | error e => exact ⟨rfl, offers⟩
  | ok _ =>
  cases present : store.buckets.lookup bucket with
  | none =>
      simp only [offers_none offers present]
      exact ⟨rfl, offers⟩
  | some old =>
  obtain ⟨offered, found, inside⟩ := offers_some offers present
  obtain ⟨sidecars, kept⟩ := Option.isSome_iff_exists.mp inside.sidecars
  simp only [found]
  cases admitted : encodeKey key with
  | error e => exact ⟨rfl, offers⟩
  | ok encoded =>
  cases failure body with
  | some e => exact ⟨rfl, offers⟩
  | none =>
      simp only [if_neg key.property, kept, exceeds, Bool.false_eq_true, if_false, S3Model.setObject, found]
      refine ⟨rfl, offers_set offers ?_⟩
      exact offers_stored ⟨delivered body, contentType.getD defaultContentType, hexMd5 crates (delivered body),
        time⟩ inside kept admitted

/-- What is not there is called by its place on the disk. -/
def StorageError.placed (objectPlace uploadPlace : Str) : StorageError → StorageError
  | .NoSuchKey _ => .NoSuchKey objectPlace
  | .NoSuchUpload _ => .NoSuchUpload uploadPlace
  | e => e

/-- Places do not reach a client of the S3 service. -/
theorem placed_code (objectPlace uploadPlace : Str) (e : StorageError) :
    mapStorageErr (e.placed objectPlace uploadPlace) = mapStorageErr e := by
  cases e <;> rfl

theorem bucket_error_placed {name : Str} {e : StorageError} (refused : validateBucketName name = .error e)
    (objectPlace uploadPlace : Str) : e.placed objectPlace uploadPlace = e := by
  unfold validateBucketName at refused
  split at refused
  · cases refused
    rfl
  · split at refused
    · cases refused
      rfl
    · simp only [] at refused
      split at refused
      · cases refused
        rfl
      · cases refused

theorem key_error_placed {key : Str} {e : StorageError} (refused : encodeKey key = .error e)
    (objectPlace uploadPlace : Str) : e.placed objectPlace uploadPlace = e := by
  simp only [encodeKey] at refused
  split at refused
  · cases refused
    rfl
  · split at refused
    · cases refused
      rfl
    · cases refused

/-- Where the record of an object is looked for. -/
def recordShown (storage : FsStorage) (bucket key : Str) : Str :=
  (storage.metaPath bucket ((encodeKey key).toOption.getD [])).display

/-- Where the record of an upload is looked for. -/
def uploadRecordShown (storage : FsStorage) (id : Str) : Str :=
  ((storage.uploadDir id).join multipartJsonName).display

/-- An object is found under its record and its body. -/
theorem find_offers (storage : FsStorage) (offers : store.Offers model) (bucket key : Str) :
    (∃ e, model.findObject bucket key = .error e ∧
        store.headObject storage none bucket key = .error (e.placed (recordShown storage bucket key) [])) ∨
      ∃ object, model.findObject bucket key = .ok object ∧
        store.headObject storage none bucket key = .ok (object.record key) ∧
        store.bodyOf bucket key = some object.bytes := by
  unfold S3Model.findObject Store.headObject Store.bodyOf recordShown
  cases valid : validateBucketName bucket with
  | error e => exact .inl ⟨e, rfl, by rw [bucket_error_placed valid]⟩
  | ok _ =>
  cases admitted : encodeKey key with
  | error e => exact .inl ⟨e, rfl, by rw [key_error_placed admitted]⟩
  | ok encoded =>
  cases present : store.buckets.lookup bucket with
  | none =>
      simp only [offers_none offers present]
      exact .inl ⟨_, rfl, rfl⟩
  | some old =>
      obtain ⟨offered, found, inside⟩ := offers_some offers present
      obtain ⟨sidecars, kept⟩ := Option.isSome_iff_exists.mp inside.sidecars
      have record : sidecars.lookup (FsStorage.sidecarName encoded) =
          (offered.objects.lookup key).map (S3Object.record key) := by
        have records := inside.records key
        simpa [Bucket.recordOf, admitted, Except.toOption, kept, exceeds] using records
      simp only [found, Option.bind_some, kept, exceeds, Bool.false_eq_true, if_false, record, Except.toOption,
        offers_body inside admitted]
      cases offered.objects.lookup key with
      | none => exact .inl ⟨_, rfl, rfl⟩
      | some object => exact .inr ⟨object, rfl, rfl, rfl⟩

theorem delete_offers (offers : store.Offers model) (bucket key : Str) :
    (store.deleteObject none bucket key).1 = (model.deleteObject bucket key).1 ∧
      (store.deleteObject none bucket key).2.Offers (model.deleteObject bucket key).2 := by
  unfold Store.deleteObject S3Model.deleteObject
  cases validateBucketName bucket with
  | error e => exact ⟨rfl, offers⟩
  | ok _ =>
  cases admitted : encodeKey key with
  | error e => exact ⟨rfl, offers⟩
  | ok encoded =>
  cases present : store.buckets.lookup bucket with
  | none =>
      simp only [offers_none offers present]
      exact ⟨trivial, offers⟩
  | some old =>
      obtain ⟨offered, found, inside⟩ := offers_some offers present
      obtain ⟨sidecars, kept⟩ := Option.isSome_iff_exists.mp inside.sidecars
      simp only [found]
      by_cases empty : key = []
      · simp only [if_pos empty]
        exact ⟨trivial, offers⟩
      simp only [if_neg empty, offers_body inside admitted]
      cases offered.objects.lookup key with
      | none => exact ⟨rfl, offers⟩
      | some object =>
          simp only [Option.map_some, kept, exceeds, Bool.false_eq_true, if_false]
          exact ⟨trivial, offers_set offers (offers_deleted inside kept admitted)⟩

theorem upload_offers (offers : store.Offers model) (bucket key : Str) (contentType : Option Str)
    (id : Str) :
    (store.createMultipartUpload bucket key contentType id).1 =
        (model.createMultipartUpload bucket key contentType id).1 ∧
      (store.createMultipartUpload bucket key contentType id).2.Offers
        (model.createMultipartUpload bucket key contentType id).2 := by
  unfold Store.createMultipartUpload S3Model.createMultipartUpload
  cases validateBucketName bucket with
  | error e => exact ⟨rfl, offers⟩
  | ok _ =>
  cases present : store.buckets.lookup bucket with
  | none =>
      simp only [offers_none offers present]
      exact ⟨trivial, offers⟩
  | some old =>
      obtain ⟨offered, found, _⟩ := offers_some offers present
      simp only [found]
      exact ⟨trivial, offers_begun offers (offers_new _)⟩

variable (crates) in
theorem part_offers (offers : store.Offers model) (id : Str) (number : Int) (body : Body) :
    (store.uploadPart crates id number body).1 = (model.uploadPart crates id number body).1 ∧
      (store.uploadPart crates id number body).2.Offers (model.uploadPart crates id number body).2 := by
  unfold Store.uploadPart S3Model.uploadPart
  by_cases small : number ≤ 0
  · simp only [if_pos small]
    exact ⟨trivial, offers⟩
  simp only [if_neg small]
  cases live : store.staged.lookup id with
  | none =>
      simp only [offers_ended offers live]
      exact ⟨trivial, offers⟩
  | some upload =>
      obtain ⟨begun, found, inside⟩ := offers_live offers live
      simp only [found]
      cases failure body with
      | some e => exact ⟨rfl, offers⟩
      | none => exact ⟨rfl, offers_begun offers (offers_part inside number _)⟩

theorem abort_offers (offers : store.Offers model) (id : Str) :
    (store.abortMultipartUpload id).1 = (model.abortMultipartUpload id).1 ∧
      (store.abortMultipartUpload id).2.Offers (model.abortMultipartUpload id).2 := by
  unfold Store.abortMultipartUpload S3Model.abortMultipartUpload
  cases live : store.staged.lookup id with
  | none =>
      simp only [offers_ended offers live]
      exact ⟨trivial, offers⟩
  | some upload =>
      obtain ⟨begun, found, _⟩ := offers_live offers live
      simp only [found]
      exact ⟨trivial, offers_over offers⟩

/-- The upload is completed into the bucket and under the key that it was begun for. -/
def S3Model.Orderly (model : S3Model) (bucket key id : Str) : Prop :=
  ∀ upload, model.uploads.lookup id = some upload →
    upload.bucket = bucket ∧ upload.key = key ∧ bucket ∈ model.buckets

variable (crates storage) in
theorem complete_offers (offers : store.Offers model) {bucket id : Str} {key : ObjectKey}
    (orderly : model.Orderly bucket key id) (parts : List Int) (time : Nat) :
    (store.completeMultipartUpload crates storage key id parts time).1 =
        ((model.completeMultipartUpload crates key id parts time).1.mapError fun e =>
          e.placed [] (uploadRecordShown storage id)).map (S3Object.record key) ∧
      (store.completeMultipartUpload crates storage key id parts time).2.Offers
        (model.completeMultipartUpload crates key id parts time).2 := by
  unfold Store.completeMultipartUpload S3Model.completeMultipartUpload
  cases live : store.staged.lookup id with
  | none =>
      simp only [offers_ended offers live]
      exact ⟨rfl, offers⟩
  | some upload =>
  obtain ⟨begun, found, inside⟩ := offers_live offers live
  obtain ⟨own, named, there⟩ := orderly begun found
  have target : upload.record.bucket = bucket := by rw [inside.record, own]
  cases present : store.buckets.lookup upload.record.bucket with
  | none =>
      rw [target] at present
      exact absurd (offers_none offers present) (Finmap.lookup_eq_none.not.mpr (not_not.mpr there))
  | some old =>
  simp only [found, present, Option.getD_some, setBucket_same present]
  rw [target] at present
  obtain ⟨offered, shelf, within⟩ := offers_some offers present
  obtain ⟨sidecars, kept⟩ := Option.isSome_iff_exists.mp within.sidecars
  simp only [inside.record, own, named]
  cases admitted : encodeKey key with
  | error e => exact ⟨by rw [Except.mapError, key_error_placed admitted]; rfl, offers⟩
  | ok encoded =>
  simp only [offers_joined inside]
  cases begun.joined (parts.insertionSort (· ≤ ·)) with
  | none => exact ⟨rfl, offers⟩
  | some bytes =>
      simp only [if_neg key.property, kept, S3Model.setObject, shelf]
      refine ⟨rfl, offers_over (offers_set offers ?_)⟩
      exact offers_stored ⟨bytes, begun.contentType.getD defaultContentType,
        hexMd5 crates bytes ++ '-' :: (toString parts.length).toList, time⟩ within kept admitted

end Calls

/-! ### Pages -/

section Pages
variable {store : Store} {model : S3Model} {bucket : Bucket} {offered : S3Bucket} {name : Str}

/-- Of two keys with the prefix, the lower one has the lower common prefix. -/
theorem collapsed_ascend {prefixStr : Str} {delimiter : Option Str} {low high first second : Str}
    (inLow : prefixStr <+: low) (inHigh : prefixStr <+: high) (above : low < high)
    (left : collapsedPrefix prefixStr delimiter low = some first)
    (right : collapsedPrefix prefixStr delimiter high = some second) : first ≤ second := by
  obtain ⟨lowRest, rfl⟩ := inLow
  obtain ⟨highRest, rfl⟩ := inHigh
  rw [collapsed_eq, List.drop_left, Option.map_eq_some_iff] at left right
  obtain ⟨own, found, rfl⟩ := left
  obtain ⟨other, again, rfl⟩ := right
  cases delimiter with
  | none => cases found
  | some pattern =>
      have atLow := (List.prefix_append_right_inj prefixStr).mpr (Lexical.upTo_begins found)
      have atHigh := (List.prefix_append_right_inj prefixStr).mpr (Lexical.upTo_begins again)
      by_contra higher
      -- Then the second label lies between itself and a key that begins with it.
      have below : prefixStr ++ other ≤ prefixStr ++ lowRest :=
        not_lt.mp fun less => List.IsPrefix.le atLow (less.trans (not_le.mp higher))
      have between := Lexical.prefix_between (List.prefix_refl _) atHigh below above.le
      have same := Lexical.upTo_of_prefix again ((List.prefix_append_right_inj prefixStr).mp between)
      rw [Option.bind_some] at found
      rw [found] at same
      obtain rfl := Option.some.inj same
      exact higher le_rfl

theorem scanned_offered (sound : bucket.Sound name) (inside : bucket.Offers name offered) :
    (Store.scannedKeys bucket).insertionSort (· ≤ ·) = offered.objects.keys.sort (· ≤ ·) := by
  have same : (Store.scannedKeys bucket).Perm (offered.objects.keys.sort (· ≤ ·)) := by
    apply (List.perm_ext_iff_of_nodup (scanned_nodup sound) (Finset.sort_nodup _ _)).mpr
    intro key
    rw [mem_scanned sound, offers_stores inside, Finset.mem_sort, Finmap.mem_keys]
  have reordered := (List.perm_insertionSort (· ≤ ·) _).trans same
  exact reordered.eq_of_pairwise (fun _ _ _ _ => le_antisymm) (List.pairwise_insertionSort _ _)
    (Finset.pairwise_sort _ _)

theorem select_offered (sound : bucket.Sound name) (inside : bucket.Offers name offered)
    (req : ListV2Req) : selectKeys (Store.scannedKeys bucket) req =
      (req.continuationToken.mapM decodeContinuationToken).map (offered.selected req) := by
  have everything : ∀ key : Str, startsWith key [] = true := fun key => by simp [startsWith]
  unfold selectKeys S3Bucket.selected
  rw [scanned_offered sound inside]
  cases req.continuationToken with
  | none => cases req.pfx <;> simp [everything, Except.map, pure, Except.pure, bind, Except.bind]
  | some token =>
      cases decoded : decodeContinuationToken token with
      | error e => simp [decoded, Except.map, bind, Except.bind, Functor.map]
      | ok last =>
          cases req.pfx with
          | none => simp [decoded, everything, Except.map, pure, Except.pure, bind, Except.bind, Functor.map]
          | some pfx =>
              simp [decoded, Except.map, pure, Except.pure, bind, Except.bind, Functor.map, List.filter_filter]

theorem selected_sorted (offered : S3Bucket) (req : ListV2Req) (token : Option Str) :
    (offered.selected req token).Pairwise (· < ·) := by
  apply List.Pairwise.filter
  have ascending : (offered.objects.keys.sort (· ≤ ·)).Pairwise (· ≤ ·) := Finset.pairwise_sort _ _
  exact (ascending.and (Finset.sort_nodup _ _)).imp fun both => lt_of_le_of_ne both.1 both.2

theorem selected_mem {req : ListV2Req} {token : Option Str} {key : Str}
    (member : key ∈ offered.selected req token) : key ∈ offered.objects ∧ req.pfx.getD [] <+: key := by
  obtain ⟨inside, kept⟩ := List.mem_filter.mp member
  rw [Finset.mem_sort, Finmap.mem_keys] at inside
  exact ⟨inside, starts_with_iff.mp (of_decide_eq_true kept).1⟩

/-- The common prefixes of a page come in order. -/
theorem labels_sorted (offered : S3Bucket) (req : ListV2Req) (token : Option Str) (limit : Nat) :
    (((pageEntries req (offered.selected req token)).take limit).filterMap Entry.label).Pairwise
      (· ≤ ·) := by
  have all : ((pageEntries req (offered.selected req token)).filterMap Entry.label).Pairwise (· ≤ ·) := by
    apply labels_ascend (selected_sorted offered req token)
    intro low inLow high inHigh first second above left right
    exact collapsed_ascend (selected_mem inLow).2 (selected_mem inHigh).2 above left right
  exact all.sublist ((List.take_sublist _ _).filterMap _)

theorem records_offered (inside : bucket.Offers name offered) {keys : List Str} {found : List ObjectMeta}
    (records : List.Forall₂ (fun key objectMeta => bucket.recordOf none key = some objectMeta) keys found) :
    found = keys.filterMap fun key => (offered.objects.lookup key).map (S3Object.record key) := by
  induction records with
  | nil => rfl
  | @cons key objectMeta keys found record _ ih =>
      rw [inside.records] at record
      rw [List.filterMap_cons, record, ← ih]

/-- A page of the store is the page of the model, refusals included. -/
theorem page_offers (storage : FsStorage) (sound : store.Sound) (offers : store.Offers model) (name : Str)
    (req : ListV2Req) : store.listObjectsV2 storage none name req = model.page name req := by
  unfold S3Model.page
  cases valid : validateBucketName name with
  | error e => simp [Store.listObjectsV2, valid]
  | ok _ =>
  cases present : store.buckets.lookup name with
  | none =>
      simp only [offers_none offers present]
      simp [Store.listObjectsV2, valid, present]
  | some old =>
  obtain ⟨offered, shelf, inside⟩ := offers_some offers present
  have selected := select_offered (sound.buckets name old present) inside req
  simp only [shelf]
  cases decoded : req.continuationToken.mapM decodeContinuationToken with
  | error e =>
      rw [decoded] at selected
      simp only [Store.listObjectsV2, valid, present, selected]
      rfl
  | ok token =>
      rw [decoded] at selected
      change _ = Except.ok (offered.selected req token) at selected
      have readable : ∀ key ∈ offered.selected req token,
          ∃ objectMeta, old.recordOf none key = some objectMeta := by
        intro key member
        have there := Finmap.lookup_isSome.mpr (selected_mem member).1
        obtain ⟨object, found⟩ := Option.isSome_iff_exists.mp there
        exact ⟨object.record key, by rw [inside.records, found]; rfl⟩
      obtain ⟨page, answered⟩ := list_page_found storage valid present selected readable
      have made := answered
      simp only [Store.listObjectsV2, valid, present, selected] at made
      obtain ⟨⟨objects, prefixes⟩, items, shape⟩ := (except_map_ok _ _ _).mp made
      rw [cap_page_eq] at items
      obtain ⟨records, rfl⟩ := (page_items_iff storage valid present _ objects prefixes).mp items
      obtain rfl := records_offered inside records
      rw [answered, ← shape, cap_page_eq]
      simp only [(labels_sorted offered req token (effectiveMaxKeys req)).insertionSort_eq]
      -- Where there is more, the last entry shown is at the limit.
      by_cases more : effectiveMaxKeys req < (pageEntries req (offered.selected req token)).length
      · have last : ((pageEntries req (offered.selected req token)).take (effectiveMaxKeys req)).getLast? =
            (pageEntries req (offered.selected req token))[effectiveMaxKeys req - 1]? := by
          have positive := max_keys_pos req
          rw [List.getLast?_eq_getElem?, List.length_take, min_eq_left more.le, List.getElem?_take,
            if_pos (by omega)]
        simp only [if_pos more, last]
      · simp only [if_neg more]

end Pages

/-! ### One request -/

section Programs
variable {crates : Crates} {storage : FsStorage} {s t : FS} {store : Store} {model : S3Model}

/-- A refused head is a refused get. -/
theorem wp_getRefused (holds : Holds crates storage s store) {bucket key : Str} {e : StorageError}
    (refused : store.headObject storage s.nameMax bucket key = .error e) (range : Option ByteRange)
    (post : Except StorageError (ObjectMeta × ObjectStream) → FS → Prop) :
    wp faultFree (getObject crates storage bucket key range) post s ↔ post (.error e) s := by
  unfold getObject
  cases valid : validateBucketName bucket with
  | error other =>
      simp only [Store.headObject, valid, Except.error.injEq] at refused
      subst refused
      rfl
  | ok _ =>
  cases admitted : encodeKey key with
  | error other =>
      simp only [Store.headObject, valid, admitted, Except.error.injEq] at refused
      subst refused
      rfl
  | ok encoded =>
      simp only [lift, Prog.ofExcept, Prog.done_bind]
      rw [wp_bind, wp_readSidecar holds valid admitted, refused]

/-- The body of an object is opened, unless the range is refused. -/
theorem wp_getFound (holds : Holds crates storage s store) {bucket key : Str} {objectMeta : ObjectMeta}
    {content : Bytes} (found : store.headObject storage s.nameMax bucket key = .ok objectMeta)
    (body : store.bodyOf bucket key = some content) :
    ∃ inode, s.data inode = content ∧ ∀ range post,
      wp faultFree (getObject crates storage bucket key range) post s ↔
        post (streamOutcome objectMeta inode range) s := by
  cases valid : validateBucketName bucket with
  | error e => simp [Store.headObject, valid] at found
  | ok _ =>
  cases admitted : encodeKey key with
  | error e => simp [Store.headObject, valid, admitted] at found
  | ok encoded =>
  obtain ⟨nonempty, old, _, present, _, _⟩ := head_found holds valid admitted found
  have placed := locate_object_of_key holds valid present admitted nonempty
  have stored : old.objects.lookup encoded = some content := by
    simpa [Store.bodyOf, present, admitted, Except.toOption] using body
  obtain ⟨inode, named, held⟩ := FS.look_file.mp (by rw [look_object holds valid present encoded, stored]; rfl)
  refine ⟨inode, held, ?_⟩
  intro range post
  simp only [getObject, valid, admitted, lift, Prog.ofExcept, Prog.done_bind]
  rw [wp_bind, wp_readSidecar holds valid admitted, found]
  cases range with
  | none =>
      simp only [streamObject, Prog.send_bind, Prog.call_bind, wp_open, FS.open_file placed named]
      exact Iff.rfl
  | some range =>
      simp only [streamOutcome]
      cases range.resolve (UInt64.ofNat objectMeta.size) with
      | none => exact Iff.rfl
      | some resolved =>
          simp only [Prog.send_bind, wp_open, FS.open_file placed named]
          exact Iff.rfl

theorem wp_download (holds : Holds crates storage s store) (unlimited : s.nameMax = none)
    (offers : store.Offers model) (bucket key : Str) (range : Option S3Range) :
    wp faultFree (s3Download crates storage bucket key range) (fun outcome after =>
      outcome.map downloaded = ((model.findObject bucket key).bind fun object =>
        object.download range).mapError mapStorageErr ∧ after = s) s := by
  have found := find_offers storage offers bucket key
  rw [← unlimited] at found
  unfold s3Download s3GetObject
  rw [wp_bind, wp_bind, wp_served]
  rcases found with ⟨e, absent, head⟩ | ⟨object, there, head, body⟩
  · rw [wp_getRefused holds head, absent]
    exact ⟨congrArg Except.error (placed_code _ _ e), rfl⟩
  · obtain ⟨inode, held, opens⟩ := wp_getFound holds head body
    rw [opens, there]
    cases range with
    | none =>
        simp only [Option.map_none, streamOutcome, Except.mapError, Option.bind_none, wp_bind, wp_served,
          wp_ioOp, wp_collect, held, Prog.pure_eq, wp_done, List.drop_zero]
        exact ⟨rfl, trivial⟩
    | some range =>
        simp only [Option.map_some, streamOutcome, S3Object.record, Except.bind, S3Object.download]
        cases window : (s3RangeToByteRange range).resolve (UInt64.ofNat object.bytes.length) with
        | none => exact ⟨rfl, trivial⟩
        | some resolved =>
            simp only [Except.mapError, Option.bind_some, window]
            by_cases shows : resolved.length > 0
            · simp only [if_pos shows, Prog.pure_eq, wp_done, wp_bind, wp_served, wp_ioOp, wp_collect, held,
                Except.mapError]
              exact ⟨rfl, trivial⟩
            · have zero : resolved.length = 0 := by
                apply UInt64.toNat_inj.mp
                have above := UInt64.not_lt.mp shows
                rw [UInt64.le_iff_toNat_le] at above
                simpa using above
              simp only [zero, UInt64.toNat_zero, List.take_zero, if_neg (UInt64.lt_irrefl 0), Prog.pure_eq,
                wp_done, wp_bind, wp_served, wp_ioOp, wp_collect, held, Except.mapError, gt_iff_lt]
              exact ⟨rfl, trivial⟩

/-- What a batch has deleted and refused, and what is left. -/
theorem wp_deleteEach_offers (texts : Texts) (bucket : Str) (quiet : Bool)
    (objects : List ObjectIdentifier) (deleted : List DeletedObject) (errors : List DeleteError)
    (stands : S3Stands crates storage s model) :
    wp faultFree (deleteEach storage texts bucket quiet objects deleted errors) (fun outcome after =>
      outcome = .ok (deleted ++ (S3Model.deleteObjects texts bucket quiet objects model).1.1,
          errors ++ (S3Model.deleteObjects texts bucket quiet objects model).1.2) ∧
        S3Stands crates storage after (S3Model.deleteObjects texts bucket quiet objects model).2) s := by
  induction objects generalizing s model deleted errors with
  | nil =>
      simp only [deleteEach, S3Model.deleteObjects, Prog.pure_eq, wp_done, List.append_nil]
      exact ⟨trivial, stands⟩
  | cons obj rest ih =>
      obtain ⟨unlimited, store, holds, offers⟩ := stands
      obtain ⟨same, next⟩ := delete_offers offers bucket obj.key
      unfold deleteEach
      simp only []
      rw [wp_bind, wp_attempt]
      apply wp_mono (wp_limited (delete_refines holds bucket obj.key))
      rintro outcome middle ⟨⟨rfl, after⟩, limit⟩
      rw [unlimited] at after limit ⊢
      rw [same]
      have later := fun deleted errors => ih deleted errors ⟨limit, _, after, next⟩
      simp only [S3Model.deleteObjects]
      cases (model.deleteObject bucket obj.key).1 with
      | ok _ =>
          have reached := later (if quiet then deleted else deleted ++ [⟨some obj.key⟩]) errors
          cases quiet <;> simpa using reached
      | error e =>
          have missing := later (if quiet then deleted else deleted ++ [⟨some obj.key⟩]) errors
          have reached := later deleted
            (errors ++ [⟨some "InternalError".toList, some obj.key, some (e.text texts)⟩])
          cases e with
          | NoSuchKey key => cases quiet <;> simpa using missing
          | _ => simpa using reached

theorem wp_return {Error Value Result State : Type} {sem : Semantics Call Reply State}
    {call : Prog Call Reply Error Value} {shown : Value → Result} {post : Except Error Result → State → Prop}
    {state : State} : wp sem (call >>= fun value => pure (shown value)) post state ↔
      wp sem call (fun outcome after => post (outcome.map shown) after) state := by
  rw [wp_bind]
  constructor
  · intro holds
    apply wp_mono holds
    rintro (e | value) after satisfied <;> exact satisfied
  · intro holds
    apply wp_mono holds
    rintro (e | value) after satisfied <;> exact satisfied

theorem map_shown {Value Middle Result : Type} (outcome : Except StorageError Value) (inner : Value → Middle)
    (outer : Middle → Result) :
    ((outcome.mapError mapStorageErr).map inner).map outer =
      (outcome.mapError mapStorageErr).map fun value => outer (inner value) := by
  cases outcome <;> rfl

/-- The upload that a request completes belongs to the bucket and the key of the request. -/
def S3Request.Orderly (model : S3Model) : S3Request → Prop
  | .completeMultipartUpload bucket key uploadId _ => model.Orderly bucket key uploadId
  | _ => True

/-- One request: the outcome and the store behind it are the model's, for some choice. -/
def S3Answered (crates : Crates) (storage : FsStorage) (texts : Texts) (model : S3Model)
    (request : S3Request) (outcome : S3Outcome) (after : FS) : Prop :=
  ∃ choice, outcome = (model.respond crates texts choice request).1 ∧
    model.Allows request outcome choice ∧
    S3Stands crates storage after (model.respond crates texts choice request).2

theorem allows_plain {request : S3Request} {outcome : S3Outcome} (choice : S3Choice)
    (other : ∀ bucket key contentType, request ≠ .createMultipartUpload bucket key contentType)
    (unlisted : request ≠ .listBuckets) : model.Allows request outcome choice :=
  ⟨fun bucket key contentType same => absurd same (other bucket key contentType),
    fun same => absurd same unlisted⟩

theorem s3_put (texts : Texts) (stands : S3Stands crates storage s model) (bucket : Str) (key : ObjectKey)
    (body : Option Body) (contentType : Option Str) :
    wp faultFree (s3Handle crates storage texts (.putObject bucket key body contentType))
      (S3Answered crates storage texts model (.putObject bucket key body contentType)) s := by
  cases body with
  | none => exact ⟨⟨0, [], []⟩, rfl, allows_plain _ (by rintro _ _ _ ⟨⟩) (by rintro ⟨⟩), stands⟩
  | some blob =>
      obtain ⟨unlimited, store, holds, offers⟩ := stands
      unfold s3Handle s3PutObject
      rw [wp_return, wp_return, wp_served]
      apply wp_mono (wp_limited (put_refines holds bucket key blob contentType))
      rintro outcome after ⟨⟨time, rfl, still⟩, limit⟩
      rw [unlimited] at still limit ⊢
      obtain ⟨same, next⟩ := put_offers crates offers bucket key blob contentType time
      refine ⟨⟨time, [], []⟩, ?_, allows_plain _ (by rintro _ _ _ ⟨⟩) (by rintro ⟨⟩), limit, _, still, next⟩
      rw [same, map_shown]
      simp only [S3Model.respond, seen]
      cases (model.putObject crates bucket key blob contentType time).1 <;> rfl

theorem s3_get (texts : Texts) (stands : S3Stands crates storage s model) (bucket : Str) (key : ObjectKey)
    (range : Option S3Range) :
    wp faultFree (s3Handle crates storage texts (.getObject bucket key range))
      (S3Answered crates storage texts model (.getObject bucket key range)) s := by
  have kept := stands
  obtain ⟨unlimited, store, holds, offers⟩ := stands
  unfold s3Handle
  rw [wp_return]
  apply wp_mono (wp_download holds unlimited offers bucket key range)
  rintro outcome after ⟨shown, rfl⟩
  refine ⟨⟨0, [], []⟩, ?_, allows_plain _ (by rintro _ _ _ ⟨⟩) (by rintro ⟨⟩), kept⟩
  simp only [S3Model.respond, seen, ← shown]
  cases outcome <;> rfl

theorem s3_head (texts : Texts) (stands : S3Stands crates storage s model) (bucket : Str) (key : ObjectKey) :
    wp faultFree (s3Handle crates storage texts (.headObject bucket key))
      (S3Answered crates storage texts model (.headObject bucket key)) s := by
  have kept := stands
  obtain ⟨unlimited, store, holds, offers⟩ := stands
  unfold s3Handle s3HeadObject
  rw [wp_return, wp_return, wp_served, head_refines holds, unlimited]
  refine ⟨⟨0, [], []⟩, ?_, allows_plain _ (by rintro _ _ _ ⟨⟩) (by rintro ⟨⟩), kept⟩
  simp only [S3Model.respond, seen]
  rcases find_offers storage offers bucket key with
    ⟨e, absent, head⟩ | ⟨object, there, head, _⟩
  · rw [head, absent]
    exact congrArg Except.error (placed_code _ _ e)
  · rw [head, there]
    rfl

theorem s3_delete (texts : Texts) (stands : S3Stands crates storage s model) (bucket : Str)
    (key : ObjectKey) :
    wp faultFree (s3Handle crates storage texts (.deleteObject bucket key))
      (S3Answered crates storage texts model (.deleteObject bucket key)) s := by
  obtain ⟨unlimited, store, holds, offers⟩ := stands
  unfold s3Handle s3DeleteObject
  rw [wp_return, wp_return, wp_served]
  apply wp_mono (wp_limited (delete_refines holds bucket key))
  rintro outcome after ⟨⟨rfl, still⟩, limit⟩
  rw [unlimited] at still limit ⊢
  obtain ⟨same, next⟩ := delete_offers offers bucket key
  refine ⟨⟨0, [], []⟩, ?_, allows_plain _ (by rintro _ _ _ ⟨⟩) (by rintro ⟨⟩), limit, _, still, next⟩
  rw [same, map_shown]
  rfl

theorem s3_batch (texts : Texts) (stands : S3Stands crates storage s model) (bucket : Str)
    (delete : Delete) :
    wp faultFree (s3Handle crates storage texts (.deleteObjects bucket delete))
      (S3Answered crates storage texts model (.deleteObjects bucket delete)) s := by
  unfold s3Handle s3DeleteObjects
  simp only []
  rw [wp_return, wp_return]
  apply wp_mono (wp_deleteEach_offers texts bucket (delete.quiet.getD false) delete.objects [] [] stands)
  rintro outcome after ⟨rfl, next⟩
  exact ⟨⟨0, [], []⟩, rfl, allows_plain _ (by rintro _ _ _ ⟨⟩) (by rintro ⟨⟩), next⟩

theorem s3_create_bucket (texts : Texts) (stands : S3Stands crates storage s model) (bucket : Str) :
    wp faultFree (s3Handle crates storage texts (.createBucket bucket))
      (S3Answered crates storage texts model (.createBucket bucket)) s := by
  obtain ⟨unlimited, store, holds, offers⟩ := stands
  unfold s3Handle s3CreateBucket
  rw [wp_return, wp_return, wp_served]
  apply wp_mono (wp_limited (create_refines holds bucket))
  rintro outcome after ⟨⟨time, rfl, still, _⟩, limit⟩
  obtain ⟨same, next⟩ := create_offers offers bucket time
  refine ⟨⟨time, [], []⟩, ?_, allows_plain _ (by rintro _ _ _ ⟨⟩) (by rintro ⟨⟩), limit.trans unlimited, _,
    still, next⟩
  rw [same, map_shown]
  rfl

theorem s3_delete_bucket (texts : Texts) (stands : S3Stands crates storage s model) (bucket : Str) :
    wp faultFree (s3Handle crates storage texts (.deleteBucket bucket))
      (S3Answered crates storage texts model (.deleteBucket bucket)) s := by
  obtain ⟨unlimited, store, holds, offers⟩ := stands
  unfold s3Handle s3DeleteBucket
  rw [wp_return, wp_return, wp_served]
  apply wp_mono (wp_limited (delete_bucket_refines holds (offers_paired holds.sound offers) bucket))
  rintro outcome after ⟨⟨rfl, still⟩, limit⟩
  obtain ⟨same, next⟩ := delete_bucket_offers holds.sound offers bucket
  refine ⟨⟨0, [], []⟩, ?_, allows_plain _ (by rintro _ _ _ ⟨⟩) (by rintro ⟨⟩), limit.trans unlimited, _,
    still, next⟩
  rw [same, map_shown]
  rfl

/-- The records of the buckets, in the order of the directory. -/
theorem infos_offered (offers : store.Offers model) (order : List Str) :
    (store.bucketInfos order).map (fun info => (⟨some info.name, some info.createdAt⟩ : S3ListedBucket)) =
      model.listedBuckets order := by
  unfold Store.bucketInfos S3Model.listedBuckets
  induction order with
  | nil => rfl
  | cons name rest ih =>
      cases present : store.buckets.lookup name with
      | none =>
          have absent := offers_none offers present
          simp [present, absent, ih]
      | some bucket =>
          obtain ⟨offered, found, inside⟩ := offers_some offers present
          simp [present, found, inside.info, ih]

theorem info_offered (offers : store.Offers model) {order : List Str}
    (covers : ∀ name, store.buckets.lookup name ≠ none → name ∈ order) (bucket : Str) :
    ((store.bucketInfos order).any fun info => decide (info.name = bucket)) = true ↔
      bucket ∈ model.buckets := by
  unfold Store.bucketInfos
  simp only [List.any_eq_true, List.mem_filterMap, decide_eq_true_eq]
  constructor
  · rintro ⟨info, ⟨name, _, found⟩, rfl⟩
    obtain ⟨old, present, recorded⟩ := Option.bind_eq_some_iff.mp found
    obtain ⟨offered, there, inside⟩ := offers_some offers present
    rw [inside.info] at recorded
    obtain rfl := Option.some.inj recorded
    exact Finmap.lookup_isSome.mp (by rw [there]; rfl)
  · intro member
    cases present : store.buckets.lookup bucket with
    | none => exact absurd member (Finmap.lookup_eq_none.mp (offers_none offers present))
    | some old =>
        obtain ⟨offered, _, inside⟩ := offers_some offers present
        refine ⟨⟨bucket, offered.creationDate⟩, ⟨bucket, covers bucket (by simp [present]), ?_⟩, rfl⟩
        rw [present]
        exact inside.info

/-- A run of a call whose value is only shown is a run of the call. -/
theorem runs_return {Error Value Result : Type} {call : Prog Call Reply Error Value}
    {shown : Value → Result} {outcome : Except Error Result}
    (run : Runs faultFree (call >>= fun value => pure (shown value)) s outcome t) :
    ∃ answered, outcome = answered.map shown ∧ Runs faultFree call s answered t := by
  rcases runs_bind run with ⟨value, middle, first, last⟩ | ⟨error, rfl, first⟩
  · cases last
    exact ⟨.ok value, rfl, first⟩
  · exact ⟨.error error, rfl, first⟩

theorem runs_served {Value : Type} {call : Op Value} {outcome : Except S3Error Value}
    (run : Runs faultFree (served call) s outcome t) :
    ∃ answered, outcome = answered.mapError mapStorageErr ∧ Runs faultFree call s answered t := by
  rcases runs_bind run with ⟨answered, middle, first, last⟩ | ⟨error, rfl, first⟩
  · obtain ⟨own, same, called⟩ := runs_attempt first
    obtain rfl := Except.ok.inj same
    cases answered with
    | error e =>
        cases last
        exact ⟨.error e, rfl, called⟩
    | ok value =>
        cases last
        exact ⟨.ok value, rfl, called⟩
  · obtain ⟨own, impossible, _⟩ := runs_attempt first
    cases impossible

/-- The directory's order, without what is no bucket, is an order of the buckets. -/
theorem offered_order (offers : store.Offers model) {order : List Str} (distinct : order.Nodup)
    (covers : ∀ name, store.buckets.lookup name ≠ none → name ∈ order) :
    ((order.filter fun name => (model.buckets.lookup name).isSome : List Str) : Multiset Str) =
      model.buckets.keys.val := by
  apply (Multiset.Nodup.ext (Multiset.coe_nodup.mpr (distinct.filter _)) model.buckets.keys.nodup).mpr
  intro name
  rw [Multiset.mem_coe, List.mem_filter, Finset.mem_val, Finmap.mem_keys, Finmap.lookup_isSome]
  constructor
  · exact And.right
  · intro member
    refine ⟨covers name ?_, member⟩
    intro absent
    exact Finmap.lookup_eq_none.mp (offers_none offers absent) member

theorem s3_list_buckets (texts : Texts) (stands : S3Stands crates storage s model) :
    wp faultFree (s3Handle crates storage texts .listBuckets)
      (S3Answered crates storage texts model .listBuckets) s := by
  have kept := stands
  obtain ⟨unlimited, store, holds, offers⟩ := stands
  unfold s3Handle s3ListBuckets
  rw [wp_return, wp_return, wp_served]
  apply wp_mono (list_buckets_refines holds)
  rintro outcome after ⟨rfl, order, distinct, covers, rfl⟩
  -- Names that are no buckets do not show.
  have shown : model.listedBuckets (order.filter fun name => (model.buckets.lookup name).isSome) =
      model.listedBuckets order := by
    unfold S3Model.listedBuckets
    rw [List.filterMap_filter]
    congr 1
    funext name
    cases model.buckets.lookup name <;> rfl
  refine ⟨⟨0, [], order.filter fun name => (model.buckets.lookup name).isSome⟩, ?_, ⟨by rintro _ _ _ ⟨⟩, ?_⟩,
    kept⟩
  · simp only [S3Model.respond, shown, ← infos_offered offers]
    rfl
  · exact fun _ => offered_order offers distinct covers

theorem s3_head_bucket (texts : Texts) (stands : S3Stands crates storage s model) (bucket : Str) :
    wp faultFree (s3Handle crates storage texts (.headBucket bucket))
      (S3Answered crates storage texts model (.headBucket bucket)) s := by
  have kept := stands
  obtain ⟨unlimited, store, holds, offers⟩ := stands
  unfold s3Handle s3HeadBucket headBucket
  rw [wp_return, wp_return, wp_bind, wp_served]
  apply wp_mono (list_buckets_refines holds)
  rintro outcome after ⟨rfl, order, distinct, covers, rfl⟩
  have there : ((store.bucketInfos order).any fun info => decide (info.name = bucket)) = true ↔
      bucket ∈ model.buckets := info_offered offers covers bucket
  simp only [Except.mapError]
  by_cases found : bucket ∈ model.buckets
  · rw [if_pos (there.mpr found)]
    refine ⟨⟨0, [], []⟩, ?_, allows_plain _ (by rintro _ _ _ ⟨⟩) (by rintro ⟨⟩), kept⟩
    simp only [S3Model.respond, if_pos found]
    rfl
  · rw [if_neg (there.not.mpr found)]
    refine ⟨⟨0, [], []⟩, ?_, allows_plain _ (by rintro _ _ _ ⟨⟩) (by rintro ⟨⟩), kept⟩
    simp only [S3Model.respond, if_neg found]
    rfl

theorem s3_begin (texts : Texts) (stands : S3Stands crates storage s model) (bucket : Str) (key : ObjectKey)
    (contentType : Option Str) {outcome : S3Outcome}
    (run : Runs faultFree (s3Handle crates storage texts (.createMultipartUpload bucket key contentType)) s
      outcome t) :
    S3Answered crates storage texts model (.createMultipartUpload bucket key contentType) outcome t := by
  obtain ⟨unlimited, store, holds, offers⟩ := stands
  unfold s3Handle s3CreateMultipartUpload at run
  obtain ⟨response, rfl, called⟩ := runs_return run
  obtain ⟨uploadId, rfl, inner⟩ := runs_return called
  obtain ⟨drawn, rfl, first⟩ := runs_served inner
  obtain ⟨id, fresh, rfl, still⟩ := create_upload_run holds first
  obtain ⟨same, next⟩ := upload_offers offers bucket key contentType id
  refine ⟨⟨0, id, []⟩, ?_, ⟨?_, by rintro ⟨⟩⟩, (runs_continue first).limit.trans unlimited, _, still, next⟩
  · rw [same, map_shown]
    rfl
  · rintro _ _ _ ⟨⟩ succeeded
    have ok : (store.createMultipartUpload bucket key contentType id).1.isOk = true := by
      cases made : (store.createMultipartUpload bucket key contentType id).1 with
      | error e => simp [made, Except.mapError, Except.map, Except.isOk, Except.toBool] at succeeded
      | ok made => rfl
    obtain ⟨uuid, new⟩ := fresh ok
    exact ⟨uuid, Finmap.lookup_eq_none.mp (offers_ended offers (unissued_dead holds new))⟩

theorem s3_part (texts : Texts) (stands : S3Stands crates storage s model) (bucket : Str)
    (uploadId : UploadId) (partNumber : Int32) (body : Option Body) :
    wp faultFree (s3Handle crates storage texts (.uploadPart bucket uploadId partNumber body))
      (S3Answered crates storage texts model (.uploadPart bucket uploadId partNumber body)) s := by
  cases body with
  | none => exact ⟨⟨0, [], []⟩, rfl, allows_plain _ (by rintro _ _ _ ⟨⟩) (by rintro ⟨⟩), stands⟩
  | some blob =>
      obtain ⟨unlimited, store, holds, offers⟩ := stands
      unfold s3Handle s3UploadPart
      rw [wp_return, wp_return, wp_served]
      apply wp_mono (wp_limited (part_refines holds unlimited bucket uploadId.property partNumber.toInt blob))
      rintro outcome after ⟨⟨rfl, still⟩, limit⟩
      obtain ⟨same, next⟩ := part_offers crates offers uploadId partNumber.toInt blob
      refine ⟨⟨0, [], []⟩, ?_, allows_plain _ (by rintro _ _ _ ⟨⟩) (by rintro ⟨⟩), limit.trans unlimited, _,
        still, next⟩
      rw [same, map_shown]
      rfl

theorem s3_complete (texts : Texts) (stands : S3Stands crates storage s model) (bucket : Str)
    (key : ObjectKey) (uploadId : UploadId) (multipartUpload : Option CompletedMultipartUpload)
    (orderly : model.Orderly bucket key uploadId) :
    wp faultFree (s3Handle crates storage texts (.completeMultipartUpload bucket key uploadId multipartUpload))
      (S3Answered crates storage texts model
        (.completeMultipartUpload bucket key uploadId multipartUpload)) s := by
  obtain ⟨unlimited, store, holds, offers⟩ := stands
  unfold s3Handle s3CompleteMultipartUpload
  simp only []
  rw [wp_return, wp_return, wp_served]
  apply wp_mono (wp_limited (complete_refines holds unlimited bucket key uploadId.property
    ((requestedParts multipartUpload).map Int32.toInt)))
  rintro outcome after ⟨⟨time, rfl, still⟩, limit⟩
  obtain ⟨same, next⟩ := complete_offers crates storage offers orderly
    ((requestedParts multipartUpload).map Int32.toInt) time
  refine ⟨⟨time, [], []⟩, ?_, allows_plain _ (by rintro _ _ _ ⟨⟩) (by rintro ⟨⟩), limit.trans unlimited, _,
    still, next⟩
  rw [same]
  simp only [S3Model.respond, seen]
  cases (model.completeMultipartUpload crates key uploadId ((requestedParts multipartUpload).map Int32.toInt)
      time).1 with
  | ok object => rfl
  | error e => exact congrArg Except.error (placed_code _ _ e)

theorem s3_abort (texts : Texts) (stands : S3Stands crates storage s model) (bucket : Str)
    (uploadId : UploadId) :
    wp faultFree (s3Handle crates storage texts (.abortMultipartUpload bucket uploadId))
      (S3Answered crates storage texts model (.abortMultipartUpload bucket uploadId)) s := by
  obtain ⟨unlimited, store, holds, offers⟩ := stands
  unfold s3Handle s3AbortMultipartUpload
  rw [wp_return, wp_return, wp_served]
  apply wp_mono (wp_limited (abort_refines holds bucket uploadId.property))
  rintro outcome after ⟨⟨rfl, still⟩, limit⟩
  obtain ⟨same, next⟩ := abort_offers offers uploadId
  refine ⟨⟨0, [], []⟩, ?_, allows_plain _ (by rintro _ _ _ ⟨⟩) (by rintro ⟨⟩), limit.trans unlimited, _,
    still, next⟩
  rw [same, map_shown]
  rfl

theorem s3_list (texts : Texts) (stands : S3Stands crates storage s model) (input : ListObjectsV2Input) :
    wp faultFree (s3Handle crates storage texts (.listObjectsV2 input))
      (S3Answered crates storage texts model (.listObjectsV2 input)) s := by
  have kept := stands
  obtain ⟨unlimited, store, holds, offers⟩ := stands
  unfold s3Handle s3ListObjectsV2
  rw [wp_return, wp_return, wp_served]
  apply list_refines holds
  refine ⟨⟨0, [], []⟩, ?_, allows_plain _ (by rintro _ _ _ ⟨⟩) (by rintro ⟨⟩), kept⟩
  rw [unlimited, page_offers storage holds.sound offers, map_shown]
  rfl

end Programs

/-- One request of any kind. -/
theorem s3_step {crates : Crates} {storage : FsStorage} {texts : Texts} {s t : FS} {model : S3Model}
    (stands : S3Stands crates storage s model) {request : S3Request} {outcome : S3Outcome}
    (orderly : request.Orderly model)
    (run : Runs faultFree (s3Handle crates storage texts request) s outcome t) :
    S3Answered crates storage texts model request outcome t := by
  cases request with
  | putObject bucket key body contentType => exact wp_runs (s3_put texts stands bucket key body contentType) run
  | getObject bucket key range => exact wp_runs (s3_get texts stands bucket key range) run
  | headObject bucket key => exact wp_runs (s3_head texts stands bucket key) run
  | deleteObject bucket key => exact wp_runs (s3_delete texts stands bucket key) run
  | deleteObjects bucket delete => exact wp_runs (s3_batch texts stands bucket delete) run
  | createBucket bucket => exact wp_runs (s3_create_bucket texts stands bucket) run
  | deleteBucket bucket => exact wp_runs (s3_delete_bucket texts stands bucket) run
  | listBuckets => exact wp_runs (s3_list_buckets texts stands) run
  | headBucket bucket => exact wp_runs (s3_head_bucket texts stands bucket) run
  | createMultipartUpload bucket key contentType => exact s3_begin texts stands bucket key contentType run
  | uploadPart bucket uploadId partNumber body =>
      exact wp_runs (s3_part texts stands bucket uploadId partNumber body) run
  | completeMultipartUpload bucket key uploadId multipartUpload =>
      exact wp_runs (s3_complete texts stands bucket key uploadId multipartUpload orderly) run
  | abortMultipartUpload bucket uploadId => exact wp_runs (s3_abort texts stands bucket uploadId) run
  | listObjectsV2 input => exact wp_runs (s3_list texts stands input) run

end Ferrobucket
