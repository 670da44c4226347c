import Ferrobucket.Abstract
/-! The programs of the storage refine the operations on stores: run on a file system
that holds a store, each one answers what the operation on the store answers and
leaves a file system that holds the store the operation leaves. -/
namespace Ferrobucket
open Text Posix Program

section Locating
variable {crates : Crates} {storage : FsStorage} {s : FS} {store : Store}

theorem look_root (holds : Holds crates storage s store) :
    s.look storage.dataRoot = some .dir := by
  have seen := congrFun holds.seen []
  simpa [under, Store.view] using seen

theorem fits_limit {part : Str} (limit : s.nameMax = none ∨ s.nameMax = some 255)
    (short : utf8Len part ≤ 255) : s.tooLong part = false := by
  rcases limit with unlimited | limited
  · simp [FS.tooLong, unlimited, exceeds]
  · simp [FS.tooLong, limited, exceeds, short]

theorem fits (holds : Holds crates storage s store) {name : Str} (short : utf8Len name ≤ 255) :
    s.tooLong name = false :=
  fits_limit holds.limit short

theorem locate_root (storage : FsStorage) (s : FS) :
    s.locate storage.rootPath = .ok storage.dataRoot := rfl

theorem locate_bucket (holds : Holds crates storage s store) {bucket : Str}
    (valid : validateBucketName bucket = .ok ()) :
    s.locate (storage.bucketPath bucket) = .ok (bucket :: storage.dataRoot) := by
  have short : utf8Len bucket ≤ 255 := le_trans (bucket_name_facts valid).2.1 (by decide)
  exact FS.locate_name (locate_root storage s) (look_root holds) (bucket_is_name valid)
    (fits holds short)

/-- A name in a bucket directory, which may be all that is left of the bucket. -/
theorem locate_in_bucket {bucket : Str} (part : Str) (valid : validateBucketName bucket = .ok ())
    (root : s.look storage.dataRoot = some .dir)
    (inside : s.look (bucket :: storage.dataRoot) = some .dir)
    (limit : s.nameMax = none ∨ s.nameMax = some 255) (good : isName part = true)
    (short : utf8Len part ≤ 255) :
    s.locate ((storage.bucketPath bucket).join part) =
      .ok (part :: bucket :: storage.dataRoot) := by
  have length : utf8Len bucket ≤ 255 := le_trans (bucket_name_facts valid).2.1 (by decide)
  have located := FS.locate_name (locate_root storage s) root (bucket_is_name valid)
    (fits_limit limit length)
  exact FS.locate_name located inside good (fits_limit limit short)

theorem look_below (holds : Holds crates storage s store) {bucket : Str}
    (valid : validateBucketName bucket = .ok ()) (inner : List Str) :
    s.look (inner.reverse ++ bucket :: storage.dataRoot) =
      (store.buckets.lookup bucket).bind fun found => found.view crates inner := by
  have seen := congrFun holds.seen (bucket :: inner)
  rw [view_bucket (bucket_not_uploads valid)] at seen
  simpa [under] using seen

theorem look_bucket (holds : Holds crates storage s store) {bucket : Str}
    (valid : validateBucketName bucket = .ok ()) :
    s.look (bucket :: storage.dataRoot) = (store.buckets.lookup bucket).map fun _ => .dir := by
  have seen := look_below holds valid []
  cases found : store.buckets.lookup bucket <;> simpa [found, Bucket.view] using seen

section Present
variable {bucket : Str} {found : Bucket}

theorem look_objects (holds : Holds crates storage s store)
    (valid : validateBucketName bucket = .ok ())
    (present : store.buckets.lookup bucket = some found) :
    s.look (objectsName :: bucket :: storage.dataRoot) = some .dir := by
  have seen := look_below holds valid [objectsName]
  simpa [present, Bucket.view] using seen

theorem look_object (holds : Holds crates storage s store)
    (valid : validateBucketName bucket = .ok ())
    (present : store.buckets.lookup bucket = some found) (n : Str) :
    s.look (n :: objectsName :: bucket :: storage.dataRoot) =
      (found.objects.lookup n).map .file := by
  have seen := look_below holds valid [objectsName, n]
  simpa [present, Bucket.view] using seen

theorem look_meta (holds : Holds crates storage s store)
    (valid : validateBucketName bucket = .ok ())
    (present : store.buckets.lookup bucket = some found) :
    s.look (metaName :: bucket :: storage.dataRoot) = found.sidecars.map fun _ => .dir := by
  have seen := look_below holds valid [metaName]
  simpa [present, Bucket.view] using seen

theorem look_sidecar (holds : Holds crates storage s store)
    (valid : validateBucketName bucket = .ok ())
    (present : store.buckets.lookup bucket = some found) (n : Str) :
    s.look (n :: metaName :: bucket :: storage.dataRoot) =
      (found.sidecars.bind fun sidecars => sidecars.lookup n).map fun objectMeta =>
        .file (crates.objectMeta.encode objectMeta) := by
  have seen := look_below holds valid [metaName, n]
  simpa [present, Bucket.view] using seen

theorem locate_objects (holds : Holds crates storage s store)
    (valid : validateBucketName bucket = .ok ())
    (present : store.buckets.lookup bucket = some found) :
    s.locate (storage.objectsDir bucket) = .ok (objectsName :: bucket :: storage.dataRoot) := by
  have inside : s.look (bucket :: storage.dataRoot) = some .dir := by
    simp [look_bucket holds valid, present]
  exact FS.locate_name (locate_bucket holds valid) inside (by decide) (fits holds (by decide))

theorem locate_meta (holds : Holds crates storage s store)
    (valid : validateBucketName bucket = .ok ())
    (present : store.buckets.lookup bucket = some found) :
    s.locate (storage.metaDir bucket) = .ok (metaName :: bucket :: storage.dataRoot) := by
  have inside : s.look (bucket :: storage.dataRoot) = some .dir := by
    simp [look_bucket holds valid, present]
  exact FS.locate_name (locate_bucket holds valid) inside (by decide) (fits holds (by decide))

theorem roomy_objects (holds : Holds crates storage s store)
    (valid : validateBucketName bucket = .ok ())
    (present : store.buckets.lookup bucket = some found) :
    Roomy s (storage.objectsDir bucket) (objectsName :: bucket :: storage.dataRoot) := by
  refine ⟨locate_objects holds valid present, look_objects holds valid present, ?_, ?_⟩
  · intro name temp
    exact fits holds (by simp [temp_length temp])
  · intro name temp
    rw [look_object holds valid present]
    cases taken : found.objects.lookup name with
    | none => rfl
    | some body =>
        have object := ((holds.sound.buckets bucket found present).objects name body taken)
        exact absurd (temp_head temp) (object_head object)

theorem roomy_meta (holds : Holds crates storage s store)
    (valid : validateBucketName bucket = .ok ())
    (present : store.buckets.lookup bucket = some found) {sidecars : Names ObjectMeta}
    (kept : found.sidecars = some sidecars) :
    Roomy s (storage.metaDir bucket) (metaName :: bucket :: storage.dataRoot) := by
  refine ⟨locate_meta holds valid present, by simp [look_meta holds valid present, kept], ?_, ?_⟩
  · intro name temp
    exact fits holds (by simp [temp_length temp])
  · intro name temp
    rw [look_sidecar holds valid present, kept]
    cases taken : sidecars.lookup name with
    | none => simp [taken]
    | some objectMeta =>
        have sound := holds.sound.buckets bucket found present
        obtain ⟨encoded, object, rfl⟩ := sound.sidecars sidecars name objectMeta kept taken
        exact absurd (temp_head temp) (sidecar_head object)

end Present

section Absent
variable {bucket : Str}

theorem lost_objects (holds : Holds crates storage s store)
    (valid : validateBucketName bucket = .ok ()) (absent : store.buckets.lookup bucket = none) :
    s.locate (storage.objectsDir bucket) = .error .ENOENT := by
  have gone : s.look (bucket :: storage.dataRoot) = none := by
    simp [look_bucket holds valid, absent]
  exact FS.locate_name_absent (locate_bucket holds valid) gone (by decide)

theorem lost_meta (holds : Holds crates storage s store)
    (valid : validateBucketName bucket = .ok ()) (absent : store.buckets.lookup bucket = none) :
    s.locate (storage.metaDir bucket) = .error .ENOENT := by
  have gone : s.look (bucket :: storage.dataRoot) = none := by
    simp [look_bucket holds valid, absent]
  exact FS.locate_name_absent (locate_bucket holds valid) gone (by decide)

end Absent
end Locating

/-! ### Keeping the relation -/

section Keeping
variable {crates : Crates} {storage : FsStorage} {s after : FS} {store : Store}

/-- A tree that was restored still holds the store. -/
theorem holds_same (holds : Holds crates storage s store) (same : Becomes s s.look after) :
    Holds crates storage after store := by
  refine ⟨?_, holds.sound, ?_, ?_⟩
  · rw [same.look]
    exact holds.seen
  · rw [same.limit]
    exact holds.limit
  · rw [same.issued]
    exact holds.issued

theorem sound_setBucket {name : Str} {bucket : Bucket} (sound : store.Sound)
    (good : bucket.Sound name) : (store.setBucket name bucket).Sound := by
  refine ⟨?_, sound.uploads⟩
  intro other found present
  by_cases same : other = name
  · subst same
    have equal : bucket = found := by simpa [Store.setBucket] using present
    exact equal ▸ good
  · have old : store.buckets.lookup other = some found := by
      simpa [Store.setBucket, Finmap.lookup_insert_of_ne _ same] using present
    exact sound.buckets other found old

/-- One path of a bucket changed, in the file system and in the store alike. -/
theorem holds_change {name : Str} {old new : Bucket} {inner : List Str} {entry : Option FS.Entry}
    (holds : Holds crates storage s store) (present : store.buckets.lookup name = some old)
    (changed : new.view crates = Function.update (old.view crates) inner entry)
    (good : new.Sound name)
    (becomes : Becomes s
      (Function.update s.look (inner.reverse ++ name :: storage.dataRoot) entry) after) :
    Holds crates storage after (store.setBucket name new) := by
  refine ⟨?_, sound_setBucket holds.sound good, ?_, ?_⟩
  · have place : inner.reverse ++ name :: storage.dataRoot =
        (name :: inner).reverse ++ storage.dataRoot := by simp
    rw [becomes.look, place, under_update, holds.seen,
      view_change_bucket (bucket_not_uploads good.valid) present changed]
  · rw [becomes.limit]
    exact holds.limit
  · rw [becomes.issued]
    exact holds.issued

theorem sound_insert_object {name n : Str} {bucket : Bucket} (body : Bytes)
    (sound : bucket.Sound name) (object : IsObjectName n) :
    Bucket.Sound name { bucket with objects := bucket.objects.insert n body } := by
  refine ⟨sound.valid, sound.named, ?_, sound.sidecars⟩
  intro other content present
  by_cases same : other = n
  · exact same ▸ object
  · rw [Finmap.lookup_insert_of_ne _ same] at present
    exact sound.objects other content present

theorem sound_erase_object {name : Str} {bucket : Bucket} (n : Str) (sound : bucket.Sound name) :
    Bucket.Sound name { bucket with objects := bucket.objects.erase n } := by
  refine ⟨sound.valid, sound.named, ?_, sound.sidecars⟩
  intro other content present
  by_cases same : other = n
  · subst same
    simp at present
  · rw [Finmap.lookup_erase_ne same] at present
    exact sound.objects other content present

theorem sound_insert_sidecar {name n : Str} {bucket : Bucket} {sidecars : Names ObjectMeta}
    (objectMeta : ObjectMeta) (sound : bucket.Sound name) (kept : bucket.sidecars = some sidecars)
    (object : IsObjectName n) :
    Bucket.Sound name
      { bucket with sidecars := some (sidecars.insert (FsStorage.sidecarName n) objectMeta) } := by
  refine ⟨sound.valid, sound.named, sound.objects, ?_⟩
  intro inserted file found same present
  cases same
  by_cases this : file = FsStorage.sidecarName n
  · exact ⟨n, object, this⟩
  · rw [Finmap.lookup_insert_of_ne _ this] at present
    exact sound.sidecars sidecars file found kept present

theorem sound_erase_sidecar {name : Str} {bucket : Bucket} {sidecars : Names ObjectMeta} (n : Str)
    (sound : bucket.Sound name) (kept : bucket.sidecars = some sidecars) :
    Bucket.Sound name { bucket with sidecars := some (sidecars.erase n) } := by
  refine ⟨sound.valid, sound.named, sound.objects, ?_⟩
  intro erased file found same present
  cases same
  by_cases this : file = n
  · subst this
    simp at present
  · rw [Finmap.lookup_erase_ne this] at present
    exact sound.sidecars sidecars file found kept present

end Keeping

/-! ### Objects -/

section Objects
variable {crates : Crates} {storage : FsStorage} {s : FS} {store : Store}

theorem locate_object_of_key (holds : Holds crates storage s store) {bucket key encoded : Str}
    {found : Bucket} (valid : validateBucketName bucket = .ok ())
    (present : store.buckets.lookup bucket = some found) (admitted : encodeKey key = .ok encoded)
    (nonempty : key ≠ []) :
    s.locate (storage.objectPath bucket encoded) =
      .ok (encoded :: objectsName :: bucket :: storage.dataRoot) := by
  have object : IsObjectName encoded := ⟨key, nonempty, admitted⟩
  exact FS.locate_name (locate_objects holds valid present) (look_objects holds valid present)
    (object_is_name object) (fits holds (object_name_parts object).2.2)

/-- The empty key leads to the directory itself. -/
theorem locate_empty_key (holds : Holds crates storage s store) {bucket : Str} {found : Bucket}
    (valid : validateBucketName bucket = .ok ())
    (present : store.buckets.lookup bucket = some found) :
    s.locate ((storage.objectsDir bucket).join []) =
      .ok (objectsName :: bucket :: storage.dataRoot) := by
  rw [FS.locate_part _ List.not_mem_nil List.not_mem_nil, locate_objects holds valid present]
  exact FS.walk_stay [] (look_objects holds valid present)

theorem sidecar_not_dir (holds : Holds crates storage s store) {bucket : Str} {found : Bucket}
    (valid : validateBucketName bucket = .ok ())
    (present : store.buckets.lookup bucket = some found) (n : Str) :
    s.look (n :: metaName :: bucket :: storage.dataRoot) ≠ some .dir := by
  rw [look_sidecar holds valid present]
  cases found.sidecars.bind fun sidecars => sidecars.lookup n <;> simp

theorem object_not_dir (holds : Holds crates storage s store) {bucket : Str} {found : Bucket}
    (valid : validateBucketName bucket = .ok ())
    (present : store.buckets.lookup bucket = some found) (n : Str) :
    s.look (n :: objectsName :: bucket :: storage.dataRoot) ≠ some .dir := by
  rw [look_object holds valid present]
  cases found.objects.lookup n <;> simp

theorem wp_writeSidecar (holds : Holds crates storage s store) {bucket key encoded : Str}
    {found : Bucket} {objectMeta : ObjectMeta} {post : Except StorageError Unit → FS → Prop}
    (valid : validateBucketName bucket = .ok ())
    (present : store.buckets.lookup bucket = some found) (admitted : encodeKey key = .ok encoded)
    (nonempty : key ≠ [])
    (lost : found.sidecars = none → post (.error (.Io (.os .ENOENT))) s)
    (refused : ∀ sidecars after, found.sidecars = some sidecars →
      exceeds s.nameMax (FsStorage.sidecarName encoded) = true → Holds crates storage after store →
      post (.error (.Io (.os .ENAMETOOLONG))) after)
    (written : ∀ sidecars after, found.sidecars = some sidecars →
      exceeds s.nameMax (FsStorage.sidecarName encoded) = false →
      Holds crates storage after (store.setBucket bucket { found with
        sidecars := some (sidecars.insert (FsStorage.sidecarName encoded) objectMeta) }) →
      post (.ok ()) after) :
    wp faultFree (writeSidecar crates (storage.metaPath bucket encoded) objectMeta) post s := by
  have good := encoded_sidecar_is_name admitted
  cases kept : found.sidecars with
  | none =>
      have gone : s.look (metaName :: bucket :: storage.dataRoot) = none := by
        simp [look_meta holds valid present, kept]
      exact wp_writeJson_absent (locate_meta holds valid present) gone good (lost kept)
  | some sidecars =>
      have roomy := roomy_meta holds valid present kept
      apply wp_writeJson roomy good (sidecar_not_dir holds valid present _)
      · intro after long same
        exact refused sidecars after kept long (holds_same holds same)
      · intro after short becomes
        have sound := holds.sound.buckets bucket found present
        have object : IsObjectName encoded := ⟨key, nonempty, admitted⟩
        have both := sound_insert_sidecar objectMeta sound kept object
        have changed := view_insert_sidecar crates found (FsStorage.sidecarName encoded) objectMeta kept
        exact written sidecars after kept short (holds_change holds present changed both becomes)

theorem put_refines (holds : Holds crates storage s store) (bucket key : Str) (body : Body)
    (contentType : Option Str) :
    wp faultFree (putObject crates storage bucket key body contentType) (fun outcome after =>
      ∃ time,
        outcome = (store.putObject crates s.nameMax bucket key body contentType time).1 ∧
        Holds crates storage after
          (store.putObject crates s.nameMax bucket key body contentType time).2) s := by
  unfold putObject Store.putObject
  rw [wp_bind, wp_lift]
  cases valid : validateBucketName bucket with
  | error e => exact ⟨0, rfl, holds⟩
  | ok _ =>
  simp only [Prog.send_bind, wp_exists, FS.exists_located (locate_bucket holds valid),
    look_bucket holds valid]
  cases present : store.buckets.lookup bucket with
  | none => exact ⟨0, rfl, holds⟩
  | some old =>
  simp only [Option.map_some, Option.isSome_some, Bool.not_true, Bool.false_eq_true, if_false]
  rw [wp_bind, wp_lift]
  cases admitted : encodeKey key with
  | error e => exact ⟨0, rfl, holds⟩
  | ok encoded =>
  simp only []
  rw [wp_bind]
  have roomy := roomy_objects holds valid present
  have directory := look_objects holds valid present
  by_cases empty : key = []
  · -- The empty key encodes to nothing: the rename hits the directory and is refused.
    subst empty
    obtain rfl : encoded = [] := (encoded_nil admitted).mpr rfl
    apply wp_writeObjectBody roomy (locate_empty_key holds valid present)
    · intro e after broken same
      simp only [broken]
      exact ⟨0, trivial, holds_same holds same⟩
    · intro after whole _ same
      simp only [whole]
      exact ⟨0, rfl, holds_same holds same⟩
    · intro after _ free
      exact absurd directory free
  · have object : IsObjectName encoded := ⟨key, empty, admitted⟩
    have sound := holds.sound.buckets bucket old present
    apply wp_writeObjectBody roomy (locate_object_of_key holds valid present admitted empty)
    · intro e after broken same
      simp only [broken]
      exact ⟨0, trivial, holds_same holds same⟩
    · intro after _ inside
      exact absurd inside (object_not_dir holds valid present encoded)
    · intro after whole _ becomes
      simp only [whole, if_neg empty]
      have stored := sound_insert_object (delivered body) sound object
      have body_holds := holds_change holds present (view_insert_object crates old encoded (delivered body))
        stored becomes
      have again : (store.setBucket bucket
          { old with objects := old.objects.insert encoded (delivered body) }).buckets.lookup bucket =
          some { old with objects := old.objects.insert encoded (delivered body) } := by
        simp [Store.setBucket]
      apply wp_now
      intro time
      rw [wp_bind]
      apply wp_writeSidecar body_holds valid again admitted empty
      · intro (kept : old.sidecars = none)
        rw [kept] at body_holds
        simp only [kept]
        exact ⟨0, trivial, body_holds⟩
      · intro sidecars final (kept : old.sidecars = some sidecars) long still
        rw [becomes.limit] at long
        rw [kept] at still
        simp only [kept, long, if_true]
        exact ⟨0, trivial, still⟩
      · intro sidecars final (kept : old.sidecars = some sidecars) short still
        rw [becomes.limit] at short
        simp only [kept, short, Bool.false_eq_true, if_false]
        refine ⟨time, rfl, ?_⟩
        simpa [Store.setBucket] using still

/-! Reading an object. -/

theorem contents_sidecar (holds : Holds crates storage s store) {bucket key encoded : Str}
    (valid : validateBucketName bucket = .ok ()) (admitted : encodeKey key = .ok encoded) :
    fileContents s (storage.metaPath bucket encoded) =
      match (store.buckets.lookup bucket).bind Bucket.sidecars with
      | none => .error .ENOENT
      | some sidecars =>
          if exceeds s.nameMax (FsStorage.sidecarName encoded) then .error .ENAMETOOLONG
          else
            match sidecars.lookup (FsStorage.sidecarName encoded) with
            | none => .error .ENOENT
            | some objectMeta => .ok (crates.objectMeta.encode objectMeta) := by
  have good := encoded_sidecar_is_name admitted
  cases present : store.buckets.lookup bucket with
  | none => exact contents_lost (FS.locate_name_lost (lost_meta holds valid present) good)
  | some found =>
      have located := locate_meta holds valid present
      cases kept : found.sidecars with
      | none =>
          have gone : s.look (metaName :: bucket :: storage.dataRoot) = none := by
            simp [look_meta holds valid present, kept]
          simp only [Option.bind_some, kept]
          exact contents_lost (FS.locate_name_absent located gone good)
      | some sidecars =>
          have inside : s.look (metaName :: bucket :: storage.dataRoot) = some .dir := by
            simp [look_meta holds valid present, kept]
          simp only [Option.bind_some, kept]
          by_cases long : exceeds s.nameMax (FsStorage.sidecarName encoded) = true
          · rw [if_pos long]
            exact contents_lost (FS.locate_name_long located inside good long)
          · rw [if_neg long]
            have short : s.tooLong (FsStorage.sidecarName encoded) = false := by
              simpa [FS.tooLong] using long
            have placed := FS.locate_name located inside good short
            have seen := look_sidecar holds valid present (FsStorage.sidecarName encoded)
            simp only [kept, Option.bind_some] at seen
            cases taken : sidecars.lookup (FsStorage.sidecarName encoded) with
            | none => exact contents_absent placed (by simpa [taken] using seen)
            | some objectMeta => exact contents_file placed (by simpa [taken] using seen)

theorem wp_readSidecar (holds : Holds crates storage s store) {bucket key encoded : Str}
    {post : Except StorageError ObjectMeta → FS → Prop}
    (valid : validateBucketName bucket = .ok ()) (admitted : encodeKey key = .ok encoded) :
    wp faultFree (readSidecar crates (storage.metaPath bucket encoded)) post s ↔
      post (store.headObject storage s.nameMax bucket key) s := by
  unfold readSidecar Store.headObject
  rw [wp_readJson, contents_sidecar holds valid admitted]
  simp only [valid, admitted]
  cases (store.buckets.lookup bucket).bind Bucket.sidecars with
  | none => rfl
  | some sidecars =>
      by_cases long : exceeds s.nameMax (FsStorage.sidecarName encoded) = true
      · simp only [if_pos long]
        rfl
      · simp only [if_neg long]
        cases sidecars.lookup (FsStorage.sidecarName encoded) with
        | none => rfl
        | some objectMeta => simp [readOutcome, Except.mapError]

theorem head_refines (holds : Holds crates storage s store) (bucket key : Str)
    (post : Except StorageError ObjectMeta → FS → Prop) :
    wp faultFree (headObject crates storage bucket key) post s ↔
      post (store.headObject storage s.nameMax bucket key) s := by
  unfold headObject
  rw [wp_bind, wp_lift]
  cases valid : validateBucketName bucket with
  | error e => simp [Store.headObject, valid]
  | ok _ =>
      simp only []
      rw [wp_bind, wp_lift]
      cases admitted : encodeKey key with
      | error e => simp [Store.headObject, valid, admitted]
      | ok encoded => exact wp_readSidecar holds valid admitted

/-- Only a nonempty key has a sidecar. -/
theorem head_found (holds : Holds crates storage s store) {bucket key encoded : Str}
    {objectMeta : ObjectMeta} (valid : validateBucketName bucket = .ok ())
    (admitted : encodeKey key = .ok encoded)
    (found : store.headObject storage s.nameMax bucket key = .ok objectMeta) :
    key ≠ [] ∧ ∃ old sidecars, store.buckets.lookup bucket = some old ∧
      old.sidecars = some sidecars ∧
      sidecars.lookup (FsStorage.sidecarName encoded) = some objectMeta := by
  unfold Store.headObject at found
  simp only [valid, admitted] at found
  cases present : store.buckets.lookup bucket with
  | none => simp [present] at found
  | some old =>
      cases kept : old.sidecars with
      | none => simp [present, kept] at found
      | some sidecars =>
          simp only [present, Option.bind_some, kept] at found
          split_ifs at found
          cases taken : sidecars.lookup (FsStorage.sidecarName encoded) with
          | none => simp [taken] at found
          | some other =>
              have sound := holds.sound.buckets bucket old present
              obtain ⟨name, object, same⟩ := sound.sidecars _ _ _ kept taken
              obtain rfl := sidecar_injective same
              refine ⟨?_, old, sidecars, rfl, kept, ?_⟩
              · rintro rfl
                exact (object_name_parts object).1 ((encoded_nil admitted).mpr rfl)
              · simpa [taken] using found

theorem fetch_refines (holds : Holds crates storage s store) (bucket key : Str)
    (post : Except StorageError (ObjectMeta × Bytes) → FS → Prop) :
    wp faultFree (fetchObject crates storage bucket key) post s ↔
      post (store.getObject storage s.nameMax bucket key) s := by
  unfold fetchObject getObject Store.getObject
  cases valid : validateBucketName bucket with
  | error e => simp [Store.headObject, valid, lift, Prog.ofExcept]
  | ok _ =>
      cases admitted : encodeKey key with
      | error e => simp [Store.headObject, valid, admitted, lift, Prog.ofExcept]
      | ok encoded =>
          simp only [lift, Prog.ofExcept, Prog.done_bind]
          rw [wp_bind, wp_bind, wp_readSidecar holds valid admitted]
          cases found : store.headObject storage s.nameMax bucket key with
          | error e => rfl
          | ok objectMeta =>
              obtain ⟨nonempty, old, _, present, _, _⟩ := head_found holds valid admitted found
              have placed := locate_object_of_key holds valid present admitted nonempty
              have seen := look_object holds valid present encoded
              have same : store.bodyOf bucket key = old.objects.lookup encoded := by
                simp [Store.bodyOf, present, admitted, Except.toOption]
              simp only [streamObject, Prog.send_bind, Prog.call_bind, wp_open, same]
              cases stored : old.objects.lookup encoded with
              | none =>
                  rw [stored] at seen
                  simp [FS.open_absent placed seen, Except.toOption]
              | some body =>
                  obtain ⟨inode, named, held⟩ := FS.look_file.mp (by rw [seen, stored]; rfl)
                  simp only [FS.open_file placed named, Prog.pure_eq, Prog.done_bind, wp_done,
                    wp_bind, wp_ioOp, wp_collect, held, List.drop_zero, Except.mapError]

/-! Deleting an object. -/

theorem unlink_sidecar_missing (holds : Holds crates storage s store) {bucket key encoded : Str}
    {found : Bucket} (valid : validateBucketName bucket = .ok ())
    (present : store.buckets.lookup bucket = some found) (admitted : encodeKey key = .ok encoded)
    (kept : found.sidecars = none) :
    s.unlink (storage.metaPath bucket encoded) = (.error .ENOENT, s) := by
  have gone : s.look (metaName :: bucket :: storage.dataRoot) = none := by
    simp [look_meta holds valid present, kept]
  exact FS.unlink_lost (FS.locate_name_absent (locate_meta holds valid present) gone
    (encoded_sidecar_is_name admitted))

theorem delete_refines (holds : Holds crates storage s store) (bucket key : Str) :
    wp faultFree (deleteObject storage bucket key) (fun outcome after =>
      outcome = (store.deleteObject s.nameMax bucket key).1 ∧
        Holds crates storage after (store.deleteObject s.nameMax bucket key).2) s := by
  unfold deleteObject Store.deleteObject
  rw [wp_bind, wp_lift]
  cases valid : validateBucketName bucket with
  | error e => exact ⟨rfl, holds⟩
  | ok _ =>
  simp only []
  rw [wp_bind, wp_lift]
  cases admitted : encodeKey key with
  | error e => exact ⟨rfl, holds⟩
  | ok encoded =>
  have good := encoded_sidecar_is_name admitted
  simp only [Prog.send_bind, wp_unlink]
  cases present : store.buckets.lookup bucket with
  | none =>
      have lost : s.locate (storage.objectPath bucket encoded) = .error .ENOENT := by
        by_cases empty : key = []
        · subst empty
          obtain rfl : encoded = [] := (encoded_nil admitted).mpr rfl
          unfold FsStorage.objectPath
          rw [FS.locate_part _ List.not_mem_nil List.not_mem_nil, lost_objects holds valid present]
          rfl
        · have object : IsObjectName encoded := ⟨key, empty, admitted⟩
          exact FS.locate_name_lost (lost_objects holds valid present) (object_is_name object)
      simp only [FS.unlink_lost lost]
      exact ⟨rfl, holds⟩
  | some old =>
  by_cases empty : key = []
  · subst empty
    obtain rfl : encoded = [] := (encoded_nil admitted).mpr rfl
    have placed := locate_empty_key holds valid present
    simp only [FsStorage.objectPath, FS.unlink_dir placed (look_objects holds valid present),
      if_true]
    exact ⟨rfl, holds⟩
  · have placed := locate_object_of_key holds valid present admitted empty
    have seen := look_object holds valid present encoded
    simp only [if_neg empty]
    cases stored : old.objects.lookup encoded with
    | none =>
        rw [stored] at seen
        simp only [FS.unlink_absent placed seen]
        exact ⟨rfl, holds⟩
    | some body =>
        rw [stored] at seen
        simp only [FS.unlink_file placed seen]
        have sound := holds.sound.buckets bucket old present
        have becomes : Becomes s (Function.update s.look
            (encoded :: objectsName :: bucket :: storage.dataRoot) none)
            (s.drop (encoded :: objectsName :: bucket :: storage.dataRoot)) :=
          ⟨FS.look_drop s _, rfl, rfl⟩
        have bare := holds_change holds present (view_erase_object crates old encoded)
          (sound_erase_object encoded sound) becomes
        have again : (store.setBucket bucket
            { old with objects := old.objects.erase encoded }).buckets.lookup bucket =
            some { old with objects := old.objects.erase encoded } := by
          simp [Store.setBucket]
        rw [wp_unlink]
        cases kept : old.sidecars with
        | none =>
            rw [unlink_sidecar_missing bare valid again admitted kept]
            rw [kept] at bare
            exact ⟨rfl, bare⟩
        | some sidecars =>
            have inside : (s.drop (encoded :: objectsName :: bucket :: storage.dataRoot)).look
                (metaName :: bucket :: storage.dataRoot) = some .dir := by
              simp [look_meta bare valid again, kept]
            have directory := locate_meta bare valid again
            by_cases long : exceeds s.nameMax (FsStorage.sidecarName encoded) = true
            · have lost := FS.locate_name_long directory inside good long
              unfold FsStorage.metaPath
              rw [FS.unlink_lost lost]
              rw [kept] at bare
              simp only [long, if_true]
              exact ⟨rfl, bare⟩
            · have short : exceeds s.nameMax (FsStorage.sidecarName encoded) = false := by
                simpa using long
              have target := FS.locate_name directory inside good short
              have sidecar := look_sidecar bare valid again (FsStorage.sidecarName encoded)
              simp only [kept, Option.bind_some] at sidecar
              have gone := view_erase_sidecar crates
                { old with objects := old.objects.erase encoded } (FsStorage.sidecarName encoded) kept
              have final := sound_erase_sidecar (FsStorage.sidecarName encoded)
                (sound_erase_object encoded sound) kept
              have settle : ∀ after, Becomes (s.drop (encoded :: objectsName :: bucket :: storage.dataRoot))
                  (Function.update (s.drop (encoded :: objectsName :: bucket :: storage.dataRoot)).look
                    (FsStorage.sidecarName encoded :: metaName :: bucket :: storage.dataRoot) none)
                  after → Holds crates storage after (store.setBucket bucket
                    { old with
                      objects := old.objects.erase encoded
                      sidecars := some (sidecars.erase (FsStorage.sidecarName encoded)) }) := by
                intro after becomes
                have both := holds_change bare again gone final becomes
                simpa [Store.setBucket] using both
              simp only [short, Bool.false_eq_true, if_false]
              unfold FsStorage.metaPath
              cases taken : sidecars.lookup (FsStorage.sidecarName encoded) with
              | none =>
                  rw [taken] at sidecar
                  rw [FS.unlink_absent target sidecar]
                  refine ⟨rfl, settle _ ⟨?_, rfl, rfl⟩⟩
                  have absent : none = (s.drop (encoded :: objectsName :: bucket ::
                      storage.dataRoot)).look (FsStorage.sidecarName encoded :: metaName :: bucket ::
                      storage.dataRoot) := sidecar.symm
                  rw [absent, Function.update_eq_self]
              | some objectMeta =>
                  rw [taken] at sidecar
                  rw [FS.unlink_file target sidecar]
                  exact ⟨rfl, settle _ ⟨FS.look_drop _ _, rfl, rfl⟩⟩

end Objects

/-! ### Buckets -/

section Buckets
variable {crates : Crates} {storage : FsStorage} {s : FS} {store : Store}

/-- A bucket appears or disappears as a whole. -/
theorem holds_buckets {after : FS} {changed : Store} (holds : Holds crates storage s store)
    (seen : under storage.dataRoot after.look = changed.view crates)
    (sound : ∀ name bucket, changed.buckets.lookup name = some bucket → bucket.Sound name)
    (same : changed.uploads = store.uploads) (limit : after.nameMax = s.nameMax)
    (issued : after.issued = s.issued) : Holds crates storage after changed := by
  have staged : changed.staged = store.staged := by simp [Store.staged, same]
  refine ⟨seen, ⟨sound, ?_⟩, ?_, ?_⟩
  · rw [staged]
    exact holds.sound.uploads
  · rw [limit]
    exact holds.limit
  · rw [staged, issued]
    exact holds.issued

theorem fresh_sound {name : Str} (valid : validateBucketName name = .ok ()) (time : Nat) :
    (Bucket.fresh ⟨name, time⟩).Sound name := by
  refine ⟨valid, ?_, ?_, ?_⟩
  · rintro info ⟨⟩
    rfl
  · intro n body present
    simp [Bucket.fresh] at present
  · rintro sidecars n objectMeta ⟨⟩ present
    simp at present

theorem create_refines (holds : Holds crates storage s store) (name : Str) :
    wp faultFree (createBucket crates storage name) (fun outcome after =>
      ∃ time, outcome = (store.createBucket name time).1 ∧
        Holds crates storage after (store.createBucket name time).2 ∧
        after.issued = s.issued) s := by
  unfold createBucket Store.createBucket
  rw [wp_bind, wp_lift]
  cases valid : validateBucketName name with
  | error e => exact ⟨0, rfl, holds, rfl⟩
  | ok _ =>
  simp only []
  obtain ⟨_, _, _, slash, _⟩ := name_parts (bucket_is_name valid)
  have parent : (storage.bucketPath name).parent = storage.rootPath := parent_join _ slash
  rw [parent, wp_bind, wp_ioOp]
  unfold createDirAll
  rw [wp_createDir_present _ (locate_root storage s) (look_root holds)]
  have located := locate_bucket holds valid
  have seen := look_bucket holds valid
  simp only [Except.mapError, Prog.send_bind, wp_mkdir]
  cases present : store.buckets.lookup name with
  | some old =>
      have taken : s.look (name :: storage.dataRoot) ≠ none := by simp [seen, present]
      simp only [FS.mkdir_present located taken]
      exact ⟨0, rfl, holds, rfl⟩
  | none =>
      have nothing : ∀ inner : List Str, s.look (inner.reverse ++ name :: storage.dataRoot) = none := by
        intro inner
        simp [look_below holds valid inner, present]
      have absent := nothing []
      have free_objects := nothing [objectsName]
      have free_meta := nothing [metaName]
      have free_json := nothing [bucketJsonName]
      simp only [List.reverse_nil, List.nil_append, List.reverse_singleton,
        List.singleton_append] at absent free_objects free_meta free_json
      rw [FS.mkdir_new located absent (look_root holds)]
      -- From here on every directory is made next to the one before it.
      have root := look_root holds
      have root_made := FS.mkdirAt_kept (name :: storage.dataRoot) root
      have made : (s.mkdirAt (name :: storage.dataRoot)).look (name :: storage.dataRoot) =
          some .dir := by simp
      have at_objects := locate_in_bucket objectsName valid root_made made holds.limit
        (by decide) (by decide)
      rw [wp_bind, wp_ioOp]
      unfold FsStorage.objectsDir FsStorage.metaDir
      rw [wp_createDir_new _ at_objects (by simp [free_objects]) (by simp)]
      simp only [Except.mapError]
      have root_objects := FS.mkdirAt_kept (objectsName :: name :: storage.dataRoot) root_made
      have made_objects := FS.mkdirAt_kept (objectsName :: name :: storage.dataRoot) made
      have at_meta := locate_in_bucket metaName valid root_objects made_objects holds.limit
        (by decide) (by decide)
      rw [wp_bind, wp_ioOp, wp_createDir_new _ at_meta (by simp [free_meta]) made_objects]
      simp only [Except.mapError]
      apply wp_now
      intro time
      rw [wp_ioOp]
      have root_meta := FS.mkdirAt_kept (metaName :: name :: storage.dataRoot) root_objects
      have made_meta := FS.mkdirAt_kept (metaName :: name :: storage.dataRoot) made_objects
      have at_json := locate_in_bucket bucketJsonName valid root_meta made_meta holds.limit
        (by decide) (by decide)
      apply wp_writeFile at_json (by simp [free_json]) made_meta
      intro after becomes
      refine ⟨time, rfl, ?_, becomes.issued⟩
      have ordinary := bucket_not_uploads valid
      apply holds_buckets holds
      · rw [becomes.look, view_fresh_bucket ordinary _ present, ← holds.seen]
        simp only [FS.look_mkdirAt, under_update_one, under_update_two]
      · exact (sound_setBucket holds.sound (fresh_sound valid time)).buckets
      · rfl
      · exact becomes.limit
      · exact becomes.issued

theorem locate_json (holds : Holds crates storage s store) {name : Str} {found : Bucket}
    (valid : validateBucketName name = .ok ())
    (present : store.buckets.lookup name = some found) :
    s.locate ((storage.bucketPath name).join bucketJsonName) =
      .ok (bucketJsonName :: name :: storage.dataRoot) := by
  have inside : s.look (name :: storage.dataRoot) = some .dir := by
    simp [look_bucket holds valid, present]
  exact FS.locate_name (locate_bucket holds valid) inside (by decide) (fits holds (by decide))

theorem look_json (holds : Holds crates storage s store) {name : Str} {found : Bucket}
    (valid : validateBucketName name = .ok ())
    (present : store.buckets.lookup name = some found) :
    s.look (bucketJsonName :: name :: storage.dataRoot) =
      found.info.map fun info => .file (crates.bucketInfo.encode info) := by
  have seen := look_below holds valid [bucketJsonName]
  simpa [present, Bucket.view] using seen

theorem join_lastPart (path : PathBuf) {part : Str} (good : isName part = true) :
    (path.join part).lastPart ≠ some ['.'] ∧ (path.join part).lastPart ≠ some ['.', '.'] := by
  obtain ⟨nonempty, dot, dots, slash, _⟩ := name_parts good
  have last : (path.join part).lastPart = some part := by
    rw [join_name path slash]
    simp [PathBuf.lastPart, nonempty]
  rw [last]
  exact ⟨fun same => dot (Option.some.inj same), fun same => dots (Option.some.inj same)⟩

/-- An empty directory is removed, and one that is gone already is no error. -/
theorem wp_removeDirGuarded {dir : PathBuf} {d : Path} {name : Str}
    {post : Except StorageError Unit → FS → Prop} (located : s.locate dir = .ok d)
    (plain : dir.lastPart ≠ some ['.'] ∧ dir.lastPart ≠ some ['.', '.']) (below : d ≠ [])
    (kind : s.look d = some .dir ∨ s.look d = none) (empty : ∀ part, s.look (part :: d) = none)
    (holds : ∀ after, Becomes s (Function.update s.look d none) after → post (.ok ()) after) :
    wp faultFree (removeDirGuarded dir name) post s := by
  unfold removeDirGuarded
  simp only [Prog.send_bind, wp_rmdir]
  rcases kind with inside | absent
  · rw [FS.rmdir_empty (FS.locateDir_dir located inside) plain below empty]
    exact holds _ ⟨FS.look_drop s d, rfl, rfl⟩
  · rw [FS.rmdir_lost (FS.locateDir_absent located absent)]
    refine holds _ ⟨?_, rfl, rfl⟩
    rw [← absent, Function.update_eq_self]

theorem ne_longer {left right : Path} (longer : left.length < right.length) : left ≠ right := by
  rintro rfl
  exact lt_irrefl _ longer

/-- A change further down does not show here. -/
theorem above_update {look : Path → Option FS.Entry} {path changed : Path}
    {entry new : Option FS.Entry} (longer : path.length < changed.length)
    (seen : look path = entry) : Function.update look changed new path = entry := by
  rw [Function.update_of_ne (ne_longer longer), seen]

theorem delete_bucket_refines (holds : Holds crates storage s store) (paired : store.Paired)
    (name : Str) :
    wp faultFree (deleteBucket storage name) (fun outcome after =>
      outcome = (store.deleteBucket name).1 ∧
        Holds crates storage after (store.deleteBucket name).2) s := by
  unfold deleteBucket Store.deleteBucket
  rw [wp_bind, wp_lift]
  cases valid : validateBucketName name with
  | error e => exact ⟨rfl, holds⟩
  | ok _ =>
  simp only [Prog.send_bind, wp_exists, FS.exists_located (locate_bucket holds valid),
    look_bucket holds valid]
  cases present : store.buckets.lookup name with
  | none => exact ⟨rfl, holds⟩
  | some old =>
  simp only [Option.map_some, Option.isSome_some, Bool.not_true, Bool.false_eq_true, if_false]
  have objects := locate_objects holds valid present
  have directory := look_objects holds valid present
  apply wp_readDir (FS.locateDir_dir objects directory)
  intro order distinct entries
  have emptiness : order = [] ↔ old.objects = ∅ := by
    rw [names_empty, List.eq_nil_iff_forall_not_mem]
    simp only [entries, look_object holds valid present, Ne, not_not, Option.map_eq_none_iff]
  simp only [Prog.pure_eq, Prog.done_bind, List.isEmpty_map]
  by_cases occupied : old.objects = ∅
  · have listed : order.isEmpty = true := by simp [emptiness.mpr occupied]
    simp only [listed, occupied, Bool.not_true, Bool.false_eq_true, if_false, if_true]
    have ordinary := bucket_not_uploads valid
    have no_sidecars : ∀ kept, old.sidecars = some kept → kept = ∅ := by
      intro kept same
      rw [names_empty]
      intro n
      by_contra taken
      obtain ⟨objectMeta, taken⟩ := Option.ne_none_iff_exists'.mp taken
      obtain ⟨encoded, _, rfl⟩ :=
        (holds.sound.buckets name old present).sidecars kept n objectMeta same taken
      obtain ⟨body, stored⟩ := paired name old present kept encoded objectMeta same taken
      simp [occupied] at stored
    have root := look_root holds
    have inside : s.look (name :: storage.dataRoot) = some .dir := by
      simp [look_bucket holds valid, present]
    rw [wp_bind]
    apply wp_removeDirGuarded objects (join_lastPart _ (by decide)) (by simp) (.inl directory)
    · intro part
      simp [look_object holds valid present, occupied]
    intro first becomes_first
    have root_first : first.look storage.dataRoot = some .dir := by
      rw [becomes_first.look]
      exact above_update (by simp only [List.length_cons]; omega) root
    have inside_first : first.look (name :: storage.dataRoot) = some .dir := by
      rw [becomes_first.look]
      exact above_update (by simp) inside
    have limit_first : first.nameMax = none ∨ first.nameMax = some 255 := by
      rw [becomes_first.limit]
      exact holds.limit
    have at_meta := locate_in_bucket metaName valid root_first inside_first limit_first
      (by decide) (by decide)
    rw [wp_bind]
    apply wp_removeDirGuarded at_meta (join_lastPart _ (by decide)) (by simp)
    · rw [becomes_first.look, Function.update_of_ne (by simp), look_meta holds valid present]
      cases old.sidecars <;> simp
    · intro part
      rw [becomes_first.look, Function.update_of_ne (by simp), look_sidecar holds valid present]
      cases kept : old.sidecars with
      | none => rfl
      | some sidecars => simp [no_sidecars sidecars kept]
    intro second becomes_second
    have root_second : second.look storage.dataRoot = some .dir := by
      rw [becomes_second.look]
      exact above_update (by simp only [List.length_cons]; omega) root_first
    have inside_second : second.look (name :: storage.dataRoot) = some .dir := by
      rw [becomes_second.look]
      exact above_update (by simp) inside_first
    have limit_second : second.nameMax = none ∨ second.nameMax = some 255 := by
      rw [becomes_second.limit]
      exact limit_first
    have at_json := locate_in_bucket bucketJsonName valid root_second inside_second limit_second
      (by decide) (by decide)
    have json : second.look (bucketJsonName :: name :: storage.dataRoot) =
        old.info.map fun info => .file (crates.bucketInfo.encode info) := by
      rw [becomes_second.look, Function.update_of_ne (by simp), becomes_first.look,
        Function.update_of_ne (by simp), look_json holds valid present]
    -- The record may be missing in a bucket that `complete` made; that is tolerated.
    have removed : ∃ reply third, second.unlink ((storage.bucketPath name).join bucketJsonName) =
        (reply, third) ∧ (reply = .ok () ∨ reply = .error .ENOENT) ∧
        Becomes second (Function.update second.look (bucketJsonName :: name :: storage.dataRoot) none)
          third := by
      cases info : old.info with
      | none =>
          rw [info] at json
          refine ⟨_, _, FS.unlink_absent at_json json, .inr rfl, ?_, rfl, rfl⟩
          have absent : none = second.look (bucketJsonName :: name :: storage.dataRoot) := json.symm
          rw [absent, Function.update_eq_self]
      | some found =>
          rw [info] at json
          exact ⟨_, _, FS.unlink_file at_json json, .inl rfl, FS.look_drop _ _, rfl, rfl⟩
    obtain ⟨reply, third, unlinked, tolerated, becomes_third⟩ := removed
    have limit_third : third.nameMax = none ∨ third.nameMax = some 255 := by
      rw [becomes_third.limit]
      exact limit_second
    have root_third : third.look storage.dataRoot = some .dir := by
      rw [becomes_third.look]
      exact above_update (by simp only [List.length_cons]; omega) root_second
    have inside_third : third.look (name :: storage.dataRoot) = some .dir := by
      rw [becomes_third.look]
      exact above_update (by simp) inside_second
    have length : utf8Len name ≤ 255 := le_trans (bucket_name_facts valid).2.1 (by decide)
    have at_bucket : third.locate (storage.bucketPath name) = .ok (name :: storage.dataRoot) :=
      FS.locate_name (locate_root storage third) root_third (bucket_is_name valid)
        (fits_limit limit_third length)
    have childless : ∀ part, third.look (part :: name :: storage.dataRoot) = none := by
      intro part
      rw [becomes_third.look, becomes_second.look, becomes_first.look]
      have seen := look_below holds valid [part]
      simp only [present, Option.bind_some, List.reverse_singleton, List.singleton_append] at seen
      by_cases one : part = bucketJsonName
      · simp [one]
      · by_cases two : part = metaName
        · simp [two]
        · by_cases three : part = objectsName
          · simp [three]
          · simp [one, two, three, seen, Bucket.view]
    have gone := FS.rmdir_empty (FS.locateDir_dir at_bucket inside_third)
      (join_lastPart _ (bucket_is_name valid)) (by simp) childless
    have final : Holds crates storage (third.drop (name :: storage.dataRoot))
        (store.dropBucket name) := by
      apply holds_buckets holds
      · rw [view_drop_empty ordinary present occupied no_sidecars, ← holds.seen, FS.look_drop,
          becomes_third.look, becomes_second.look, becomes_first.look]
        simp only [under_update_one, under_update_two]
      · intro other bucket found
        by_cases same : other = name
        · subst same
          simp [Store.dropBucket] at found
        · simp only [Store.dropBucket, Finmap.lookup_erase_ne same] at found
          exact holds.sound.buckets other bucket found
      · rfl
      · exact becomes_third.limit.trans (becomes_second.limit.trans becomes_first.limit)
      · exact becomes_third.issued.trans (becomes_second.issued.trans becomes_first.issued)
    simp only [wp_unlink, unlinked]
    rcases tolerated with rfl | rfl
    · simp only [wp_rmdir, gone]
      exact ⟨rfl, final⟩
    · simp only [wp_rmdir, gone]
      exact ⟨rfl, final⟩
  · have listed : order.isEmpty = false := by simpa using mt emptiness.mp occupied
    simp only [listed, occupied, Bool.not_false, if_true, if_false]
    exact ⟨rfl, holds⟩

/-! Listing buckets. -/

theorem no_bucket_uploads (holds : Holds crates storage s store) :
    store.buckets.lookup uploadsName = none := by
  by_contra taken
  obtain ⟨found, present⟩ := Option.ne_none_iff_exists'.mp taken
  exact bucket_not_uploads (holds.sound.buckets _ found present).valid rfl

/-- The record of a directory below the root, if that directory is a bucket that has one. -/
theorem contents_json (holds : Holds crates storage s store) {name : Str}
    (inside : s.look (name :: storage.dataRoot) = some .dir) :
    fileContents s ((storage.rootPath.join name).join bucketJsonName) =
      match (store.buckets.lookup name).bind Bucket.info with
      | none => .error .ENOENT
      | some info => .ok (crates.bucketInfo.encode info) := by
  have seen := congrFun holds.seen [name]
  by_cases staging : name = uploadsName
  · subst staging
    have located : s.locate (storage.rootPath.join uploadsName) =
        .ok (uploadsName :: storage.dataRoot) :=
      FS.locate_name (locate_root storage s) (look_root holds) (by decide) (fits holds (by decide))
    have placed : s.locate ((storage.rootPath.join uploadsName).join bucketJsonName) =
        .ok (bucketJsonName :: uploadsName :: storage.dataRoot) :=
      FS.locate_name located inside (by decide) (fits holds (by decide))
    have absent : s.look (bucketJsonName :: uploadsName :: storage.dataRoot) = none := by
      have view := congrFun holds.seen [uploadsName, bucketJsonName]
      cases uploads : store.uploads with
      | none => simpa [under, Store.view, uploads] using view
      | some staged =>
          rw [view_upload uploads] at view
          have unknown : staged.lookup bucketJsonName = none := by
            by_contra taken
            obtain ⟨upload, taken⟩ := Option.ne_none_iff_exists'.mp taken
            have known := holds.sound.uploads bucketJsonName upload (by simpa [Store.staged, uploads])
            exact absurd known.1 (by decide)
          simpa [under, unknown] using view
    rw [no_bucket_uploads holds]
    exact contents_absent placed absent
  · rw [view_bucket staging] at seen
    cases present : store.buckets.lookup name with
    | none =>
        have gone : s.look (name :: storage.dataRoot) = none := by
          simpa [under, present] using seen
        rw [gone] at inside
        cases inside
    | some found =>
        have valid := (holds.sound.buckets name found present).valid
        have placed := locate_json holds valid present
        have json := look_json holds valid present
        cases info : found.info with
        | none =>
            rw [info] at json
            simp only [Option.bind_some, info]
            exact contents_absent placed json
        | some record =>
            rw [info] at json
            simp only [Option.bind_some, info]
            exact contents_file placed json

theorem wp_readBucketInfos (holds : Holds crates storage s store) {order : List Str}
    (post : Except StorageError (List BucketInfo) → FS → Prop)
    (inside : ∀ name ∈ order, s.look (name :: storage.dataRoot) = some .dir) :
    wp faultFree (readBucketInfos crates (order.map fun name => storage.rootPath.join name)) post s ↔
      post (.ok (store.bucketInfos order)) s := by
  induction order generalizing post with
  | nil => rfl
  | cons name rest ih =>
      have first := inside name List.mem_cons_self
      have others := fun other member => inside other (List.mem_cons_of_mem name member)
      simp only [List.map_cons, readBucketInfos]
      rw [wp_bind, wp_attempt, wp_readFile, contents_json holds first]
      unfold Store.bucketInfos
      rw [List.filterMap_cons]
      cases (store.buckets.lookup name).bind Bucket.info with
      | none => exact ih post others
      | some info =>
          simp only [Codec.decode_encode]
          rw [wp_bind, ih _ others]
          rfl

theorem list_buckets_refines (holds : Holds crates storage s store) :
    wp faultFree (listBuckets crates storage) (fun outcome after =>
      after = s ∧ ∃ order : List Str, order.Nodup ∧
        (∀ name, store.buckets.lookup name ≠ none → name ∈ order) ∧
        outcome = .ok (store.bucketInfos order)) s := by
  unfold listBuckets
  simp only [Prog.send_bind]
  apply wp_readDir (FS.locateDir_dir (locate_root storage s) (look_root holds))
  intro order distinct entries
  have dirs : ∀ name ∈ order, s.look (name :: storage.dataRoot) = some .dir := by
    intro name member
    have seen := congrFun holds.seen [name]
    have present := (entries name).mp member
    unfold under at seen
    simp only [List.reverse_singleton, List.singleton_append] at seen
    rw [seen] at present ⊢
    by_cases staging : name = uploadsName
    · subst staging
      cases uploads : store.uploads <;> simp [Store.view, uploads] at present ⊢
    · rw [view_bucket staging] at present ⊢
      cases found : store.buckets.lookup name <;> simp [found, Bucket.view] at present ⊢
  have kept : ((order.map fun name => (⟨name, s.look (name :: storage.dataRoot) = some .dir⟩ :
      DirEntry)).filter DirEntry.isDir).map (fun entry => storage.rootPath.join entry.name) =
      order.map fun name => storage.rootPath.join name := by
    have all : ∀ entry ∈ order.map fun name =>
        (⟨name, s.look (name :: storage.dataRoot) = some .dir⟩ : DirEntry), entry.isDir = true := by
      intro entry member
      obtain ⟨name, inside, rfl⟩ := List.mem_map.mp member
      simp [dirs name inside]
    rw [List.filter_eq_self.mpr all, List.map_map]
    rfl
  simp only [Prog.pure_eq, Prog.done_bind, kept]
  rw [wp_readBucketInfos holds _ dirs]
  refine ⟨rfl, order, distinct, ?_, rfl⟩
  intro name taken
  obtain ⟨found, present⟩ := Option.ne_none_iff_exists'.mp taken
  have valid := (holds.sound.buckets name found present).valid
  apply (entries name).mpr
  simp [look_bucket holds valid, present]

end Buckets

/-! ### Listing -/

section Pages
variable {crates : Crates} {storage : FsStorage} {s : FS} {store : Store}

/-- The order of the directory does not matter to a listing. -/
theorem select_keys_perm {left right : List Str} (same : left.Perm right) (req : ListV2Req) :
    selectKeys left req = selectKeys right req := by
  have sorted : left.insertionSort (· ≤ ·) = right.insertionSort (· ≤ ·) := by
    have reordered := (List.perm_insertionSort (· ≤ ·) left).trans
      (same.trans (List.perm_insertionSort (· ≤ ·) right).symm)
    exact reordered.eq_of_pairwise (fun _ _ _ _ => le_antisymm) (List.pairwise_insertionSort _ _)
      (List.pairwise_insertionSort _ _)
  unfold selectKeys
  rw [sorted]

theorem wp_buildOutput (holds : Holds crates storage s store) {bucket : Str} (items : List Item)
    (post : Except StorageError (List ObjectMeta × List Str) → FS → Prop)
    (valid : validateBucketName bucket = .ok ()) :
    wp faultFree (buildOutput crates storage bucket items) post s ↔
      post (store.pageItems storage s.nameMax bucket items) s := by
  induction items generalizing post with
  | nil => rfl
  | cons item rest ih =>
      cases item with
      | object key =>
          simp only [buildOutput, Store.pageItems]
          rw [wp_bind, wp_lift]
          cases admitted : encodeKey key with
          | error e => simp [Store.headObject, valid, admitted]
          | ok encoded =>
              simp only []
              have same : (storage.metaDir bucket).join (FsStorage.sidecarName encoded) =
                  storage.metaPath bucket encoded := rfl
              rw [same, wp_bind, wp_readSidecar holds valid admitted]
              cases store.headObject storage s.nameMax bucket key with
              | error e => rfl
              | ok objectMeta =>
                  simp only []
                  rw [wp_bind, ih]
                  cases store.pageItems storage s.nameMax bucket rest <;> rfl
      | commonPrefix cp =>
          simp only [buildOutput, Store.pageItems]
          rw [wp_bind, ih]
          cases store.pageItems storage s.nameMax bucket rest <;> rfl

theorem list_refines (holds : Holds crates storage s store) (bucket : Str) (req : ListV2Req)
    (post : Except StorageError ListV2Res → FS → Prop)
    (final : post (store.listObjectsV2 storage s.nameMax bucket req) s) :
    wp faultFree (listObjectsV2 crates storage bucket req) post s := by
  unfold listObjectsV2
  unfold Store.listObjectsV2 at final
  rw [wp_bind, wp_lift]
  cases valid : validateBucketName bucket with
  | error e => simpa [valid] using final
  | ok _ =>
  simp only [valid] at final
  simp only [Prog.send_bind, wp_exists, FS.exists_located (locate_bucket holds valid),
    look_bucket holds valid]
  cases present : store.buckets.lookup bucket with
  | none => simpa [present] using final
  | some old =>
  simp only [present] at final
  simp only [Option.map_some, Option.isSome_some, Bool.not_true, Bool.false_eq_true, if_false]
  unfold listPage scanKeys
  simp only [Prog.send_bind, Prog.call_bind]
  have objects := locate_objects holds valid present
  have directory := look_objects holds valid present
  apply wp_readDir (FS.locateDir_dir objects directory)
  intro order distinct entries
  -- The directory gives the names of the bodies, each once, in some order.
  have names : order.Perm (old.objects.keys.sort (· ≤ ·)) := by
    apply (List.perm_ext_iff_of_nodup distinct (Finset.sort_nodup _ _)).mpr
    intro name
    rw [entries, Finset.mem_sort, look_object holds valid present, Finmap.mem_keys,
      Finmap.mem_iff]
    cases old.objects.lookup name <;> simp
  have scanned : ((order.map fun name => (⟨name,
      s.look (name :: objectsName :: bucket :: storage.dataRoot) = some .dir⟩ :
      DirEntry)).filterMap fun entry => (decodeKey entry.name).toOption).Perm
      (Store.scannedKeys old) := by
    rw [List.filterMap_map]
    exact names.filterMap _
  simp only [Prog.pure_eq, Prog.done_bind, select_keys_perm scanned req]
  rw [wp_bind, wp_lift]
  cases selected : selectKeys (Store.scannedKeys old) req with
  | error e => simpa [selected] using final
  | ok keys =>
      simp only [selected] at final
      simp only []
      rw [wp_bind, wp_buildOutput holds _ _ valid]
      cases output : store.pageItems storage s.nameMax bucket (capPage req keys).capped with
      | error e => simpa [output, Except.map] using final
      | ok found => simpa [output, Except.map] using final

end Pages

end Ferrobucket
