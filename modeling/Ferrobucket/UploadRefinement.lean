import Ferrobucket.Refinement
/-! The multipart programs refine the operations on stores, for upload ids that are
single names. Parts are files of the staging directory; completing reads them in
order, installs the result like any other body, and removes the staging directory. -/
namespace Ferrobucket
open Text Posix Program

section Staging
variable {crates : Crates} {storage : FsStorage} {s : FS} {store : Store} {id : Str}

theorem locate_uploads (holds : Holds crates storage s store) :
    s.locate storage.uploadsRoot = .ok (uploadsName :: storage.dataRoot) :=
  FS.locate_name (locate_root storage s) (look_root holds) (by decide) (fits holds (by decide))

theorem look_uploads (holds : Holds crates storage s store) :
    s.look (uploadsName :: storage.dataRoot) = store.uploads.map fun _ => .dir := by
  have seen := congrFun holds.seen [uploadsName]
  cases uploads : store.uploads <;> simpa [under, Store.view, uploads] using seen

theorem look_staged (holds : Holds crates storage s store) (id : Str) (inside : List Str) :
    s.look (inside.reverse ++ id :: uploadsName :: storage.dataRoot) =
      (store.staged.lookup id).bind fun upload => upload.view crates inside := by
  have seen := congrFun holds.seen (uploadsName :: id :: inside)
  rw [view_staged] at seen
  simpa [under] using seen

theorem look_upload (holds : Holds crates storage s store) (id : Str) :
    s.look (id :: uploadsName :: storage.dataRoot) =
      (store.staged.lookup id).map fun _ => .dir := by
  have seen := look_staged holds id []
  cases found : store.staged.lookup id <;> simpa [found, Upload.view] using seen

/-- The staging directory of an id, if `.uploads` exists at all. -/
theorem locate_upload (holds : Holds crates storage s store) (uuid : isUuid id = true)
    {upload : Upload} (present : store.staged.lookup id = some upload) :
    s.locate (storage.uploadDir id) = .ok (id :: uploadsName :: storage.dataRoot) := by
  obtain ⟨uploads, exist, _⟩ := staged_some present
  have inside : s.look (uploadsName :: storage.dataRoot) = some .dir := by
    simp [look_uploads holds, exist]
  exact FS.locate_name (locate_uploads holds) inside (uuid_is_name uuid)
    (fits holds (by simp [uuid_length uuid]))

/-- An id without a staging directory leads nowhere. -/
theorem locate_no_upload (holds : Holds crates storage s store) (uuid : isUuid id = true)
    (absent : store.staged.lookup id = none) :
    s.locate (storage.uploadDir id) = .error .ENOENT ∨
      s.locate (storage.uploadDir id) = .ok (id :: uploadsName :: storage.dataRoot) ∧
        s.look (id :: uploadsName :: storage.dataRoot) = none := by
  have seen := look_uploads holds
  cases uploads : store.uploads with
  | none =>
      rw [uploads] at seen
      exact .inl (FS.locate_name_absent (locate_uploads holds) seen (uuid_is_name uuid))
  | some found =>
      rw [uploads] at seen
      refine .inr ⟨?_, by simp [look_upload holds, absent]⟩
      exact FS.locate_name (locate_uploads holds) seen (uuid_is_name uuid)
        (fits holds (by simp [uuid_length uuid]))

theorem exists_upload (holds : Holds crates storage s store) (uuid : isUuid id = true) :
    s.exists (storage.uploadDir id) = (store.staged.lookup id).isSome := by
  cases present : store.staged.lookup id with
  | none =>
      rcases locate_no_upload holds uuid present with lost | ⟨located, gone⟩
      · simp [FS.exists_lost lost]
      · simp [FS.exists_located located, gone]
  | some upload =>
      simp [FS.exists_located (locate_upload holds uuid present), look_upload holds, present]

theorem roomy_upload (holds : Holds crates storage s store) (uuid : isUuid id = true)
    {upload : Upload} (present : store.staged.lookup id = some upload) :
    Roomy s (storage.uploadDir id) (id :: uploadsName :: storage.dataRoot) := by
  refine ⟨locate_upload holds uuid present, by simp [look_upload holds, present], ?_, ?_⟩
  · intro name temp
    exact fits holds (by simp [temp_length temp])
  · intro name temp
    have seen := look_staged holds id [name]
    have ordinary : name ≠ multipartJsonName := by
      rintro rfl
      exact absurd temp (by decide)
    have unknown : upload.parts.lookup name = none := by
      by_contra taken
      obtain ⟨content, taken⟩ := Option.ne_none_iff_exists'.mp taken
      obtain ⟨number, rfl⟩ := (holds.sound.uploads id upload present).2.parts name content taken
      exact part_head number (temp_head temp)
    simpa [present, Upload.view, ordinary, unknown] using seen

/-- One path of an upload changed, in the file system and in the store alike. -/
theorem holds_change_upload {after : FS} {old new : Upload} {inner : List Str}
    {entry : Option FS.Entry} (holds : Holds crates storage s store)
    (present : store.staged.lookup id = some old)
    (changed : new.view crates = Function.update (old.view crates) inner entry) (good : new.Sound)
    (becomes : Becomes s
      (Function.update s.look (inner.reverse ++ id :: uploadsName :: storage.dataRoot) entry) after) :
    Holds crates storage after (store.setUpload id new) := by
  refine ⟨?_, ⟨holds.sound.buckets, ?_⟩, ?_, ?_⟩
  · have place : inner.reverse ++ id :: uploadsName :: storage.dataRoot =
        (uploadsName :: id :: inner).reverse ++ storage.dataRoot := by simp
    rw [becomes.look, place, under_update, holds.seen, view_change_upload present changed]
  · intro other upload found
    by_cases same : other = id
    · subst same
      have equal : new = upload := by simpa [Store.staged, Store.setUpload] using found
      exact ⟨(holds.sound.uploads _ old present).1, equal ▸ good⟩
    · have kept : store.staged.lookup other = some upload := by
        simpa [Store.staged, Store.setUpload, Finmap.lookup_insert_of_ne _ same] using found
      exact holds.sound.uploads other upload kept
  · rw [becomes.limit]
    exact holds.limit
  · intro other upload found
    rw [becomes.issued]
    by_cases same : other = id
    · subst same
      exact holds.issued _ old present
    · have kept : store.staged.lookup other = some upload := by
        simpa [Store.staged, Store.setUpload, Finmap.lookup_insert_of_ne _ same] using found
      exact holds.issued other upload kept

end Staging

section Parts
variable {crates : Crates} {storage : FsStorage} {s : FS} {store : Store} {uploadId : Str}

theorem sound_insert_part {upload : Upload} (sound : upload.Sound) (number : Int) (content : Bytes) :
    Upload.Sound { upload with
      parts := upload.parts.insert (FsStorage.partName number) content } := by
  refine ⟨sound.valid, ?_⟩
  intro n found present
  by_cases same : n = FsStorage.partName number
  · exact ⟨number, same⟩
  · rw [Finmap.lookup_insert_of_ne _ same] at present
    exact sound.parts n found present

theorem part_within_refines (holds : Holds crates storage s store)
    (bucket : Str) (uuid : isUuid uploadId = true) (partNumber : Int) (body : Body)
    (fitting : s.tooLong (FsStorage.partName partNumber) = false) :
    wp faultFree (uploadPart crates storage bucket uploadId partNumber body) (fun outcome after =>
      outcome = (store.uploadPart crates uploadId partNumber body).1 ∧
        Holds crates storage after (store.uploadPart crates uploadId partNumber body).2) s := by
  unfold uploadPart Store.uploadPart
  by_cases small : partNumber ≤ 0
  · simp only [small, if_true]
    exact ⟨rfl, holds⟩
  · simp only [small, if_false, Prog.send_bind, wp_exists, exists_upload holds uuid]
    cases present : store.staged.lookup uploadId with
    | none => exact ⟨rfl, holds⟩
    | some upload =>
        simp only [Option.isSome_some, Bool.not_true, Bool.false_eq_true, if_false]
        have roomy := roomy_upload holds uuid present
        have sound := (holds.sound.uploads uploadId upload present).2
        have placed : s.locate (storage.partPath uploadId partNumber) =
            .ok (FsStorage.partName partNumber :: uploadId :: uploadsName :: storage.dataRoot) :=
          FS.locate_name roomy.located roomy.inside (part_is_name partNumber) fitting
        rw [wp_bind]
        apply wp_installFile roomy (lands_located placed)
          (fun name temp absent => wp_stream_staged body absent)
        · rintro e content after ⟨-, outcome⟩ becomes
          cases broken : failure body with
          | none => simp [broken] at outcome
          | some error =>
              rw [broken] at outcome
              cases outcome
              exact ⟨rfl, holds_same holds becomes⟩
        · rintro e value content after ⟨-, outcome⟩ reason becomes
          rcases reason with lost | ⟨rfl, found, same, directory⟩
          · cases lost
          · cases same
            have seen := look_staged holds uploadId [FsStorage.partName partNumber]
            simp only [List.reverse_singleton, List.singleton_append, present, Option.bind_some,
              Upload.view, if_neg (part_not_meta partNumber)] at seen
            rw [seen] at directory
            cases taken : upload.parts.lookup (FsStorage.partName partNumber) <;>
              simp [taken] at directory
        · rintro found value content after same - ⟨rfl, outcome⟩ becomes
          cases broken : failure body with
          | some error => simp [broken] at outcome
          | none =>
              rw [broken] at outcome
              cases outcome
              cases same
              refine ⟨rfl, ?_⟩
              exact holds_change_upload holds present
                (view_insert_part crates upload (delivered body) (part_not_meta partNumber))
                (sound_insert_part sound partNumber (delivered body)) becomes

theorem part_refines (holds : Holds crates storage s store) (unlimited : s.nameMax = none)
    (bucket : Str) (uuid : isUuid uploadId = true) (partNumber : Int) (body : Body) :
    wp faultFree (uploadPart crates storage bucket uploadId partNumber body) (fun outcome after =>
      outcome = (store.uploadPart crates uploadId partNumber body).1 ∧
        Holds crates storage after (store.uploadPart crates uploadId partNumber body).2) s := by
  have fitting : s.tooLong (FsStorage.partName partNumber) = false := by
    simp [FS.tooLong, unlimited, exceeds]
  exact part_within_refines holds bucket uuid partNumber body fitting

/-! Removing a staging directory. -/

theorem wp_remove_upload (holds : Holds crates storage s store) (uuid : isUuid uploadId = true)
    {upload : Upload} (present : store.staged.lookup uploadId = some upload) :
    wp faultFree (removeDirAll (storage.uploadDir uploadId)) (fun outcome after =>
      outcome = .ok () ∧ Holds crates storage after (store.dropUpload uploadId)) s := by
  have located := locate_upload holds uuid present
  have inside : s.look (uploadId :: uploadsName :: storage.dataRoot) = some .dir := by
    simp [look_upload holds, present]
  apply wp_removeDirAll located inside (by simp) (join_lastPart _ (uuid_is_name uuid))
  · intro after outside limit
    have longer : ∀ path : Path, path.length < (uploadId :: uploadsName :: storage.dataRoot).length →
        after.look path = s.look path := by
      intro path shorter
      apply outside
      rintro ⟨below, -⟩
      exact absurd below.length_le (by omega)
    have root : after.look storage.dataRoot = some .dir := by
      rw [longer _ (by simp only [List.length_cons]; omega)]
      exact look_root holds
    have staging : after.look (uploadsName :: storage.dataRoot) = some .dir := by
      obtain ⟨uploads, exist, _⟩ := staged_some present
      rw [longer _ (by simp)]
      simp [look_uploads holds, exist]
    have bounded : after.nameMax = none ∨ after.nameMax = some 255 := limit ▸ holds.limit
    have first : after.locate storage.uploadsRoot = .ok (uploadsName :: storage.dataRoot) :=
      FS.locate_name (locate_root storage after) root (by decide) (fits_limit bounded (by decide))
    exact FS.locate_name first staging (uuid_is_name uuid)
      (fits_limit bounded (by simp [uuid_length uuid]))
  · intro after becomes
    refine ⟨rfl, ?_, ⟨holds.sound.buckets, ?_⟩, ?_, ?_⟩
    · funext rel
      have suffix := @suffix_place [uploadsName, uploadId] rel storage.dataRoot
      simp only [List.reverse_cons, List.reverse_nil, List.nil_append, List.cons_append] at suffix
      have seen := congrFun holds.seen rel
      unfold under at seen ⊢
      rw [becomes.look, view_dropUpload]
      simp only [suffix, seen]
    · intro other found kept
      exact holds.sound.uploads other found (staged_after_drop kept)
    · rw [becomes.limit]
      exact holds.limit
    · intro other found kept
      rw [becomes.issued]
      exact holds.issued other found (staged_after_drop kept)

theorem abort_refines (holds : Holds crates storage s store) (bucket : Str)
    (uuid : isUuid uploadId = true) :
    wp faultFree (abortMultipartUpload storage bucket uploadId) (fun outcome after =>
      outcome = (store.abortMultipartUpload uploadId).1 ∧
        Holds crates storage after (store.abortMultipartUpload uploadId).2) s := by
  unfold abortMultipartUpload Store.abortMultipartUpload
  rw [wp_bind, wp_attempt]
  cases present : store.staged.lookup uploadId with
  | none =>
      have lost : s.locateDir (storage.uploadDir uploadId) = .error .ENOENT := by
        rcases locate_no_upload holds uuid present with lost | ⟨located, gone⟩
        · exact FS.locateDir_lost lost
        · exact FS.locateDir_absent located gone
      unfold removeDirAll
      simp only [Prog.send_bind, wp_readTree_lost lost]
      exact ⟨rfl, holds⟩
  | some upload =>
      apply wp_mono (wp_remove_upload holds uuid present)
      rintro outcome after ⟨rfl, dropped⟩
      exact ⟨rfl, dropped⟩

/-! Starting an upload. -/

/-- The directory of a new upload; `.uploads` is made with it if need be. -/
theorem wp_createUploadDir (holds : Holds crates storage s store) (uuid : isUuid uploadId = true)
    (absent : store.staged.lookup uploadId = none) {post : Except Errno Unit → FS → Prop}
    (made : ∀ after, Becomes s (Function.update (Function.update s.look
      (uploadsName :: storage.dataRoot) (some .dir))
      (uploadId :: uploadsName :: storage.dataRoot) (some .dir)) after → post (.ok ()) after) :
    wp faultFree (createDirAll (storage.uploadDir uploadId)) post s := by
  have staging := look_uploads holds
  have vacant : s.look (uploadId :: uploadsName :: storage.dataRoot) = none := by
    simp [look_upload holds, absent]
  have short : s.tooLong uploadId = false := fits holds (by simp [uuid_length uuid])
  obtain ⟨_, _, _, slash, _⟩ := name_parts (uuid_is_name uuid)
  unfold createDirAll
  cases uploads : store.uploads with
  | none =>
      rw [uploads] at staging
      have height : (storage.uploadDir uploadId).base.length + (storage.uploadDir uploadId).rel.length =
          (storage.dataRoot.length + 1) + 1 := by
        have dots : '/' ∉ uploadsName := by decide
        simp [FsStorage.uploadDir, FsStorage.uploadsRoot, FsStorage.rootPath, join_name _ slash,
          join_name _ dots]
      rw [height]
      apply (wp_createDir_nested _ (locate_uploads holds) staging (look_root holds)
        (uuid_is_name uuid) short vacant).mpr
      exact made _ ⟨by simp, rfl, rfl⟩
  | some found =>
      rw [uploads] at staging
      have located : s.locate (storage.uploadDir uploadId) =
          .ok (uploadId :: uploadsName :: storage.dataRoot) :=
        FS.locate_name (locate_uploads holds) staging (uuid_is_name uuid) short
      rw [wp_createDir_new _ located vacant staging]
      refine made _ ⟨?_, rfl, rfl⟩
      have already : some FS.Entry.dir = s.look (uploadsName :: storage.dataRoot) := staging.symm
      rw [FS.look_mkdirAt, already, Function.update_eq_self, ← already]

theorem create_upload_refines (holds : Holds crates storage s store)
    (unissued : ∃ name, isUuid name = true ∧ name ∉ s.issued) (bucket key : Str)
    (contentType : Option Str) :
    wp faultFree (createMultipartUpload crates storage bucket key contentType)
      (fun outcome after => ∃ id, isUuid id = true ∧ id ∉ s.issued ∧
        outcome = (store.createMultipartUpload bucket key contentType id).1 ∧
        Holds crates storage after (store.createMultipartUpload bucket key contentType id).2) s := by
  unfold createMultipartUpload Store.createMultipartUpload
  rw [wp_bind, wp_lift]
  obtain ⟨some_id, some_uuid, some_new⟩ := unissued
  cases valid : validateBucketName bucket with
  | error e => exact ⟨some_id, some_uuid, some_new, rfl, holds⟩
  | ok _ =>
  simp only [Prog.send_bind, wp_exists, FS.exists_located (locate_bucket holds valid),
    look_bucket holds valid]
  cases present : store.buckets.lookup bucket with
  | none => exact ⟨some_id, some_uuid, some_new, rfl, holds⟩
  | some old =>
  simp only [Option.map_some, Option.isSome_some, Bool.not_true, Bool.false_eq_true, if_false]
  apply wp_uuid ⟨some_id, some_uuid, some_new⟩
  intro id uuid new
  have absent : store.staged.lookup id = none := by
    by_contra taken
    obtain ⟨upload, taken⟩ := Option.ne_none_iff_exists'.mp taken
    exact new (holds.issued id upload taken)
  have drawn : Holds crates storage { s with issued := id :: s.issued } store :=
    ⟨holds.seen, holds.sound, holds.limit, fun other upload found =>
      List.mem_cons_of_mem id (holds.issued other upload found)⟩
  rw [wp_bind, wp_ioOp]
  apply wp_createUploadDir drawn uuid absent
  intro first becomes
  simp only [Except.mapError]
  have limit : first.nameMax = none ∨ first.nameMax = some 255 := by
    rw [becomes.limit]
    exact holds.limit
  have root : first.look storage.dataRoot = some .dir := by
    rw [becomes.look]
    apply above_update (by simp only [List.length_cons]; omega)
    exact above_update (by simp) (look_root drawn)
  have staging : first.look (uploadsName :: storage.dataRoot) = some .dir := by
    rw [becomes.look]
    exact above_update (by simp) (by simp)
  have inside : first.look (id :: uploadsName :: storage.dataRoot) = some .dir := by
    simp [becomes.look]
  have vacant : ∀ name, first.look (name :: id :: uploadsName :: storage.dataRoot) = none := by
    intro name
    have seen := look_staged drawn id [name]
    have other : name :: id :: uploadsName :: storage.dataRoot ≠ uploadsName :: storage.dataRoot := by
      apply Ne.symm
      exact ne_longer (by simp)
    rw [becomes.look, Function.update_of_ne (by simp), Function.update_of_ne other]
    simpa [absent] using seen
  have area : first.locate storage.uploadsRoot = .ok (uploadsName :: storage.dataRoot) :=
    FS.locate_name (locate_root storage first) root (by decide) (fits_limit limit (by decide))
  have located : first.locate (storage.uploadDir id) = .ok (id :: uploadsName :: storage.dataRoot) :=
    FS.locate_name area staging (uuid_is_name uuid) (fits_limit limit (by simp [uuid_length uuid]))
  have roomy : Roomy first (storage.uploadDir id) (id :: uploadsName :: storage.dataRoot) :=
    ⟨located, inside, fun name temp => fits_limit limit (by simp [temp_length temp]),
      fun name _ => vacant name⟩
  rw [wp_bind]
  apply wp_writeJson roomy (by decide) (by simp [vacant])
  · intro after long
    have short : first.tooLong multipartJsonName = false := fits_limit limit (by decide)
    simp [short] at long
  · intro after _ written
    refine ⟨id, uuid, new, rfl, ?_, ⟨holds.sound.buckets, ?_⟩, ?_, ?_⟩
    · rw [written.look, becomes.look, view_new_upload _ absent, ← holds.seen]
      simp only [under_update_one, under_update_two, under_update_three]
      rfl
    · intro other upload found
      by_cases same : other = id
      · subst same
        have equal : (⟨⟨bucket, key, contentType⟩, ∅⟩ : Upload) = upload := by
          simpa [Store.staged, Store.setUpload] using found
        subst equal
        refine ⟨uuid, valid, ?_⟩
        intro n content present
        simp at present
      · have kept : store.staged.lookup other = some upload := by
          simpa [Store.staged, Store.setUpload, Finmap.lookup_insert_of_ne _ same] using found
        exact holds.sound.uploads other upload kept
    · rw [written.limit]
      exact limit
    · intro other upload found
      rw [written.issued, becomes.issued]
      by_cases same : other = id
      · exact same ▸ List.mem_cons_self
      · have kept : store.staged.lookup other = some upload := by
          simpa [Store.staged, Store.setUpload, Finmap.lookup_insert_of_ne _ same] using found
        exact List.mem_cons_of_mem id (holds.issued other upload kept)

/-! Completing an upload. -/

/-- What copying the listed parts behind `content` leaves in the temporary file. -/
def Joined (upload : Upload) (parts : List Int) (hasher : EtagHasher) (bytesWritten : Nat)
    (before : Bytes) (outcome : Except StorageError (EtagHasher × Nat)) (content : Bytes) : Prop :=
  match Store.assembled upload parts with
  | none => outcome = .error (.Io (.os .ENOENT))
  | some body =>
      outcome = .ok (hasher.update body, bytesWritten + body.length) ∧ content = before ++ body

theorem staged_write {p : Path} {before : Bytes} {t : FS} {handle : Handle} (chunk : Bytes)
    (staged : Staged s p before t) (named : t.node p = some (.file handle)) :
    Staged s p (before ++ chunk) (t.write handle chunk) := by
  obtain ⟨inode, same, held⟩ := FS.look_file.mp (staged_file staged)
  obtain rfl : handle = inode := by simpa [named] using same
  refine ⟨staged.absent, ?_, staged.becomes.limit, staged.becomes.issued⟩
  unfold FS.write
  rw [FS.look_setData t named, held, staged.becomes.look, Function.update_idem]

theorem wp_assembleParts (holds : Holds crates storage s store)
    (uuid : isUuid uploadId = true) {upload : Upload}
    (present : store.staged.lookup uploadId = some upload) {p : Path} {file : Handle}
    (elsewhere : ∀ n, n :: uploadId :: uploadsName :: storage.dataRoot ≠ p) (parts : List Int)
    (fitting : ∀ number ∈ parts, s.tooLong (FsStorage.partName number) = false) (hasher : EtagHasher) (bytesWritten : Nat) (before : Bytes) (t : FS)
    (staged : Staged s p before t) (named : t.node p = some (.file file)) :
    wp faultFree (assembleParts (storage.uploadDir uploadId) file parts hasher bytesWritten)
      (fun outcome after => ∃ content, Staged s p content after ∧
        Joined upload parts hasher bytesWritten before outcome content) t := by
  induction parts generalizing hasher bytesWritten before t with
  | nil =>
      simp only [assembleParts, Prog.send_bind, wp_flush, io, Prog.done_bind, Prog.pure_eq, wp_done]
      exact ⟨before, staged, by simp [Joined, Store.assembled, EtagHasher.update]⟩
  | cons number rest ih =>
      have any := fitting number List.mem_cons_self
      have later := fun other member => fitting other (List.mem_cons_of_mem number member)
      have roomy := roomy_upload holds uuid present
      have placed := staged_locate staged
        (FS.locate_name roomy.located roomy.inside (part_is_name number) any)
      have seen := look_staged holds uploadId [FsStorage.partName number]
      simp only [List.reverse_singleton, List.singleton_append, present, Option.bind_some,
        Upload.view, if_neg (part_not_meta number)] at seen
      have still : t.look (FsStorage.partName number :: uploadId :: uploadsName :: storage.dataRoot) =
          (upload.parts.lookup (FsStorage.partName number)).map .file := by
        rw [staged.becomes.look, Function.update_of_ne (elsewhere _), seen]
      simp only [assembleParts, Prog.send_bind, wp_open]
      cases found : upload.parts.lookup (FsStorage.partName number) with
      | none =>
          rw [found] at still
          simp only [FS.open_absent placed still, io, Prog.fail_bind, wp_fail]
          exact ⟨before, staged, by simp [Joined, Store.assembled, found]⟩
      | some chunk =>
          rw [found] at still
          obtain ⟨inode, part, held⟩ := FS.look_file.mp still
          simp only [FS.open_file placed part, io, Prog.done_bind, wp_read, held, wp_write]
          apply wp_mono (ih later (hasher.update chunk) (bytesWritten + chunk.length) (before ++ chunk)
            (t.write file chunk) (staged_write chunk staged named) named)
          rintro outcome after ⟨content, kept, joined⟩
          refine ⟨content, kept, ?_⟩
          unfold Joined at joined ⊢
          simp only [Store.assembled, found]
          cases body : Store.assembled upload rest with
          | none =>
              rw [body] at joined
              exact joined
          | some later =>
              rw [body] at joined
              simpa [EtagHasher.update, Nat.add_assoc, List.append_assoc] using joined

theorem setBucket_same {name : Str} {bucket : Bucket}
    (present : store.buckets.lookup name = some bucket) : store.setBucket name bucket = store := by
  have same : store.buckets.insert name bucket = store.buckets := by
    apply Finmap.ext_lookup
    intro other
    by_cases here : other = name
    · subst here
      rw [Finmap.lookup_insert, present]
    · rw [Finmap.lookup_insert_of_ne _ here]
  unfold Store.setBucket
  rw [same]

theorem bare_sound {name : Str} (valid : validateBucketName name = .ok ()) :
    Bucket.bare.Sound name := by
  refine ⟨valid, ?_, ?_, ?_⟩
  · rintro info ⟨⟩
  · intro n body present
    simp [Bucket.bare] at present
  · rintro sidecars n objectMeta ⟨⟩

/-- `complete` makes the objects directory when the bucket is gone, and with it the
directory of the bucket. -/
theorem wp_createObjectsDir (holds : Holds crates storage s store) {bucket : Str}
    (valid : validateBucketName bucket = .ok ()) {post : Except Errno Unit → FS → Prop}
    (made : ∀ after, after.nameMax = s.nameMax → Holds crates storage after
      (store.setBucket bucket ((store.buckets.lookup bucket).getD .bare)) → post (.ok ()) after) :
    wp faultFree (createDirAll (storage.objectsDir bucket)) post s := by
  unfold createDirAll
  cases present : store.buckets.lookup bucket with
  | some old =>
      rw [wp_createDir_present _ (locate_objects holds valid present)
        (look_objects holds valid present)]
      apply made s rfl
      simpa [present, setBucket_same present] using holds
  | none =>
      have gone : s.look (bucket :: storage.dataRoot) = none := by
        simp [look_bucket holds valid, present]
      have vacant : s.look (objectsName :: bucket :: storage.dataRoot) = none := by
        have seen := look_below holds valid [objectsName]
        simpa [present] using seen
      obtain ⟨_, _, _, slash, _⟩ := name_parts (bucket_is_name valid)
      have height : (storage.objectsDir bucket).base.length + (storage.objectsDir bucket).rel.length =
          (storage.dataRoot.length + 1) + 1 := by
        have dots : '/' ∉ objectsName := by decide
        simp [FsStorage.objectsDir, FsStorage.bucketPath, FsStorage.rootPath, join_name _ slash,
          join_name _ dots]
      rw [height]
      apply (wp_createDir_nested _ (locate_bucket holds valid) gone (look_root holds) (by decide)
        (fits holds (by decide)) vacant).mpr
      refine made _ rfl ?_
      rw [present, Option.getD_none]
      apply holds_buckets holds
      · rw [view_bare_bucket (bucket_not_uploads valid) present, ← holds.seen]
        simp only [FS.look_mkdirAt, under_update_one, under_update_two]
      · exact (sound_setBucket holds.sound (bare_sound valid)).buckets
      · rfl
      · rfl
      · rfl

theorem contents_record (holds : Holds crates storage s store) (uuid : isUuid uploadId = true) :
    fileContents s ((storage.uploadDir uploadId).join multipartJsonName) =
      match store.staged.lookup uploadId with
      | none => .error .ENOENT
      | some upload => .ok (crates.multipartMeta.encode upload.record) := by
  cases present : store.staged.lookup uploadId with
  | none =>
      rcases locate_no_upload holds uuid present with lost | ⟨located, gone⟩
      · exact contents_lost (FS.locate_name_lost lost (by decide))
      · exact contents_lost (FS.locate_name_absent located gone (by decide))
  | some upload =>
      have roomy := roomy_upload holds uuid present
      have placed := FS.locate_name roomy.located roomy.inside (by decide)
        (fits holds (by decide) : s.tooLong multipartJsonName = false)
      have seen := look_staged holds uploadId [multipartJsonName]
      exact contents_file placed (by simpa [present, Upload.view] using seen)

/-- Completing on a file system that may limit names: the record of a long key cannot be
written when the body is already in place. -/
def Store.completeWithin (store : Store) (crates : Crates) (storage : FsStorage) (nameMax : Option Nat)
    (key uploadId : Str) (parts : List Int) (time : Nat) : Except StorageError ObjectMeta × Store :=
  match store.staged.lookup uploadId with
  | none =>
      (.error (.NoSuchUpload ((storage.uploadDir uploadId).join multipartJsonName).display), store)
  | some upload =>
      let bucket := upload.record.bucket
      let old := (store.buckets.lookup bucket).getD .bare
      match encodeKey key with
      | .error e => (.error e, store.setBucket bucket old)
      | .ok encoded =>
      match Store.assembled upload (parts.insertionSort (· ≤ ·)) with
      | none => (.error (.Io (.os .ENOENT)), store.setBucket bucket old)
      | some body =>
          if key = [] then (.error (.Io (.os .EISDIR)), store.setBucket bucket old)
          else
            let placed := { old with objects := old.objects.insert encoded body }
            match old.sidecars with
            | none => (.error (.Io (.os .ENOENT)), store.setBucket bucket placed)
            | some sidecars =>
                if exceeds nameMax (FsStorage.sidecarName encoded) then
                  (.error (.Io (.os .ENAMETOOLONG)), store.setBucket bucket placed)
                else
                  let objectMeta : ObjectMeta :=
                    ⟨upload.record.key, body.length,
                      upload.record.contentType.getD defaultContentType,
                      hexMd5 crates body ++ '-' :: (toString parts.length).toList, time⟩
                  (.ok objectMeta, (store.setBucket bucket { placed with
                    sidecars := some (sidecars.insert (FsStorage.sidecarName encoded) objectMeta) }
                    ).dropUpload uploadId)

theorem complete_unlimited (key uploadId : Str) (parts : List Int) (time : Nat) :
    store.completeWithin crates storage none key uploadId parts time =
      store.completeMultipartUpload crates storage key uploadId parts time := by
  unfold Store.completeWithin Store.completeMultipartUpload
  cases store.staged.lookup uploadId with
  | none => rfl
  | some upload =>
      cases encodeKey key with
      | error e => rfl
      | ok encoded =>
          cases Store.assembled upload (parts.insertionSort (· ≤ ·)) with
          | none => rfl
          | some body =>
              cases ((store.buckets.lookup upload.record.bucket).getD .bare).sidecars with
              | none => rfl
              | some sidecars => rfl

/-- What completing does before it removes the staging directory. -/
def installUpload (crates : Crates) (storage : FsStorage) (key uploadId : Str) (parts : List Int) :
    Op ObjectMeta := do
  let uploadDir := storage.uploadDir uploadId
  let mpMeta ← readMultipartMeta crates (uploadDir.join multipartJsonName)
  let sortedParts := parts.insertionSort (· ≤ ·)
  let partCount := sortedParts.length
  let objectsDir := storage.objectsDir mpMeta.bucket
  ioOp (createDirAll objectsDir)
  let encodedKey ← lift (encodeKey key)
  let (hasher, size) ←
    installFile objectsDir (fun file => assembleParts uploadDir file sortedParts .new 0)
      (objectsDir.join encodedKey)
  let assembledEtag := hasher.finalize crates ++ '-' :: (toString partCount).toList
  let lastModified ← Sys.now
  let objMeta : ObjectMeta :=
    ⟨mpMeta.key, size, mpMeta.contentType.getD defaultContentType, assembledEtag, lastModified⟩
  writeSidecar crates (storage.metaPath mpMeta.bucket encodedKey) objMeta
  pure objMeta

theorem complete_steps (crates : Crates) (storage : FsStorage) (bucket key uploadId : Str)
    (parts : List Int) :
    completeMultipartUpload crates storage bucket key uploadId parts =
      (do
        let objMeta ← installUpload crates storage key uploadId parts
        let _ ← (removeDirAll (storage.uploadDir uploadId)).attempt
        pure objMeta) := by
  unfold completeMultipartUpload installUpload
  simp only [Prog.bind_assoc, Prog.pure_eq, Prog.done_bind]

/-- When all is in place the upload is still there, and what is left to do is to drop it. -/
theorem install_refines (holds : Holds crates storage s store)
    (key : Str) (uuid : isUuid uploadId = true) (parts : List Int)
    (fitting : ∀ number ∈ parts, s.tooLong (FsStorage.partName number) = false) :
    wp faultFree (installUpload crates storage key uploadId parts)
      (fun outcome after => ∃ time,
        outcome = (store.completeWithin crates storage s.nameMax key uploadId parts time).1 ∧
        match outcome with
        | .error _ => Holds crates storage after
            (store.completeWithin crates storage s.nameMax key uploadId parts time).2
        | .ok _ => ∃ placed upload, Holds crates storage after placed ∧
            store.staged.lookup uploadId = some upload ∧ placed.staged.lookup uploadId = some upload ∧
            (store.completeWithin crates storage s.nameMax key uploadId parts time).2 =
              placed.dropUpload uploadId) s := by
  unfold installUpload Store.completeWithin readMultipartMeta
  rw [wp_bind, wp_readJson, contents_record holds uuid]
  cases present : store.staged.lookup uploadId with
  | none => exact ⟨0, rfl, holds⟩
  | some upload =>
  simp only [readOutcome, Codec.decode_encode, Except.mapError]
  have valid := (holds.sound.uploads uploadId upload present).2.valid
  rw [wp_bind, wp_ioOp]
  apply wp_createObjectsDir holds valid
  intro first limit ready
  simp only [Except.mapError]
  generalize found : (store.buckets.lookup upload.record.bucket).getD .bare = old at ready ⊢
  have again : (store.setBucket upload.record.bucket old).buckets.lookup upload.record.bucket =
      some old := by simp [Store.setBucket]
  have still : (store.setBucket upload.record.bucket old).staged.lookup uploadId = some upload :=
    present
  rw [wp_bind, wp_lift]
  cases admitted : encodeKey key with
  | error e => exact ⟨0, rfl, ready⟩
  | ok encoded =>
  simp only []
  have roomy := roomy_objects ready valid again
  have fills : ∀ name, isTempName name = true →
      first.look (name :: objectsName :: upload.record.bucket :: storage.dataRoot) = none →
      wp faultFree (assembleParts (storage.uploadDir uploadId) first.nextInode
        (parts.insertionSort (· ≤ ·)) .new 0) (fun outcome after => ∃ content,
          Staged first (name :: objectsName :: upload.record.bucket :: storage.dataRoot) content after ∧
          Joined upload (parts.insertionSort (· ≤ ·)) .new 0 [] outcome content)
        (first.newFile (name :: objectsName :: upload.record.bucket :: storage.dataRoot)) := by
    intro name _ absent
    apply wp_assembleParts ready uuid still
    · intro n same
      have names := List.cons.inj (List.cons.inj (List.cons.inj same).2).2
      exact bucket_not_uploads valid names.1.symm
    · intro number member
      have listed := (List.mem_insertionSort _).mp member
      rw [FS.tooLong, limit]
      exact fitting number listed
    · have empty : (first.newFile (name :: objectsName :: upload.record.bucket ::
          storage.dataRoot)).setData first.nextInode [] =
          first.newFile (name :: objectsName :: upload.record.bucket :: storage.dataRoot) := by
        have held : (first.newFile (name :: objectsName :: upload.record.bucket ::
            storage.dataRoot)).data first.nextInode = [] := by simp
        rw [← held, setData_same]
      rw [← empty]
      exact staged_setData absent []
    · simp
  rw [wp_bind]
  by_cases empty : key = []
  · subst empty
    obtain rfl : encoded = [] := (encoded_nil admitted).mpr rfl
    have directory := look_objects ready valid again
    apply wp_installFile roomy (lands_located (locate_empty_key ready valid again)) fills
    · rintro e content after joined becomes
      unfold Joined at joined
      cases body : Store.assembled upload (parts.insertionSort (· ≤ ·)) with
      | none =>
          simp only [body] at joined ⊢
          cases joined
          exact ⟨0, rfl, holds_same ready becomes⟩
      | some whole => simp [body] at joined
    · rintro e value content after joined reason becomes
      unfold Joined at joined
      cases body : Store.assembled upload (parts.insertionSort (· ≤ ·)) with
      | none => simp [body] at joined
      | some whole =>
          rcases reason with lost | ⟨rfl, -⟩
          · cases lost
          · simp only [if_true]
            exact ⟨0, trivial, holds_same ready becomes⟩
    · rintro found value content after same free
      cases same
      exact absurd directory free
  · have object : IsObjectName encoded := ⟨key, empty, admitted⟩
    have sound := ready.sound.buckets upload.record.bucket old again
    apply wp_installFile roomy
      (lands_located (locate_object_of_key ready valid again admitted empty)) fills
    · rintro e content after joined becomes
      unfold Joined at joined
      cases body : Store.assembled upload (parts.insertionSort (· ≤ ·)) with
      | none =>
          simp only [body] at joined ⊢
          cases joined
          exact ⟨0, rfl, holds_same ready becomes⟩
      | some whole => simp [body] at joined
    · rintro e value content after joined reason becomes
      rcases reason with lost | ⟨rfl, found, same, directory⟩
      · cases lost
      · cases same
        exact absurd directory (object_not_dir ready valid again encoded)
    · rintro found value content after same free joined becomes
      cases same
      unfold Joined at joined
      cases assembly : Store.assembled upload (parts.insertionSort (· ≤ ·)) with
      | none => simp [assembly] at joined
      | some body =>
          simp only [assembly, List.nil_append, Nat.zero_add] at joined
          obtain ⟨outcome, rfl⟩ := joined
          cases outcome
          simp only [if_neg empty]
          have stored := sound_insert_object content sound object
          have body_holds := holds_change ready again (view_insert_object crates old encoded content)
            stored becomes
          have present_body : ((store.setBucket upload.record.bucket old).setBucket
              upload.record.bucket { old with objects := old.objects.insert encoded content }
              ).buckets.lookup upload.record.bucket =
              some { old with objects := old.objects.insert encoded content } := by
            simp [Store.setBucket]
          simp only [Prog.send_bind]
          apply wp_now
          intro time
          rw [wp_bind]
          apply wp_writeSidecar body_holds valid present_body admitted empty
          · intro (kept : old.sidecars = none)
            simp only [kept]
            refine ⟨time, trivial, ?_⟩
            rw [kept] at body_holds
            simpa [Store.setBucket] using body_holds
          · intro sidecars final (kept : old.sidecars = some sidecars) long still
            rw [becomes.limit, limit] at long
            rw [kept] at still
            simp only [kept, long, if_true]
            refine ⟨time, trivial, ?_⟩
            simpa [Store.setBucket] using still
          · intro sidecars final (kept : old.sidecars = some sidecars) short written
            rw [becomes.limit, limit] at short
            simp only [kept, short, Bool.false_eq_true, if_false]
            refine ⟨time, ?_, _, upload, written, rfl, present, ?_⟩
            · simp [EtagHasher.finalize, EtagHasher.update, EtagHasher.new]
            · simp [Store.setBucket, Store.dropUpload, EtagHasher.finalize, EtagHasher.update,
                EtagHasher.new]

theorem complete_within_refines (holds : Holds crates storage s store)
    (bucket key : Str) (uuid : isUuid uploadId = true) (parts : List Int)
    (fitting : ∀ number ∈ parts, s.tooLong (FsStorage.partName number) = false) :
    wp faultFree (completeMultipartUpload crates storage bucket key uploadId parts)
      (fun outcome after => ∃ time,
        outcome = (store.completeWithin crates storage s.nameMax key uploadId parts time).1 ∧
        Holds crates storage after
          (store.completeWithin crates storage s.nameMax key uploadId parts time).2) s := by
  rw [complete_steps, wp_bind]
  apply wp_mono (install_refines holds key uuid parts fitting)
  rintro outcome after ⟨time, same, placed⟩
  cases outcome with
  | error e => exact ⟨time, same, placed⟩
  | ok objMeta =>
      obtain ⟨store', upload, installed, _, live, dropped⟩ := placed
      simp only []
      rw [wp_bind, wp_attempt]
      apply wp_mono (wp_remove_upload installed uuid live)
      rintro _ last ⟨-, gone⟩
      refine ⟨time, same, ?_⟩
      rw [dropped]
      exact gone

theorem complete_refines (holds : Holds crates storage s store) (unlimited : s.nameMax = none)
    (bucket key : Str) (uuid : isUuid uploadId = true) (parts : List Int) :
    wp faultFree (completeMultipartUpload crates storage bucket key uploadId parts)
      (fun outcome after => ∃ time,
        outcome = (store.completeMultipartUpload crates storage key uploadId parts time).1 ∧
        Holds crates storage after
          (store.completeMultipartUpload crates storage key uploadId parts time).2) s := by
  have fitting : ∀ number ∈ parts, s.tooLong (FsStorage.partName number) = false := by
    intro number _
    simp [FS.tooLong, unlimited, exceeds]
  have refined := complete_within_refines holds bucket key uuid parts fitting
  simpa only [unlimited, complete_unlimited] using refined

end Parts

end Ferrobucket
