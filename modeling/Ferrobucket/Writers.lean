import Ferrobucket.Lib.Sharing
import Ferrobucket.Refinement
/-! Requests that write beside each other. All of them make their temporary files in the
directories of buckets and rename them to names that no temporary file has; here is what
the shared helpers do to the ghost of their thread, for any property of the other files. -/
namespace Ferrobucket
open Text Posix Program

section Places
variable (storage : FsStorage)

def objectsPlace (bucket : Str) : Path := objectsName :: bucket :: storage.dataRoot

def metaPlace (bucket : Str) : Path := metaName :: bucket :: storage.dataRoot

def bodyPlace (bucket encoded : Str) : Path := encoded :: objectsPlace storage bucket

def sidecarPlace (bucket encoded : Str) : Path :=
  FsStorage.sidecarName encoded :: metaPlace storage bucket

/-- Where the requests on buckets make their temporary files. -/
def Staging (dir : Path) : Prop :=
  ∃ bucket, validateBucketName bucket = .ok () ∧
    (dir = objectsPlace storage bucket ∨ dir = metaPlace storage bucket)

/-- The records of buckets, which are written in place. -/
def BucketRecord (path : Path) : Prop :=
  ∃ bucket, validateBucketName bucket = .ok () ∧ path = bucketJsonName :: bucket :: storage.dataRoot

end Places

section Naming
variable {storage : FsStorage} {nameMax : Option Nat} {bucket key encoded name : Str} {s : FS}
variable (limit : nameMax = none ∨ nameMax = some 255)

include limit in
theorem exceeds_fits (short : utf8Len name ≤ 255) : exceeds nameMax name = false := by
  rcases limit with rfl | rfl
  · rfl
  · simp [exceeds, short]

theorem reaches_root : Reaches nameMax storage.rootPath storage.dataRoot :=
  ⟨fun _ _ _ _ => rfl, fun _ _ located => (Except.ok.inj located).symm⟩

include limit in
theorem reaches_bucket (valid : validateBucketName bucket = .ok ()) :
    Reaches nameMax (storage.bucketPath bucket) (bucket :: storage.dataRoot) := by
  have short := exceeds_fits limit (le_trans (bucket_name_facts valid).2.1 (by decide))
  exact reaches_join reaches_root (bucket_is_name valid) short

include limit in
theorem reaches_objects (valid : validateBucketName bucket = .ok ()) :
    Reaches nameMax (storage.objectsDir bucket) (objectsPlace storage bucket) :=
  reaches_join (reaches_bucket limit valid) (by decide) (exceeds_fits limit (by decide))

include limit in
theorem reaches_meta (valid : validateBucketName bucket = .ok ()) :
    Reaches nameMax (storage.metaDir bucket) (metaPlace storage bucket) :=
  reaches_join (reaches_bucket limit valid) (by decide) (exceeds_fits limit (by decide))

theorem encoded_object (admitted : encodeKey key = .ok encoded) (nonempty : encoded ≠ []) :
    IsObjectName encoded :=
  ⟨key, fun empty => nonempty ((encoded_nil admitted).mpr empty), admitted⟩

theorem object_not_temp (object : IsObjectName name) : isTempName name = false := by
  by_contra temp
  simp only [Bool.not_eq_false] at temp
  exact object_head object (temp_head temp)

theorem sidecar_not_temp (admitted : encodeKey key = .ok encoded) :
    isTempName (FsStorage.sidecarName encoded) = false := by
  by_cases empty : encoded = []
  · subst empty
    decide
  · by_contra temp
    simp only [Bool.not_eq_false] at temp
    exact sidecar_head (encoded_object admitted empty) (temp_head temp)

theorem not_isTemp {dir : Path} (lasting : isTempName name = false) :
    ¬ IsTemp (Staging storage) (name :: dir) := by
  rintro ⟨temp, other, same, named, _⟩
  obtain rfl := (List.cons.inj same).1
  rw [lasting] at named
  cases named

/-- A path of a name that is not temporary is not the path of a temporary file. -/
theorem not_temporary {dir : PathBuf} (good : isName name = true) (lasting : isTempName name = false) :
    ¬ (dir.join name).Temporary := by
  rintro ⟨other, temp, named, same⟩
  obtain ⟨_, _, _, slash, _⟩ := name_parts good
  obtain ⟨_, _, _, tempSlash, _⟩ := name_parts (temp_is_name named)
  rw [join_name dir slash, join_name other tempSlash] at same
  have equal := congrArg (fun path => path.rel.getLast?) same
  simp only [List.getLast?_concat, Option.some.injEq] at equal
  rw [equal, named] at lasting
  cases lasting

/-- No body and no sidecar is the record of a bucket. -/
theorem not_bucketRecord {top : Str} : ¬ BucketRecord storage (name :: top :: bucket :: storage.dataRoot) := by
  rintro ⟨other, _, same⟩
  have lengths := congrArg List.length same
  simp only [List.length_cons] at lengths
  omega

/-- What the path of a body leads to: a name in the objects directory, or for the empty key
that directory itself. -/
theorem located_object {place : Path} (valid : validateBucketName bucket = .ok ())
    (admitted : encodeKey key = .ok encoded)
    (located : s.locate (storage.objectPath bucket encoded) = .ok place) :
    s.look (objectsPlace storage bucket) = some .dir ∧
      (IsObjectName encoded ∧ place = bodyPlace storage bucket encoded ∨
        encoded = [] ∧ place = objectsPlace storage bucket) := by
  have reaches : Reaches none (storage.objectsDir bucket) (objectsPlace storage bucket) :=
    reaches_objects (.inl rfl) valid
  by_cases empty : encoded = []
  · subst empty
    have split : s.locate (storage.objectPath bucket []) =
        (s.locate (storage.objectsDir bucket)).bind fun found => s.walk found [[]] :=
      FS.locate_part _ (by simp) (by simp)
    rw [split] at located
    cases upper : s.locate (storage.objectsDir bucket) with
    | error e =>
        rw [upper] at located
        cases located
    | ok dir =>
        obtain rfl := reaches.only s dir upper
        simp only [upper, Except.bind, FS.walk, true_or, if_true] at located
        split at located
        · cases located
        · cases located
        · next inside => exact ⟨FS.look_dir.mpr inside, .inr ⟨rfl, (Except.ok.inj located).symm⟩⟩
  · have object := encoded_object admitted empty
    obtain ⟨same, inside, _⟩ := located_in reaches (object_is_name object) located
    exact ⟨inside, .inl ⟨object, same⟩⟩

theorem located_sidecar {place : Path} (valid : validateBucketName bucket = .ok ())
    (admitted : encodeKey key = .ok encoded)
    (located : s.locate (storage.metaPath bucket encoded) = .ok place) :
    place = sidecarPlace storage bucket encoded ∧ s.look (metaPlace storage bucket) = some .dir ∧
      s.tooLong (FsStorage.sidecarName encoded) = false := by
  have reaches : Reaches none (storage.metaDir bucket) (metaPlace storage bucket) :=
    reaches_meta (.inl rfl) valid
  exact located_in reaches (encoded_sidecar_is_name admitted) located

/-- The path of a body is found when the objects directory is there. -/
theorem locate_body (tree : s.Tree) (limited : s.nameMax = none ∨ s.nameMax = some 255)
    (valid : validateBucketName bucket = .ok ()) (admitted : encodeKey key = .ok encoded)
    (inside : s.look (objectsPlace storage bucket) = some .dir) :
    s.locate (storage.objectPath bucket encoded) =
      .ok (if encoded = [] then objectsPlace storage bucket else bodyPlace storage bucket encoded) := by
  have dir := (reaches_objects limited valid).there s tree rfl inside
  by_cases empty : encoded = []
  · subst empty
    have split : s.locate (storage.objectPath bucket []) =
        (s.locate (storage.objectsDir bucket)).bind fun found => s.walk found [[]] :=
      FS.locate_part _ (by simp) (by simp)
    rw [split, dir, if_pos rfl]
    exact FS.walk_stay [] inside
  · have object := encoded_object admitted empty
    rw [if_neg empty]
    exact FS.locate_name dir inside (object_is_name object)
      (exceeds_fits limited (object_name_parts object).2.2)

/-- The path of a sidecar is found when the sidecar directory is there, unless its name is too
long. -/
theorem locate_meta_path (tree : s.Tree) (limited : s.nameMax = none ∨ s.nameMax = some 255)
    (valid : validateBucketName bucket = .ok ()) (admitted : encodeKey key = .ok encoded)
    (inside : s.look (metaPlace storage bucket) = some .dir) :
    s.locate (storage.metaPath bucket encoded) =
      if exceeds s.nameMax (FsStorage.sidecarName encoded) then .error .ENAMETOOLONG
      else .ok (sidecarPlace storage bucket encoded) := by
  have dir := (reaches_meta limited valid).there s tree rfl inside
  have good := encoded_sidecar_is_name admitted
  split_ifs with long
  · exact FS.locate_name_long dir inside good long
  · exact FS.locate_name dir inside good (by simpa [FS.tooLong] using long)

end Naming
/-! ### Places of different keys -/

section Places
variable {storage : FsStorage} {bucket other encoded name key : Str}

theorem bodyPlace_injective (same : bodyPlace storage bucket encoded = bodyPlace storage other name) :
    bucket = other ∧ encoded = name := by
  simp only [bodyPlace, objectsPlace, List.cons.injEq, and_true, true_and] at same
  exact ⟨same.2, same.1⟩

theorem sidecarPlace_injective
    (same : sidecarPlace storage bucket encoded = sidecarPlace storage other name) :
    bucket = other ∧ encoded = name := by
  simp only [sidecarPlace, metaPlace, List.cons.injEq, and_true, true_and] at same
  exact ⟨same.2, sidecar_injective same.1⟩

theorem body_not_sidecar : bodyPlace storage bucket encoded ≠ sidecarPlace storage other name := by
  intro same
  simp only [bodyPlace, objectsPlace, sidecarPlace, metaPlace, List.cons.injEq] at same
  exact objects_not_meta same.2.1

theorem encoded_not_temp (admitted : encodeKey key = .ok encoded) : isTempName encoded = false := by
  by_cases empty : encoded = []
  · subst empty
    rfl
  · exact object_not_temp (encoded_object admitted empty)

theorem body_not_isTemp (admitted : encodeKey key = .ok encoded) :
    ¬ IsTemp (Staging storage) (bodyPlace storage bucket encoded) :=
  not_isTemp (encoded_not_temp admitted)

theorem sidecar_not_isTemp (admitted : encodeKey key = .ok encoded) :
    ¬ IsTemp (Staging storage) (sidecarPlace storage bucket encoded) :=
  not_isTemp (sidecar_not_temp admitted)

end Places

/-- What the requests on buckets go by, from the state they begin in. -/
def bucketTerms (storage : FsStorage) (start : FS)
    (limit : start.nameMax = none ∨ start.nameMax = some 255) : Terms where
  nameMax := start.nameMax
  staging := Staging storage
  rough := BucketRecord storage
  litter := start.look
  short := fun name temp => exceeds_fits limit (by simp [temp_length temp])
  smooth := by
    rintro _ ⟨name, _, rfl, _, bucket, _, rfl | rfl⟩
    · exact not_bucketRecord
    · exact not_bucketRecord

/-- Nobody holds anything yet. -/
theorem apart_start {Thread : Type} {storage : FsStorage} {start : FS} (tree : start.Tree)
    (limit : start.nameMax = none ∨ start.nameMax = some 255) :
    Apart (bucketTerms storage start limit) (fun _ : Thread => .nothing) start where
  limit := rfl
  tree := tree
  sound := fun _ => trivial
  apart := nofun
  strays := fun _ _ => .inl rfl

/-! ### The helpers of fs.rs -/

section Helpers
variable {Thread Stage : Type} [DecidableEq Thread] {terms : Terms}
  {Extra : (Thread → Stage) → List (Event Thread Reply) → FS → Prop} {thread : Thread} {stage : Stage}

/-- A file is filled under a temporary name and gets its final name, or is removed again.
`filled` says what the filling program leaves with each of its outcomes. -/
theorem keeps_installFile {Value : Type} {dir target : PathBuf} {place : Path} {fill : Handle → Op Value}
    {filled : Except StorageError Value → Bytes → Prop}
    {post : Ghost Stage → Except StorageError Value → Prop} (robust : Robust terms Extra)
    (reaches : Reaches terms.nameMax dir place) (staging : terms.staging place)
    (fills : ∀ file : Temp, Keeps terms Extra thread (fill file.inode) (fun ghost outcome =>
      ∃ content, ghost = ⟨stage, .writing file content⟩ ∧ filled outcome content)
      ⟨stage, .writing file []⟩)
    (lost : ∀ world s name e, Here terms Extra thread world ⟨stage, .nothing⟩ s →
      s.look place ≠ some .dir → isTempName name = true → s.locate (dir.join name) = .error e →
      post ⟨stage, .nothing⟩ (.error (.Io (.os e))))
    (failed : ∀ e content, filled (.error e) content → post ⟨stage, .nothing⟩ (.error e))
    (refused : ∀ world s file content value e, filled (.ok value) content → s.look place = some .dir →
      Here terms Extra thread world ⟨stage, .writing file content⟩ s → Refuses s target e →
      post ⟨stage, .nothing⟩ (.error (.Io (.os e))))
    (renamed : ∀ world s file content value found, filled (.ok value) content →
      Here terms Extra thread world ⟨stage, .writing file content⟩ s →
      s.locate target = .ok found → s.look found ≠ some .dir →
      ∃ stage', s.look found.tail = some .dir ∧ ¬ IsTemp terms.staging found ∧ ¬ terms.rough found ∧
        Extra (stagesWith world thread stage') (world.2 ++ [⟨thread, .rename file.name target, .ok ()⟩])
          (s.move file.place found) ∧ post ⟨stage', .nothing⟩ (.ok value)) :
    Keeps terms Extra thread (installFile dir fill target) post ⟨stage, .nothing⟩ := by
  rw [install_steps]
  apply keeps_tempfile robust reaches staging
  · intro file inside
    have dropped : ∀ (error : StorageError) content, post ⟨stage, .nothing⟩ (.error error) →
        Keeps terms Extra thread (.call (.unlink file.name) fun _ => .fail error : Op Value) post
          ⟨stage, .writing file content⟩ :=
      fun error content ended => keeps_discard robust ended
    refine tracks_bind.mpr (tracks_attempt.mpr (tracks_mono (fills file) ?_))
    rintro _ outcome ⟨content, rfl, done⟩
    cases outcome with
    | error error => exact dropped error content (failed error content done)
    | ok value =>
        apply keeps_rename robust
        · intro world s found here arrival free
          exact renamed world s file content value found done here arrival free
        · intro world s e here why
          obtain ⟨_, dir, _, _, _, _, _, placed⟩ := (own_sound here.apart).made
          have parent := here.apart.tree file.place (by simp [placed]) (by simp [own_look here.apart])
          rw [inside] at parent
          exact dropped _ content (refused world s file content value e done parent here why)
  · exact fun world s name e here absent temp located => lost world s name e here absent temp located

theorem keeps_stream (robust : Robust terms Extra) (file : Temp) (body : Body) (hasher : EtagHasher)
    (bytesWritten : Nat) (before : Bytes) :
    Keeps terms Extra thread (streamToFile file.inode body hasher bytesWritten) (fun ghost outcome =>
      ghost = ⟨stage, .writing file (before ++ delivered body)⟩ ∧
        outcome = match failure body with
          | none => .ok (hasher.update (delivered body), bytesWritten + (delivered body).length)
          | some e => .error (.Io e)) ⟨stage, .writing file before⟩ := by
  induction body generalizing hasher bytesWritten before with
  | nil =>
      apply keeps_look robust rfl
      rintro world s reply here ⟨choice, performed⟩
      cases performed
      exact ⟨by simp [delivered], by simp [delivered, failure, EtagHasher.update]⟩
  | cons piece rest ih =>
      cases piece with
      | error e => exact ⟨by simp [delivered], rfl⟩
      | ok chunk =>
          apply keeps_write robust
          apply tracks_mono (ih (hasher.update chunk) (bytesWritten + chunk.length) (before ++ chunk))
          rintro ghost outcome ⟨rfl, rfl⟩
          refine ⟨by simp [delivered, List.append_assoc], ?_⟩
          simp [delivered, failure, EtagHasher.update, Nat.add_assoc, List.append_assoc]

variable {crates : Crates} {storage : FsStorage} {bucket encoded : Str}

/-- A body is installed whole, or nothing has happened to any other file. -/
theorem keeps_writeObjectBody {body : Body} {post : Ghost Stage → Except StorageError (Str × Nat) → Prop}
    (robust : Robust terms Extra)
    (reaches : Reaches terms.nameMax (storage.objectsDir bucket) (objectsPlace storage bucket))
    (staging : terms.staging (objectsPlace storage bucket))
    (lost : ∀ world s name e, Here terms Extra thread world ⟨stage, .nothing⟩ s →
      s.look (objectsPlace storage bucket) ≠ some .dir → isTempName name = true →
      s.locate ((storage.objectsDir bucket).join name) = .error e →
      post ⟨stage, .nothing⟩ (.error (.Io (.os e))))
    (failed : ∀ e, failure body = some e → post ⟨stage, .nothing⟩ (.error (.Io e)))
    (refused : ∀ world s file e, failure body = none → s.look (objectsPlace storage bucket) = some .dir →
      Here terms Extra thread world ⟨stage, .writing file (delivered body)⟩ s →
      Refuses s (storage.objectPath bucket encoded) e → post ⟨stage, .nothing⟩ (.error (.Io (.os e))))
    (renamed : ∀ world s file found, failure body = none →
      Here terms Extra thread world ⟨stage, .writing file (delivered body)⟩ s →
      s.locate (storage.objectPath bucket encoded) = .ok found → s.look found ≠ some .dir →
      ∃ stage', s.look found.tail = some .dir ∧ ¬ IsTemp terms.staging found ∧ ¬ terms.rough found ∧
        Extra (stagesWith world thread stage')
          (world.2 ++ [⟨thread, .rename file.name (storage.objectPath bucket encoded), .ok ()⟩])
          (s.move file.place found) ∧
        post ⟨stage', .nothing⟩ (.ok (hexMd5 crates (delivered body), (delivered body).length))) :
    Keeps terms Extra thread (writeObjectBody crates (storage.objectsDir bucket) encoded body) post
      ⟨stage, .nothing⟩ := by
  unfold writeObjectBody
  refine tracks_bind.mpr ?_
  have fills : ∀ file : Temp, Keeps terms Extra thread (streamToFile file.inode body .new 0)
      (fun ghost outcome => ∃ content, ghost = ⟨stage, .writing file content⟩ ∧
        Streamed body outcome content) ⟨stage, .writing file []⟩ := by
    intro file
    apply tracks_mono (keeps_stream robust file body .new 0 [])
    rintro ghost outcome ⟨rfl, rfl⟩
    refine ⟨delivered body, by simp, rfl, ?_⟩
    cases failure body with
    | none => simp [EtagHasher.update, EtagHasher.new]
    | some e => rfl
  apply keeps_installFile robust reaches staging fills
  · exact lost
  · rintro e content ⟨rfl, outcome⟩
    cases broken : failure body with
    | none => simp [broken] at outcome
    | some error =>
        rw [broken] at outcome
        cases outcome
        exact failed error broken
  · rintro world s file content value e ⟨rfl, outcome⟩ parent here why
    cases broken : failure body with
    | some error => simp [broken] at outcome
    | none => exact refused world s file e broken parent here why
  · rintro world s file content value found ⟨rfl, outcome⟩ here arrival free
    cases broken : failure body with
    | some error => simp [broken] at outcome
    | none =>
        rw [broken] at outcome
        cases outcome
        exact renamed world s file found broken here arrival free

/-- A sidecar is written whole. -/
theorem keeps_writeSidecar {key : Str} {objectMeta : ObjectMeta}
    {post : Ghost Stage → Except StorageError Unit → Prop} (robust : Robust terms Extra)
    (admitted : encodeKey key = .ok encoded)
    (reaches : Reaches terms.nameMax (storage.metaDir bucket) (metaPlace storage bucket))
    (staging : terms.staging (metaPlace storage bucket))
    (lost : ∀ world s name e, Here terms Extra thread world ⟨stage, .nothing⟩ s →
      s.look (metaPlace storage bucket) ≠ some .dir → isTempName name = true →
      s.locate ((storage.metaDir bucket).join name) = .error e →
      post ⟨stage, .nothing⟩ (.error (.Io (.os e))))
    (refused : ∀ world s file e, s.look (metaPlace storage bucket) = some .dir →
      Here terms Extra thread world ⟨stage, .writing file (crates.objectMeta.encode objectMeta)⟩ s →
      Refuses s (storage.metaPath bucket encoded) e → post ⟨stage, .nothing⟩ (.error (.Io (.os e))))
    (renamed : ∀ world s file found,
      Here terms Extra thread world ⟨stage, .writing file (crates.objectMeta.encode objectMeta)⟩ s →
      s.locate (storage.metaPath bucket encoded) = .ok found → s.look found ≠ some .dir →
      ∃ stage', s.look found.tail = some .dir ∧ ¬ IsTemp terms.staging found ∧ ¬ terms.rough found ∧
        Extra (stagesWith world thread stage')
          (world.2 ++ [⟨thread, .rename file.name (storage.metaPath bucket encoded), .ok ()⟩])
          (s.move file.place found) ∧ post ⟨stage', .nothing⟩ (.ok ())) :
    Keeps terms Extra thread (writeSidecar crates (storage.metaPath bucket encoded) objectMeta) post
      ⟨stage, .nothing⟩ := by
  obtain ⟨_, _, _, slash, _⟩ := name_parts (encoded_sidecar_is_name admitted)
  unfold writeSidecar writeJson FsStorage.metaPath
  rw [parent_join _ slash]
  have fills : ∀ file : Temp, Keeps terms Extra thread (do
      io (← Sys.write file.inode (crates.objectMeta.encode objectMeta))
      io (← Sys.flush file.inode) : Op Unit)
      (fun ghost outcome => ∃ content, ghost = ⟨stage, .writing file content⟩ ∧
        (outcome = .ok () ∧ content = crates.objectMeta.encode objectMeta)) ⟨stage, .writing file []⟩ := by
    intro file
    apply keeps_write robust
    apply keeps_look robust rfl
    rintro world s reply here ⟨choice, performed⟩
    cases performed
    exact ⟨_, rfl, rfl, rfl⟩
  apply keeps_installFile robust reaches staging fills lost
  · rintro e content ⟨impossible, _⟩
    cases impossible
  · rintro world s file content value e ⟨_, rfl⟩ parent here why
    exact refused world s file e parent here why
  · rintro world s file content value found ⟨_, rfl⟩ here arrival free
    exact renamed world s file found here arrival free

end Helpers
end Ferrobucket
