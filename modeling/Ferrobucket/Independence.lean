import Ferrobucket.Reference
import Ferrobucket.Requests
import Ferrobucket.Writers
/-! Puts and deletes of different keys beside each other. Each thread keeps the entries of
its own two files as its ghost; nobody else changes them, so what a call answers and leaves
is decided by the state that all of them began in. -/
namespace Ferrobucket
open Text Posix Program

/-- A put or a delete. -/
inductive KeyCall where
  | putObject (bucket key : Str) (body : Body) (contentType : Option Str)
  | deleteObject (bucket key : Str)

namespace KeyCall

def request : KeyCall → Request
  | .putObject bucket key body contentType => .putObject bucket key body contentType
  | .deleteObject bucket key => .deleteObject bucket key

def bucket : KeyCall → Str
  | .putObject bucket _ _ _ => bucket
  | .deleteObject bucket _ => bucket

def key : KeyCall → Str
  | .putObject _ key _ _ => key
  | .deleteObject _ key => key

end KeyCall

/-- The entries of the two files of an object. -/
structure Files where
  body : Option FS.Entry
  sidecar : Option FS.Entry

def filesOf (storage : FsStorage) (s : FS) (bucket encoded : Str) : Files :=
  ⟨s.look (bodyPlace storage bucket encoded), s.look (sidecarPlace storage bucket encoded)⟩

/-- What a call answers and what it makes of its files, in a bucket that has a sidecar
directory or none. -/
def KeyCall.effect (crates : Crates) (nameMax : Option Nat) (sidecars : Bool) (before : Files)
    (time : Nat) (call : KeyCall) : Outcome × Files :=
  match encodeKey call.key with
  | .error e => (.error e, before)
  | .ok encoded =>
      match call with
      | .putObject _ key body contentType =>
          match failure body with
          | some e => (.error (.Io e), before)
          | none =>
              if encoded = [] then (.error (.Io (.os .EISDIR)), before)
              else if sidecars = false then
                (.error (.Io (.os .ENOENT)), { before with body := some (.file (delivered body)) })
              else if exceeds nameMax (FsStorage.sidecarName encoded) then
                (.error (.Io (.os .ENAMETOOLONG)), { before with body := some (.file (delivered body)) })
              else
                let objectMeta : ObjectMeta := ⟨key, (delivered body).length,
                  contentType.getD defaultContentType, hexMd5 crates (delivered body), time⟩
                (.ok (.object objectMeta),
                  ⟨some (.file (delivered body)), some (.file (crates.objectMeta.encode objectMeta))⟩)
      | .deleteObject _ key =>
          if encoded = [] then (.error (.Io (.os .EISDIR)), before)
          else if before.body = none then (.error (.NoSuchKey key), before)
          else if sidecars && exceeds nameMax (FsStorage.sidecarName encoded) then
            (.error (.Io (.os .ENAMETOOLONG)), { before with body := none })
          else (.ok .done, ⟨none, none⟩)

/-! ### Up to the time -/

/-- An answer without the time that is in it. -/
def Response.untimed : Response → Response
  | .object objectMeta => .object { objectMeta with lastModified := 0 }
  | other => other

/-- The same entry, or sidecars that differ in nothing but the time. -/
def SameFile (crates : Crates) (first second : Option FS.Entry) : Prop :=
  first = second ∨ ∃ (objectMeta : ObjectMeta) (time : Nat),
    first = some (.file (crates.objectMeta.encode objectMeta)) ∧
    second = some (.file (crates.objectMeta.encode { objectMeta with lastModified := time }))

theorem effect_untimed (crates : Crates) (nameMax : Option Nat) (sidecars : Bool) (before : Files)
    (first second : Nat) (call : KeyCall) :
    ((call.effect crates nameMax sidecars before first).1.map Response.untimed =
      (call.effect crates nameMax sidecars before second).1.map Response.untimed) ∧
    (call.effect crates nameMax sidecars before first).2.body =
      (call.effect crates nameMax sidecars before second).2.body ∧
    SameFile crates (call.effect crates nameMax sidecars before first).2.sidecar
      (call.effect crates nameMax sidecars before second).2.sidecar := by
  unfold KeyCall.effect
  cases encodeKey call.key with
  | error e => exact ⟨rfl, rfl, .inl rfl⟩
  | ok encoded =>
  cases call with
  | deleteObject bucket key => exact ⟨rfl, rfl, .inl rfl⟩
  | putObject bucket key body contentType =>
      simp only []
      cases failure body with
      | some e => exact ⟨rfl, rfl, .inl rfl⟩
      | none =>
          simp only []
          split_ifs
          · exact ⟨rfl, rfl, .inl rfl⟩
          · exact ⟨rfl, rfl, .inl rfl⟩
          · exact ⟨rfl, rfl, .inl rfl⟩
          · exact ⟨rfl, rfl, .inr ⟨_, second, rfl, rfl⟩⟩

/-! ### What holds all the time -/

section Separation
variable {Thread : Type}

/-- Each call finds its own two files as its ghost says, and no file that belongs to no call
has changed. -/
structure Separate (storage : FsStorage) (calls : Thread → KeyCall) (start : FS)
    (stages : Thread → Files) (_ : List (Event Thread Reply)) (s : FS) : Prop where
  own : ∀ thread encoded, encodeKey (calls thread).key = .ok encoded →
    filesOf storage s (calls thread).bucket encoded = stages thread
  rest : ∀ path, ¬ IsTemp (Staging storage) path →
    (∀ thread encoded, encodeKey (calls thread).key = .ok encoded →
      path ≠ bodyPlace storage (calls thread).bucket encoded ∧
      path ≠ sidecarPlace storage (calls thread).bucket encoded) →
    s.look path = start.look path

variable {storage : FsStorage} {calls : Thread → KeyCall} {start s after : FS}
  {limit : start.nameMax = none ∨ start.nameMax = some 255}

theorem separate_robust : Robust (bucketTerms storage start limit) (Separate storage calls start) where
  hidden := by
    intro stages past s after same separate
    constructor
    · intro thread encoded admitted
      rw [← separate.own thread encoded admitted]
      unfold filesOf
      rw [same _ (body_not_isTemp admitted), same _ (sidecar_not_isTemp admitted)]
    · intro path lasting free
      rw [same path lasting]
      exact separate.rest path lasting free
  carries := fun _ _ _ _ _ separate => ⟨separate.own, separate.rest⟩

/-- The directory of a bucket and what is directly in it does not change. -/
theorem separate_dirs {stages : Thread → Files} {past : List (Event Thread Reply)}
    (separate : Separate storage calls start stages past s) {bucket : Str}
    (valid : validateBucketName bucket = .ok ()) :
    s.look (bucket :: storage.dataRoot) = start.look (bucket :: storage.dataRoot) ∧
      s.look (objectsPlace storage bucket) = start.look (objectsPlace storage bucket) ∧
      s.look (metaPlace storage bucket) = start.look (metaPlace storage bucket) := by
  have shorter : ∀ path : Path, path.length < storage.dataRoot.length + 3 →
      ∀ thread encoded, encodeKey (calls thread).key = .ok encoded →
        path ≠ bodyPlace storage (calls thread).bucket encoded ∧
        path ≠ sidecarPlace storage (calls thread).bucket encoded := by
    intro path short thread encoded _
    constructor
    · rintro rfl
      simp [bodyPlace, objectsPlace] at short
    · rintro rfl
      simp [sidecarPlace, metaPlace] at short
  have plain : isTempName bucket = false := by
    by_contra temp
    simp only [Bool.not_eq_false] at temp
    exact (bucket_name_facts valid).2.2.2 (temp_head temp)
  refine ⟨?_, ?_, ?_⟩
  · exact separate.rest _ (not_isTemp plain) (shorter _ (by simp))
  · exact separate.rest _ (not_isTemp (by decide)) (shorter _ (by simp [objectsPlace]))
  · exact separate.rest _ (not_isTemp (by decide)) (shorter _ (by simp [metaPlace]))

variable [DecidableEq Thread] (distinct : ∀ first second, first ≠ second →
  ((calls first).bucket, (calls first).key) ≠ ((calls second).bucket, (calls second).key))

include distinct

/-- A call changes its own files. -/
theorem separate_own {stages : Thread → Files} {past later : List (Event Thread Reply)}
    {thread : Thread} {stage stage' : Files} {encoded : Str}
    (admitted : encodeKey (calls thread).key = .ok encoded)
    (separate : Separate storage calls start (Function.update stages thread stage) past s)
    (others : ∀ path, ¬ IsTemp (Staging storage) path →
      path ≠ bodyPlace storage (calls thread).bucket encoded →
      path ≠ sidecarPlace storage (calls thread).bucket encoded → after.look path = s.look path)
    (now : filesOf storage after (calls thread).bucket encoded = stage') :
    Separate storage calls start (Function.update stages thread stage') later after := by
  constructor
  · intro other name allowed
    by_cases same : other = thread
    · subst same
      rw [admitted] at allowed
      cases allowed
      rw [Function.update_self, now]
    · have before := separate.own other name allowed
      rw [Function.update_of_ne same] at before ⊢
      have apart : ¬ ((calls other).bucket = (calls thread).bucket ∧ name = encoded) := by
        rintro ⟨bucket, rfl⟩
        apply distinct other thread same
        rw [bucket, encode_key_injective allowed admitted]
      rw [← before]
      unfold filesOf
      rw [others _ (body_not_isTemp allowed) (mt bodyPlace_injective apart) body_not_sidecar,
        others _ (sidecar_not_isTemp allowed) body_not_sidecar.symm (mt sidecarPlace_injective apart)]
  · intro path lasting free
    rw [others path lasting (free thread encoded admitted).1 (free thread encoded admitted).2]
    exact separate.rest path lasting free

/-- A file is published as one of the call's own. -/
theorem separate_moved {stages : Thread → Files} {past later : List (Event Thread Reply)}
    {thread : Thread} {stage stage' : Files} {encoded : Str} {found : Path} {content : Bytes} {file : Temp}
    {held : Thread → Held} (admitted : encodeKey (calls thread).key = .ok encoded)
    (separate : Separate storage calls start (Function.update stages thread stage) past s)
    (apart : Apart (bucketTerms storage start limit)
      (Function.update held thread (.writing file content)) s)
    (place : found = bodyPlace storage (calls thread).bucket encoded ∧
        stage' = { stage with body := some (.file content) } ∨
      found = sidecarPlace storage (calls thread).bucket encoded ∧
        stage' = { stage with sidecar := some (.file content) }) :
    Separate storage calls start (Function.update stages thread stage') later (s.move file.place found) := by
  have moved := FS.look_move s found (own_look apart)
  have temp := own_temp apart
  have elsewhere : ∀ path, ¬ IsTemp (Staging storage) path → path ≠ found →
      (s.move file.place found).look path = s.look path := by
    intro path lasting other
    have away : path ≠ file.place := by
      rintro rfl
      exact lasting temp
    rw [moved, Function.update_of_ne other, Function.update_of_ne away]
  have mine : filesOf storage s (calls thread).bucket encoded = stage := by
    have own := separate.own thread encoded admitted
    rwa [Function.update_self] at own
  apply separate_own distinct admitted separate
  · intro path lasting body sidecar
    apply elsewhere path lasting
    rcases place with ⟨rfl, _⟩ | ⟨rfl, _⟩
    · exact body
    · exact sidecar
  · rcases place with ⟨rfl, rfl⟩ | ⟨rfl, rfl⟩
    · rw [← mine]
      unfold filesOf
      rw [elsewhere _ (sidecar_not_isTemp admitted) body_not_sidecar.symm, moved, Function.update_self]
    · rw [← mine]
      unfold filesOf
      rw [elsewhere _ (body_not_isTemp admitted) body_not_sidecar, moved, Function.update_self]

/-- One of the call's own files is removed. -/
theorem separate_dropped {stages : Thread → Files} {past later : List (Event Thread Reply)}
    {thread : Thread} {stage stage' : Files} {encoded : Str} {found : Path}
    (admitted : encodeKey (calls thread).key = .ok encoded)
    (separate : Separate storage calls start (Function.update stages thread stage) past s)
    (place : found = bodyPlace storage (calls thread).bucket encoded ∧
        stage' = { stage with body := none } ∨
      found = sidecarPlace storage (calls thread).bucket encoded ∧
        stage' = { stage with sidecar := none }) :
    Separate storage calls start (Function.update stages thread stage') later (s.drop found) := by
  have mine : filesOf storage s (calls thread).bucket encoded = stage := by
    have own := separate.own thread encoded admitted
    rwa [Function.update_self] at own
  apply separate_own distinct admitted separate
  · intro path _ body sidecar
    rcases place with ⟨rfl, _⟩ | ⟨rfl, _⟩
    · rw [FS.look_drop, Function.update_of_ne body]
    · rw [FS.look_drop, Function.update_of_ne sidecar]
  · rcases place with ⟨rfl, rfl⟩ | ⟨rfl, rfl⟩
    · rw [← mine]
      unfold filesOf
      rw [FS.look_drop, Function.update_self, Function.update_of_ne body_not_sidecar.symm]
    · rw [← mine]
      unfold filesOf
      rw [FS.look_drop, Function.update_self, Function.update_of_ne body_not_sidecar]

end Separation

/-! ### The two calls -/

/-- Does the bucket have a sidecar directory? -/
def hasSidecars (storage : FsStorage) (s : FS) (bucket : Str) : Bool :=
  s.look (metaPlace storage bucket) = some .dir

def startFiles (storage : FsStorage) (start : FS) (call : KeyCall) : Files :=
  filesOf storage start call.bucket (PercentEncoding.utf8PercentEncode call.key keyEncodeSet)

/-- A call has ended: nothing is left open, and its answer and files are those of its effect
on the files it began with. -/
def Settles (crates : Crates) (storage : FsStorage) (start : FS) (call : KeyCall) (ghost : Ghost Files)
    (outcome : Outcome) : Prop :=
  ghost.held = .nothing ∧ ∃ time, (outcome, ghost.stage) =
    call.effect crates start.nameMax (hasSidecars storage start call.bucket)
      (startFiles storage start call) time

section Calls
variable {Thread : Type} {crates : Crates} {storage : FsStorage}
  {calls : Thread → KeyCall} {start s : FS} {store : Store}
  (holds : Holds crates storage start store)

include holds in
/-- The directories of an existing bucket, at any time. -/
theorem separate_bucket {stages : Thread → Files} {past : List (Event Thread Reply)} {bucket : Str}
    {found : Bucket} (present : store.buckets.lookup bucket = some found)
    (separate : Separate storage calls start stages past s) :
    s.look (bucket :: storage.dataRoot) = some .dir ∧
      s.look (objectsPlace storage bucket) = some .dir ∧
      s.look (metaPlace storage bucket) = if hasSidecars storage start bucket then some .dir else none := by
  have valid := (holds.sound.buckets bucket found present).valid
  obtain ⟨top, objects, sidecars⟩ := separate_dirs separate valid
  refine ⟨?_, ?_, ?_⟩
  · simp [top, look_bucket holds valid, present]
  · rw [objects]
    exact look_objects holds valid present
  · have seen : start.look (metaPlace storage bucket) = found.sidecars.map fun _ => .dir :=
      look_meta holds valid present
    unfold hasSidecars
    rw [sidecars, seen]
    cases found.sidecars <;> simp

include holds in
theorem separate_sidecars {stages : Thread → Files} {past : List (Event Thread Reply)} {bucket : Str}
    {found : Bucket} (present : store.buckets.lookup bucket = some found)
    (separate : Separate storage calls start stages past s) :
    s.look (metaPlace storage bucket) = some .dir ↔ hasSidecars storage start bucket = true := by
  rw [(separate_bucket holds present separate).2.2]
  simp

include holds in
/-- The files that a call began with are no directories. -/
theorem start_files (encoded : Str) {bucket : Str} {found : Bucket}
    (present : store.buckets.lookup bucket = some found) :
    (filesOf storage start bucket encoded).body ≠ some .dir ∧
      (filesOf storage start bucket encoded).sidecar ≠ some .dir := by
  have valid := (holds.sound.buckets bucket found present).valid
  constructor
  · have seen : (filesOf storage start bucket encoded).body = (found.objects.lookup encoded).map .file :=
      look_object holds valid present encoded
    rw [seen]
    cases found.objects.lookup encoded <;> simp
  · have seen := look_sidecar holds valid present (FsStorage.sidecarName encoded)
    have same : (filesOf storage start bucket encoded).sidecar = start.look
        (FsStorage.sidecarName encoded :: metaName :: bucket :: storage.dataRoot) := rfl
    rw [same, seen]
    cases found.sidecars.bind fun sidecars => sidecars.lookup (FsStorage.sidecarName encoded) <;> simp

variable [DecidableEq Thread]
  (existing : ∀ thread, ∃ found, store.buckets.lookup (calls thread).bucket = some found)
  (distinct : ∀ first second, first ≠ second →
    ((calls first).bucket, (calls first).key) ≠ ((calls second).bucket, (calls second).key))

/-- Calls go by the state that all of them began in. -/
abbrev KeepsSeparate {Value : Type} (holds : Holds crates storage start store) (calls : Thread → KeyCall)
    (thread : Thread) (program : Op Value) (post : Ghost Files → Except StorageError Value → Prop)
    (ghost : Ghost Files) : Prop :=
  Keeps (bucketTerms storage start holds.limit) (Separate storage calls start) thread program post ghost

theorem separate_limit {thread : Thread} {world : (Thread → Ghost Files) × List (Event Thread Reply)}
    {ghost : Ghost Files} (holds : Holds crates storage start store)
    (here : Here (bucketTerms storage start holds.limit) (Separate storage calls start) thread world
      ghost s) : s.nameMax = none ∨ s.nameMax = some 255 := by
  have same : s.nameMax = start.nameMax := here.apart.limit
  rw [same]
  exact holds.limit

theorem exists_reply {path : PathBuf} {reply : Bool} (step : faultFree (.exists path) s reply s) :
    reply = s.exists path := by
  obtain ⟨choice, performed⟩ := step
  cases performed
  rfl

include existing distinct

theorem keeps_separate_put {thread : Thread} {bucket key : Str} {body : Body} {contentType : Option Str}
    (same : calls thread = .putObject bucket key body contentType) :
    KeepsSeparate holds calls thread (putObject crates storage bucket key body contentType)
      (fun ghost outcome => Settles crates storage start (.putObject bucket key body contentType) ghost (outcome.map .object))
      ⟨startFiles storage start (.putObject bucket key body contentType), .nothing⟩ := by
  have robust : Robust (bucketTerms storage start holds.limit) (Separate storage calls start) :=
    separate_robust
  obtain ⟨found, present⟩ := existing thread
  have ownBucket : (calls thread).bucket = bucket := by rw [same]; rfl
  have ownKey : (calls thread).key = key := by rw [same]; rfl
  rw [ownBucket] at present
  have valid := (holds.sound.buckets bucket found present).valid
  have reaches : Reaches start.nameMax (storage.objectsDir bucket) (objectsPlace storage bucket) :=
    reaches_objects holds.limit valid
  have reachesMeta : Reaches start.nameMax (storage.metaDir bucket) (metaPlace storage bucket) :=
    reaches_meta holds.limit valid
  unfold putObject
  simp only [valid, lift, Prog.ofExcept, Prog.done_bind, Prog.send_bind]
  apply keeps_look robust rfl
  intro world s reply here step
  obtain ⟨top, _, _⟩ := separate_bucket holds present here.extra
  have located := (reaches_bucket holds.limit valid).there s here.apart.tree here.apart.limit top
  have there : s.exists (storage.bucketPath bucket) = true := by simp [FS.exists_located located, top]
  obtain rfl := (exists_reply step).trans there
  simp only [Bool.not_true, Bool.false_eq_true, if_false]
  cases admitted : encodeKey key with
  | error e => exact ⟨rfl, 0, by simp [KeyCall.effect, KeyCall.key, admitted, Except.map]⟩
  | ok encoded =>
  have allowed : encodeKey (calls thread).key = .ok encoded := by rw [ownKey, admitted]
  have initial : startFiles storage start (.putObject bucket key body contentType) = filesOf storage start bucket encoded := by
    rw [startFiles, KeyCall.bucket, KeyCall.key, ← (encode_key_ok admitted).1]
  obtain ⟨noDir, noSidecarDir⟩ := start_files holds encoded present
  simp only [Prog.done_bind]
  refine tracks_bind.mpr ?_
  apply keeps_writeObjectBody robust reaches ⟨bucket, valid, .inl rfl⟩
  · intro world s name e here absent
    exact absurd (separate_bucket holds present here.extra).2.1 absent
  · intro e broken
    exact ⟨rfl, 0, by simp [KeyCall.effect, KeyCall.key, admitted, broken, Except.map]⟩
  · -- Only the empty key leads to a directory.
    intro world s file e whole inside here why
    have place := locate_body here.apart.tree (separate_limit holds here) valid admitted inside
    by_cases empty : encoded = []
    · rw [if_pos empty] at place
      rcases why with lost | ⟨rfl, _⟩
      · rw [place] at lost
        cases lost
      · exact ⟨rfl, 0, by simp [KeyCall.effect, KeyCall.key, admitted, whole, empty, Except.map]⟩
    · rw [if_neg empty] at place
      have own := congrArg Files.body (here.extra.own thread encoded allowed)
      rw [ownBucket, stagesWith, Function.update_self, initial] at own
      rcases why with lost | ⟨_, found, arrived, directory⟩
      · rw [place] at lost
        cases lost
      · rw [place] at arrived
        cases arrived
        exact absurd (own.symm.trans directory) noDir
  · intro world s file place whole here arrival free
    obtain ⟨inside, named | ⟨_, rfl⟩⟩ := located_object valid admitted arrival
    swap
    · exact absurd inside free
    obtain ⟨object, rfl⟩ := named
    refine ⟨{ startFiles storage start (.putObject bucket key body contentType) with body := some (.file (delivered body)) },
      inside, body_not_isTemp admitted, not_bucketRecord, ?_, ?_⟩
    · exact separate_moved distinct allowed here.extra here.apart (.inl ⟨by rw [ownBucket], rfl⟩)
    apply keeps_look robust rfl
    intro _ _ time _ _
    refine tracks_bind.mpr ?_
    apply keeps_writeSidecar robust admitted reachesMeta ⟨bucket, valid, .inr rfl⟩
    · intro world s name e here absent temp lost
      obtain ⟨top, _, sidecars⟩ := separate_bucket holds present here.extra
      have none : hasSidecars storage start bucket = false := by
        rw [← Bool.not_eq_true, ← separate_sidecars holds present here.extra]
        exact absent
      rw [none] at sidecars
      have dir : s.locate (storage.metaDir bucket) = .ok (metaPlace storage bucket) :=
        here_locate here (reaches_bucket holds.limit valid) top (by decide)
          (exceeds_fits holds.limit (by decide))
      rw [FS.locate_name_absent dir sidecars (temp_is_name temp)] at lost
      cases lost
      refine ⟨rfl, 0, ?_⟩
      simp [KeyCall.effect, KeyCall.key, KeyCall.bucket, admitted, whole, none, Except.map,
        (object_name_parts object).1]
    · intro world s file e inside here why
      have kept := (separate_sidecars holds present here.extra).mp inside
      have place := locate_meta_path here.apart.tree (separate_limit holds here) valid admitted inside
      have limit : s.nameMax = start.nameMax := here.apart.limit
      rw [limit] at place
      split_ifs at place with long
      · rcases why with lost | ⟨_, found, arrived, _⟩
        · rw [place] at lost
          cases lost
          refine ⟨rfl, 0, ?_⟩
          simp [KeyCall.effect, KeyCall.key, KeyCall.bucket, admitted, whole, kept, long,
            Except.map, (object_name_parts object).1]
        · rw [place] at arrived
          cases arrived
      · have own := congrArg Files.sidecar (here.extra.own thread encoded allowed)
        rw [ownBucket, stagesWith, Function.update_self, initial] at own
        rcases why with lost | ⟨_, found, arrived, directory⟩
        · rw [place] at lost
          cases lost
        · rw [place] at arrived
          cases arrived
          exact absurd (own.symm.trans directory) noSidecarDir
    · intro world s file place here arrival free
      obtain ⟨rfl, inside, short⟩ := located_sidecar valid admitted arrival
      have kept := (separate_sidecars holds present here.extra).mp inside
      have fits : exceeds start.nameMax (FsStorage.sidecarName encoded) = false := by
        rwa [FS.tooLong, here.apart.limit] at short
      refine ⟨_, inside, sidecar_not_isTemp admitted, not_bucketRecord,
        separate_moved distinct allowed here.extra here.apart (.inr ⟨by rw [ownBucket], rfl⟩), rfl, time, ?_⟩
      simp [KeyCall.effect, KeyCall.key, KeyCall.bucket, admitted, whole, kept, fits, Except.map,
        (object_name_parts object).1]

theorem keeps_separate_delete {thread : Thread} {bucket key : Str}
    (same : calls thread = .deleteObject bucket key) :
    KeepsSeparate holds calls thread (deleteObject storage bucket key)
      (fun ghost outcome => Settles crates storage start (.deleteObject bucket key) ghost
        (outcome.map fun _ => .done))
      ⟨startFiles storage start (.deleteObject bucket key), .nothing⟩ := by
  obtain ⟨found, present⟩ := existing thread
  have ownBucket : (calls thread).bucket = bucket := by rw [same]; rfl
  have ownKey : (calls thread).key = key := by rw [same]; rfl
  rw [ownBucket] at present
  have valid := (holds.sound.buckets bucket found present).valid
  unfold deleteObject
  simp only [valid, lift, Prog.ofExcept, Prog.done_bind, Prog.send_bind]
  cases admitted : encodeKey key with
  | error e => exact ⟨rfl, 0, by simp [KeyCall.effect, KeyCall.key, admitted, Except.map]⟩
  | ok encoded =>
  have allowed : encodeKey (calls thread).key = .ok encoded := by rw [ownKey, admitted]
  have initial : startFiles storage start (.deleteObject bucket key) = filesOf storage start bucket encoded := by
    rw [startFiles, KeyCall.bucket, KeyCall.key, ← (encode_key_ok admitted).1]
  obtain ⟨noDir, noSidecarDir⟩ := start_files holds encoded present
  rw [← initial] at noDir noSidecarDir
  simp only [Prog.done_bind]
  apply keeps_unlink
  · intro world s place content here arrival file
    have inside := (separate_bucket holds present here.extra).2.1
    rw [locate_body here.apart.tree (separate_limit holds here) valid admitted inside] at arrival
    split_ifs at arrival with empty
    · cases arrival
      rw [inside] at file
      cases file
    cases arrival
    have own := congrArg Files.body (here.extra.own thread encoded allowed)
    rw [ownBucket, stagesWith, Function.update_self] at own
    have there : (startFiles storage start (.deleteObject bucket key)).body ≠ none := by
      rw [← own]
      simp [filesOf, file]
    refine ⟨{ startFiles storage start (.deleteObject bucket key) with body := none }, body_not_isTemp admitted,
      separate_dropped distinct allowed here.extra (.inl ⟨by rw [ownBucket], rfl⟩), ?_⟩
    apply keeps_unlink
    · intro world s place content here arrival file
      obtain ⟨rfl, inside, short⟩ := located_sidecar valid admitted arrival
      have fits : exceeds start.nameMax (FsStorage.sidecarName encoded) = false := by
        rwa [FS.tooLong, here.apart.limit] at short
      refine ⟨⟨none, none⟩, sidecar_not_isTemp admitted,
        separate_dropped distinct allowed here.extra (.inr ⟨by rw [ownBucket], rfl⟩), rfl, 0, ?_⟩
      simp [KeyCall.effect, KeyCall.key, admitted, empty, there, fits, Except.map]
    · intro world s e here why
      refine ⟨_, ⟨here.extra.own, here.extra.rest⟩, ?_⟩
      have own := congrArg Files.sidecar (here.extra.own thread encoded allowed)
      rw [ownBucket, stagesWith, Function.update_self] at own
      -- Without a sidecar the call is through; a name that is too long is reported.
      have through : s.look (sidecarPlace storage bucket encoded) = none →
          (hasSidecars storage start bucket && exceeds start.nameMax (FsStorage.sidecarName encoded)) =
            false →
          Settles crates storage start (.deleteObject bucket key)
            ⟨{ startFiles storage start (.deleteObject bucket key) with body := none }, .nothing⟩ (.ok .done) := by
        intro absent short
        have gone : (startFiles storage start (.deleteObject bucket key)).sidecar = none := own.symm.trans absent
        have cleared : ({ startFiles storage start (.deleteObject bucket key) with body := none } : Files) =
            ⟨none, none⟩ := congrArg (Files.mk none) gone
        refine ⟨rfl, 0, ?_⟩
        rw [cleared]
        simp [KeyCall.effect, KeyCall.key, KeyCall.bucket, admitted, empty, there, short]
      obtain ⟨top, _, sidecars⟩ := separate_bucket holds present here.extra
      have limit : s.nameMax = start.nameMax := here.apart.limit
      cases kept : hasSidecars storage start bucket with
      | false =>
          rw [kept] at sidecars
          have dir : s.locate (storage.metaDir bucket) = .ok (metaPlace storage bucket) :=
            here_locate here (reaches_bucket holds.limit valid) top (by decide)
              (exceeds_fits holds.limit (by decide))
          have lost : s.locate (storage.metaPath bucket encoded) = .error .ENOENT :=
            FS.locate_name_absent dir sidecars (encoded_sidecar_is_name admitted)
          have unlisted : s.look (metaPlace storage bucket) ≠ some .dir := by simp [sidecars]
          have absent := FS.tree_absent here.apart.tree unlisted (FsStorage.sidecarName encoded)
          rcases why with answered | ⟨place, arrived, _⟩
          · rw [lost] at answered
            cases answered
            exact through absent (by simp [kept])
          · rw [lost] at arrived
            cases arrived
      | true =>
          have inside := (separate_sidecars holds present here.extra).mpr kept
          have place := locate_meta_path here.apart.tree (separate_limit holds here) valid admitted inside
          rw [limit] at place
          split_ifs at place with long
          · rcases why with answered | ⟨_, arrived, _⟩
            · rw [place] at answered
              cases answered
              refine ⟨rfl, 0, ?_⟩
              simp [KeyCall.effect, KeyCall.key, KeyCall.bucket, admitted, empty, there, kept, long,
                Except.map]
            · rw [place] at arrived
              cases arrived
          · rcases why with answered | ⟨_, arrived, ⟨absent, rfl⟩ | ⟨directory, _⟩⟩
            · rw [place] at answered
              cases answered
            · rw [place] at arrived
              cases arrived
              exact through absent (by simp [long])
            · rw [place] at arrived
              cases arrived
              exact absurd (own.symm.trans directory) noSidecarDir
  · intro world s e here why
    refine ⟨_, ⟨here.extra.own, here.extra.rest⟩, ?_⟩
    have inside := (separate_bucket holds present here.extra).2.1
    have place := locate_body here.apart.tree (separate_limit holds here) valid admitted inside
    have own := congrArg Files.body (here.extra.own thread encoded allowed)
    rw [ownBucket, stagesWith, Function.update_self] at own
    split_ifs at place with empty
    · rcases why with answered | ⟨_, arrived, ⟨absent, _⟩ | ⟨_, rfl⟩⟩
      · rw [place] at answered
        cases answered
      · rw [place] at arrived
        cases arrived
        rw [inside] at absent
        cases absent
      · exact ⟨rfl, 0, by simp [KeyCall.effect, KeyCall.key, admitted, empty, Except.map]⟩
    · rcases why with answered | ⟨_, arrived, ⟨absent, rfl⟩ | ⟨directory, _⟩⟩
      · rw [place] at answered
        cases answered
      · rw [place] at arrived
        cases arrived
        have gone : (startFiles storage start (.deleteObject bucket key)).body = none := own.symm.trans absent
        exact ⟨rfl, 0, by simp [KeyCall.effect, KeyCall.key, admitted, empty, gone, Except.map]⟩
      · rw [place] at arrived
        cases arrived
        exact absurd (own.symm.trans directory) noDir

theorem keeps_separate (thread : Thread) :
    KeepsSeparate holds calls thread (handle crates storage (calls thread).request)
      (Settles crates storage start (calls thread))
      ⟨startFiles storage start (calls thread), .nothing⟩ := by
  cases same : calls thread with
  | putObject bucket key body contentType =>
      refine tracks_bind.mpr (tracks_mono (keeps_separate_put holds existing distinct same) ?_)
      intro ghost outcome settles
      cases outcome <;> exact settles
  | deleteObject bucket key =>
      refine tracks_bind.mpr (tracks_mono (keeps_separate_delete holds existing distinct same) ?_)
      intro ghost outcome settles
      cases outcome <;> exact settles

/-- Wherever the calls have got to, they are separate, and a call that has ended has had its
effect on what it began with. -/
theorem separate_run (tree : start.Tree) {last : Thread → Op Response} {t : FS}
    {events : List (Event Thread Reply)}
    (run : Interleaves (fun _ => faultFree) (fun thread => handle crates storage (calls thread).request)
      start events last t) :
    ∃ ghosts, Sharing (bucketTerms storage start holds.limit) (Separate storage calls start) ghosts
        events t ∧
      ∀ thread outcome, last thread = ended outcome →
        Settles crates storage start (calls thread) (ghosts thread) outcome := by
  have begin : Sharing (bucketTerms storage start holds.limit) (Separate storage calls start)
      (fun thread => ⟨startFiles storage start (calls thread), .nothing⟩) [] start := by
    refine ⟨apart_start tree holds.limit, ?_, fun _ _ _ => rfl⟩
    intro thread encoded admitted
    rw [startFiles, ← (encode_key_ok admitted).1]
  obtain ⟨ghosts, sharing, kept⟩ :=
    pool_keeps (keeps_separate holds existing distinct) begin run
  refine ⟨ghosts, sharing, fun thread outcome finished => ?_⟩
  have own := kept thread
  rw [finished] at own
  exact tracks_ended own

end Calls

/-! ### Independence -/

/-- A store has no temporary files. -/
theorem holds_no_temp {crates : Crates} {storage : FsStorage} {s : FS} {store : Store}
    (holds : Holds crates storage s store) {path : Path} (temp : IsTemp (Staging storage) path) :
    s.look path = none := by
  obtain ⟨name, dir, rfl, named, bucket, valid, rfl | rfl⟩ := temp
  · have seen := look_below holds valid [objectsName, name]
    cases present : store.buckets.lookup bucket with
    | none => simpa [present, objectsPlace] using seen
    | some found => exact (roomy_objects holds valid present).unused name named
  · have seen := look_below holds valid [metaName, name]
    cases present : store.buckets.lookup bucket with
    | none => simpa [present, metaPlace] using seen
    | some found =>
        cases kept : found.sidecars with
        | none => simpa [present, metaPlace, Bucket.view, kept] using seen
        | some sidecars => exact (roomy_meta holds valid present kept).unused name named

/-- The calls in a run do not see each other: each is answered as if it ran alone, and what
they leave is what they leave one after another in any order. -/
structure Independent {Thread : Type} (crates : Crates) (storage : FsStorage) (calls : Thread → KeyCall)
    (start : FS) (last : Thread → Op Response) (t : FS) : Prop where
  answers : ∀ thread outcome, last thread = ended outcome →
    (∃ alone after,
      Runs faultFree (handle crates storage (calls thread).request) start alone after) ∧
    ∀ alone after, Runs faultFree (handle crates storage (calls thread).request) start alone after →
      outcome.map Response.untimed = alone.map Response.untimed
  files : (∀ thread, ∃ outcome, last thread = ended outcome) →
    ∀ (order : List Thread) served after, order.Nodup → (∀ thread, thread ∈ order) →
      served.map Prod.fst = order.map (fun thread => (calls thread).request) →
      Served crates storage (fun _ _ => True) start served after →
      ∀ path, SameFile crates (t.look path) (after.look path)
  clean : (∀ thread, ∃ outcome, last thread = ended outcome) →
    ∀ path, IsTemp (Staging storage) path → t.look path = none

section Independence
variable {Thread : Type} [DecidableEq Thread] {crates : Crates} {storage : FsStorage}
  {calls : Thread → KeyCall} {start : FS} {store : Store}

/-- Calls one after another are a run in which everybody else waits. -/
theorem served_interleaves {order : List Thread} {served : List (Request × Outcome)} {s t : FS}
    (once : order.Nodup)
    (asked : served.map Prod.fst = order.map fun thread => (calls thread).request)
    (run : Served crates storage (fun _ _ => True) s served t) (pool : Thread → Op Response)
    (waiting : ∀ thread ∈ order, pool thread = handle crates storage (calls thread).request) :
    ∃ events last, Interleaves (fun _ => faultFree) pool s events last t ∧
      (∀ thread ∈ order, ∃ outcome, last thread = ended outcome) ∧
      ∀ thread, thread ∉ order → last thread = pool thread := by
  induction order generalizing served s pool with
  | nil =>
      cases run with
      | nil => exact ⟨[], pool, .stop pool _, nofun, fun _ _ => rfl⟩
      | cons _ _ _ => cases asked
  | cons first rest ih =>
      cases run with
      | nil => cases asked
      | @cons _ middle _ request outcome later _ own following =>
          obtain ⟨same, others⟩ := List.cons.inj asked
          obtain ⟨fresh, once⟩ := List.nodup_cons.mp once
          have program : pool first = handle crates storage request :=
            (waiting first List.mem_cons_self).trans (congrArg _ same.symm)
          obtain ⟨events, alone⟩ := runs_interleaves own first pool program
          obtain ⟨more, last, run, finished, left⟩ := ih once others following
            (Function.update pool first (ended outcome)) (by
              intro thread member
              have other : thread ≠ first := fun equal => fresh (equal ▸ member)
              rw [Function.update_of_ne other]
              exact waiting thread (List.mem_cons_of_mem _ member))
          refine ⟨events ++ more, last, interleaves_append alone run, ?_, ?_⟩
          · intro thread member
            rcases List.mem_cons.mp member with rfl | inside
            · exact ⟨outcome, by rw [left thread fresh, Function.update_self]⟩
            · exact finished thread inside
          · intro thread outside
            simp only [List.mem_cons, not_or] at outside
            rw [left thread outside.2, Function.update_of_ne outside.1]

variable (holds : Holds crates storage start store)
  (existing : ∀ thread, ∃ found, store.buckets.lookup (calls thread).bucket = some found)
  (distinct : ∀ first second, first ≠ second →
    ((calls first).bucket, (calls first).key) ≠ ((calls second).bucket, (calls second).key))

include holds in
/-- A call alone comes to an end. -/
theorem alone_ends (call : KeyCall) :
    ∃ outcome after, Runs faultFree (handle crates storage call.request) start outcome after := by
  have total : wp faultFree (handle crates storage call.request) (fun _ _ => True) start := by
    cases call with
    | putObject bucket key body contentType =>
        apply wp_bind.mpr
        apply wp_mono (put_refines holds bucket key body contentType)
        intro outcome after _
        cases outcome <;> trivial
    | deleteObject bucket key =>
        apply wp_bind.mpr
        apply wp_mono (delete_refines holds bucket key)
        intro outcome after _
        cases outcome <;> trivial
  obtain ⟨outcome, after, run, _⟩ := wp_returns total
  exact ⟨outcome, after, run⟩

include holds existing distinct

/-- When all calls have ended, no temporary file is left, the files of each call are those of
its effect, and all others are as they were. -/
theorem separate_ended (tree : start.Tree) {last : Thread → Op Response} {t : FS}
    {events : List (Event Thread Reply)}
    (run : Interleaves (fun _ => faultFree) (fun thread => handle crates storage (calls thread).request)
      start events last t)
    (finished : ∀ thread, ∃ outcome, last thread = ended outcome) :
    (∀ path, IsTemp (Staging storage) path → t.look path = none) ∧
    ∃ stages, Separate storage calls start stages events t ∧
      ∀ thread, ∃ time, stages thread = ((calls thread).effect crates start.nameMax
        (hasSidecars storage start (calls thread).bucket)
        (startFiles storage start (calls thread)) time).2 := by
  obtain ⟨ghosts, sharing, settled⟩ := separate_run holds existing distinct tree run
  refine ⟨?_, _, sharing.extra, ?_⟩
  · intro path temp
    rcases sharing.apart.strays path temp with litter | ⟨thread, place⟩
    · exact litter.trans (holds_no_temp holds temp)
    · obtain ⟨outcome, done⟩ := finished thread
      rw [(settled thread outcome done).1] at place
      exact absurd place not_false
  · intro thread
    obtain ⟨outcome, done⟩ := finished thread
    obtain ⟨_, time, effect⟩ := settled thread outcome done
    exact ⟨time, congrArg Prod.snd effect⟩

theorem different_keys_independent (tree : start.Tree) {last : Thread → Op Response} {t : FS}
    {events : List (Event Thread Reply)}
    (run : Interleaves (fun _ => faultFree) (fun thread => handle crates storage (calls thread).request)
      start events last t) : Independent crates storage calls start last t := by
  constructor
  · intro thread outcome done
    refine ⟨alone_ends holds _, ?_⟩
    intro alone after own
    -- The call alone is a run in which all others have yet to begin.
    obtain ⟨_, solo⟩ := runs_interleaves own thread
      (fun other => handle crates storage (calls other).request) rfl
    obtain ⟨_, _, together⟩ := separate_run holds existing distinct tree run
    obtain ⟨_, _, apart⟩ := separate_run holds existing distinct tree solo
    obtain ⟨_, first, here⟩ := together thread outcome done
    obtain ⟨_, second, there⟩ := apart thread alone (Function.update_self ..)
    have one : outcome = _ := congrArg Prod.fst here
    have other : alone = _ := congrArg Prod.fst there
    rw [one, other]
    exact (effect_untimed _ _ _ _ first second _).1
  · intro finished order served after once all asked serving path
    obtain ⟨_, others, sequence, through, _⟩ := served_interleaves once asked serving
      (fun other => handle crates storage (calls other).request) fun _ _ => rfl
    obtain ⟨clean, stages, here, files⟩ := separate_ended holds existing distinct tree run finished
    obtain ⟨cleaned, others, there, left⟩ := separate_ended holds existing distinct tree sequence
      fun thread => through thread (all thread)
    by_cases temp : IsTemp (Staging storage) path
    · exact .inl ((clean path temp).trans (cleaned path temp).symm)
    by_cases mine : ∃ thread encoded, encodeKey (calls thread).key = .ok encoded ∧
        (path = bodyPlace storage (calls thread).bucket encoded ∨
          path = sidecarPlace storage (calls thread).bucket encoded)
    · obtain ⟨thread, encoded, admitted, place⟩ := mine
      obtain ⟨first, own⟩ := files thread
      obtain ⟨second, again⟩ := left thread
      have now := here.own thread encoded admitted
      have later := there.own thread encoded admitted
      rw [own] at now
      rw [again] at later
      obtain ⟨_, body, sidecar⟩ := effect_untimed crates start.nameMax
        (hasSidecars storage start (calls thread).bucket) (startFiles storage start (calls thread))
        first second (calls thread)
      rcases place with rfl | rfl
      · exact .inl ((congrArg Files.body now).trans (body.trans (congrArg Files.body later).symm))
      · rw [← congrArg Files.sidecar now, ← congrArg Files.sidecar later] at sidecar
        exact sidecar
    · have free : ∀ thread encoded, encodeKey (calls thread).key = .ok encoded →
          path ≠ bodyPlace storage (calls thread).bucket encoded ∧
          path ≠ sidecarPlace storage (calls thread).bucket encoded := by
        intro thread encoded admitted
        constructor
        · rintro rfl
          exact mine ⟨thread, encoded, admitted, .inl rfl⟩
        · rintro rfl
          exact mine ⟨thread, encoded, admitted, .inr rfl⟩
      exact .inl ((here.rest path temp free).trans (there.rest path temp free).symm)
  · intro finished
    exact (separate_ended holds existing distinct tree run finished).1

end Independence

/-- A put of `a` and a delete of `b`. -/
def photoCalls : Bool → KeyCall
  | true => .putObject Reference.bucket ['a'] [] none
  | false => .deleteObject Reference.bucket ['b']

theorem different_keys_independent_photos : ∃ events last t,
    Interleaves (fun _ => faultFree)
      (fun thread => handle Crates.reference Reference.storage (photoCalls thread).request)
      Reference.bucketDisk events last t ∧ (∀ thread, ∃ outcome, last thread = ended outcome) ∧
    Independent Crates.reference Reference.storage photoCalls Reference.bucketDisk last t := by
  have existing : ∀ thread, ∃ found, (Store.empty.setBucket Reference.bucket
      (.fresh Reference.info)).buckets.lookup (photoCalls thread).bucket = some found := by
    intro thread
    refine ⟨.fresh Reference.info, ?_⟩
    cases thread <;> exact Finmap.lookup_insert _
  have distinct : ∀ first second, first ≠ second →
      ((photoCalls first).bucket, (photoCalls first).key) ≠
        ((photoCalls second).bucket, (photoCalls second).key) := by decide
  have holds := Reference.bucketDisk_holds
  obtain ⟨first, middle, own⟩ := alone_ends holds (photoCalls true)
  obtain ⟨events, one⟩ := runs_interleaves own true
    (fun thread => handle Crates.reference Reference.storage (photoCalls thread).request) rfl
  obtain ⟨_, _, put⟩ := runs_shown own
  obtain ⟨_, _, step⟩ := wp_runs (put_refines holds Reference.bucket ['a'] [] none) put
  obtain ⟨second, after, other⟩ := alone_ends step (photoCalls false)
  obtain ⟨more, two⟩ := runs_interleaves other false (Function.update
    (fun thread => handle Crates.reference Reference.storage (photoCalls thread).request) true
    (ended first)) (by rw [Function.update_of_ne (by decide)])
  have run := interleaves_append one two
  refine ⟨_, _, _, run, ?_, different_keys_independent holds existing distinct
    Reference.bucketDisk_tree run⟩
  intro thread
  cases thread with
  | false => exact ⟨second, Function.update_self ..⟩
  | true => exact ⟨first, by rw [Function.update_of_ne (by decide), Function.update_self]⟩

end Ferrobucket
