import Ferrobucket.ChangingListing
import Ferrobucket.Clients
import Ferrobucket.Independence
import Ferrobucket.Lib.Cells
/-! Puts, deletes, heads and gets of any keys beside each other. Every body and every sidecar
is a register: each call takes effect on it in one of its own steps, if at all, and meanwhile
all files below the data root, temporary ones aside, are those of some store. -/
namespace Ferrobucket
open Text Posix Program

deriving instance DecidableEq for StoredFile

/-- A call on one object. -/
inductive Access where
  | putObject (bucket key : Str) (body : Body) (contentType : Option Str)
  | deleteObject (bucket key : Str)
  | headObject (bucket key : Str)
  | getObject (bucket key : Str) (range : Option ByteRange)

namespace Access

def bucket : Access → Str
  | .putObject bucket _ _ _ | .deleteObject bucket _ | .headObject bucket _ | .getObject bucket _ _ => bucket

def key : Access → Str
  | .putObject _ key _ _ | .deleteObject _ key | .headObject _ key | .getObject _ key _ => key

/-- The call as a client makes it; what a get answers is read to its end. -/
def program (crates : Crates) (storage : FsStorage) : Access → Op Received
  | .putObject bucket key body contentType => do
      let objectMeta ← Ferrobucket.putObject crates storage bucket key body contentType
      pure (.object objectMeta)
  | .deleteObject bucket key => do
      Ferrobucket.deleteObject storage bucket key
      pure .done
  | .headObject bucket key => do
      let objectMeta ← Ferrobucket.headObject crates storage bucket key
      pure (.object objectMeta)
  | .getObject bucket key range => do
      let (objectMeta, stream) ← Ferrobucket.getObject crates storage bucket key range
      let bytes ← ioOp stream.collect
      pure (.stream objectMeta bytes true)

end Access

/-- The record of a put at this time. -/
def writtenRecord (crates : Crates) (key : Str) (body : Body) (contentType : Option Str) (time : Nat) :
    ObjectMeta :=
  ⟨key, (delivered body).length, contentType.getD defaultContentType, hexMd5 crates (delivered body), time⟩

/-! ### What a call does to one register -/

section Registers
variable (crates : Crates) (storage : FsStorage)

/-- The answer of a get that found a record, opened the body and found none. -/
def bodyMissing (bucket key encoded : Str) (range : Option ByteRange) : StorageError :=
  .NoSuchKey (if range.isNone then (storage.objectPath bucket encoded).display else key)

/-- A get with this range opens the body of this record. -/
def opensBody (range : Option ByteRange) (objectMeta : ObjectMeta) : Bool :=
  (rangeWindow range objectMeta.size []).isSome

/-- The record that a call finds and the one that it leaves, and what it answers then. -/
def Access.OnRecord (encoded : Str) (access : Access) (answers : Except StorageError Received → Prop)
    (before after : Option ObjectMeta) : Prop :=
  match access with
  | .putObject _ key body contentType => failure body = none ∧ ∃ time,
      after = some (writtenRecord crates key body contentType time) ∧
        ∀ outcome, answers outcome →
          outcome = .ok (.object (writtenRecord crates key body contentType time))
  | .deleteObject _ _ => after = none ∧ ∀ outcome, answers outcome → outcome = .ok .done
  | .headObject bucket _ => after = before ∧ ∀ outcome, answers outcome → match before with
      | none => outcome = .error (.NoSuchKey (storage.metaPath bucket encoded).display)
      | some objectMeta => outcome = .ok (.object objectMeta)
  | .getObject bucket key range => after = before ∧ ∀ outcome, answers outcome → match before with
      | none => outcome = .error (.NoSuchKey (storage.metaPath bucket encoded).display)
      | some objectMeta =>
          if opensBody range objectMeta then
            outcome = .error (bodyMissing storage bucket key encoded range) ∨
              ∃ bytes, outcome = .ok (.stream objectMeta bytes true)
          else outcome = .error .RangeNotSatisfiable

/-- The body that a call finds and the one that it leaves, and what it answers then. -/
def Access.OnBody (encoded : Str) (access : Access) (answers : Except StorageError Received → Prop)
    (before after : Option Bytes) : Prop :=
  match access with
  | .putObject _ key body contentType => failure body = none ∧ after = some (delivered body) ∧
      ∀ outcome, answers outcome → ∃ time,
        outcome = .ok (.object (writtenRecord crates key body contentType time))
  | .deleteObject _ key => after = none ∧ ∀ outcome, answers outcome → match before with
      | none => outcome = .error (.NoSuchKey key)
      | some _ => outcome = .ok .done
  | .headObject _ _ => False
  | .getObject bucket key range => after = before ∧ ∀ outcome, answers outcome → match before with
      | none => outcome = .error (bodyMissing storage bucket key encoded range)
      | some content => ∃ objectMeta bytes, outcome = .ok (.stream objectMeta bytes true) ∧
          rangeWindow range objectMeta.size content = some bytes

/-- The calls that have looked at the record, by their answer. -/
def Access.UsesRecord (access : Access) (outcome : Except StorageError Received) : Prop :=
  match access with
  | .headObject _ _ | .getObject _ _ _ => True
  | _ => outcome.isOk = true

/-- The calls that have looked at the body, by their answer. -/
def Access.UsesBody (encoded : Str) (access : Access) (outcome : Except StorageError Received) : Prop :=
  match access with
  | .deleteObject _ _ => True
  | .headObject _ _ => False
  | .putObject _ _ _ _ => outcome.isOk = true
  | .getObject bucket key range =>
      outcome.isOk = true ∨ outcome = .error (bodyMissing storage bucket key encoded range)

def recordEntry (record : Option ObjectMeta) : Option FS.Entry :=
  record.map fun objectMeta => .file (crates.objectMeta.encode objectMeta)

def bodyEntry (content : Option Bytes) : Option FS.Entry := content.map .file

/-! ### What holds all the time -/

/-- A file of the object that the call is on. -/
def StoredFile.Of (access : Access) : StoredFile → Prop
  | .body bucket encoded | .sidecar bucket encoded =>
      access.bucket = bucket ∧ encodeKey access.key = .ok encoded

/-- What a call may do to a file. -/
def Access.Does (access : Access) (file : StoredFile) (before after : Option FS.Entry) : Prop :=
  file.Of access ∧ match access with
    | .putObject _ key body contentType => failure body = none ∧ match file with
        | .body _ _ => after = some (.file (delivered body))
        | .sidecar _ _ => ∃ time,
            after = some (.file (crates.objectMeta.encode (writtenRecord crates key body contentType time)))
    | .deleteObject _ _ => after = none
    | .headObject _ _ => match file with
        | .body _ _ => False
        | .sidecar _ _ => after = before
    | .getObject _ _ _ => after = before

/-- A store with the same buckets and uploads, in which every sidecar still says its key. -/
structure Store.Continues (store now : Store) : Prop where
  sound : now.Sound
  uploads : now.uploads = store.uploads
  buckets : ∀ name, (now.buckets.lookup name).map (fun bucket => (bucket.info, bucket.sidecars.isSome)) =
    (store.buckets.lookup name).map fun bucket => (bucket.info, bucket.sidecars.isSome)
  named : (∀ name bucket, store.buckets.lookup name = some bucket → bucket.Named) →
    ∀ name bucket, now.buckets.lookup name = some bucket → bucket.Named

/-- Temporary files in these directories aside, this is the tree of the store. -/
def Displays (staging : Path → Prop) (s : FS) (store : Store) : Prop :=
  ∀ rel : List Str, ¬ IsTemp staging (rel.reverse ++ storage.dataRoot) →
    under storage.dataRoot s.look rel = store.view crates rel

/-- Every file is a register of the calls on its object, and all files are those of a store. -/
structure Registers {Thread : Type} (start : FS) (store : Store) (accesses : Thread → Access)
    (stages : Thread → Marks Thread StoredFile) (past : List (Event Thread Reply)) (s : FS) : Prop where
  cells : Cells (StoredFile.place storage) StoredFile.Proper
    (fun thread file => (accesses thread).Does crates file) start stages past s
  tree : ∃ now, store.Continues now ∧ Displays crates storage (Staging storage) s now

end Registers

section State
variable {crates : Crates} {storage : FsStorage} {s after : FS} {store now : Store}

theorem continues_refl (sound : store.Sound) : store.Continues store :=
  ⟨sound, rfl, fun _ => rfl, fun named => named⟩

/-- A bucket is replaced by one with the same record and the same directories. -/
theorem continues_setBucket {name : Str} {old new : Bucket} (continues : store.Continues now)
    (present : now.buckets.lookup name = some old) (good : new.Sound name)
    (info : new.info = old.info) (kept : new.sidecars.isSome = old.sidecars.isSome)
    (named : old.Named → new.Named) : store.Continues (now.setBucket name new) := by
  refine ⟨sound_setBucket continues.sound good, continues.uploads, ?_, ?_⟩
  · intro other
    rw [← continues.buckets other]
    by_cases same : other = name
    · subst same
      simp [Store.setBucket, present, info, kept]
    · simp [Store.setBucket, Finmap.lookup_insert_of_ne _ same]
  · intro start other found there
    by_cases same : other = name
    · subst same
      obtain rfl : new = found := by simpa [Store.setBucket] using there
      exact named (continues.named start _ old present)
    · rw [Store.setBucket, Finmap.lookup_insert_of_ne _ same] at there
      exact continues.named start other found there

/-- A bucket of the one store is a bucket of the other. -/
theorem continues_bucket {name : Str} {found : Bucket} {sidecars : Names ObjectMeta}
    (continues : store.Continues now) (present : store.buckets.lookup name = some found)
    (kept : found.sidecars = some sidecars) :
    ∃ bucket records, now.buckets.lookup name = some bucket ∧ bucket.sidecars = some records := by
  have same := continues.buckets name
  rw [present] at same
  obtain ⟨bucket, there, alike⟩ := Option.map_eq_some_iff.mp same
  have some : bucket.sidecars.isSome = true := by
    rw [(Prod.mk.inj alike).2, kept]
    rfl
  obtain ⟨records, kept⟩ := Option.isSome_iff_exists.mp some
  exact ⟨bucket, records, there, kept⟩

theorem displays_below (displays : Displays crates storage (Staging storage) s now) {name : Str} (inner : List Str)
    (valid : validateBucketName name = .ok ())
    (lasting : ¬ IsTemp (Staging storage) (inner.reverse ++ name :: storage.dataRoot)) :
    s.look (inner.reverse ++ name :: storage.dataRoot) =
      (now.buckets.lookup name).bind fun bucket => bucket.view crates inner := by
  have place : inner.reverse ++ name :: storage.dataRoot = (name :: inner).reverse ++ storage.dataRoot := by
    simp
  rw [place] at lasting ⊢
  rw [← view_bucket (bucket_not_uploads valid)]
  exact displays (name :: inner) lasting

/-- What is at the place of a body or a sidecar. -/
theorem displays_file (displays : Displays crates storage (Staging storage) s now) {file : StoredFile}
    (proper : file.Proper) : s.look (file.place storage) = match file with
      | .body bucket encoded => (now.buckets.lookup bucket).bind fun found =>
          bodyEntry (found.objects.lookup encoded)
      | .sidecar bucket encoded => (now.buckets.lookup bucket).bind fun found =>
          recordEntry crates (found.sidecars.bind fun sidecars =>
            sidecars.lookup (FsStorage.sidecarName encoded)) := by
  have lasting : ¬ IsTemp (Staging storage) (file.place storage) := StoredFile.place_lasting proper
  cases file with
  | body bucket encoded =>
      have seen := displays_below displays [objectsName, encoded] proper.1 lasting
      simpa [Bucket.view, bodyEntry, StoredFile.place, bodyPlace, objectsPlace] using seen
  | sidecar bucket encoded =>
      have seen := displays_below displays [metaName, FsStorage.sidecarName encoded] proper.1 lasting
      simpa [Bucket.view, recordEntry, StoredFile.place, sidecarPlace, metaPlace] using seen

theorem displays_not_dir (displays : Displays crates storage (Staging storage) s now) {file : StoredFile}
    (proper : file.Proper) : s.look (file.place storage) ≠ some .dir := by
  rw [displays_file displays proper]
  cases file with
  | body bucket encoded =>
      intro directory
      obtain ⟨found, _, entry⟩ := Option.bind_eq_some_iff.mp directory
      obtain ⟨content, _, impossible⟩ := Option.map_eq_some_iff.mp entry
      cases impossible
  | sidecar bucket encoded =>
      intro directory
      obtain ⟨found, _, entry⟩ := Option.bind_eq_some_iff.mp directory
      obtain ⟨objectMeta, _, impossible⟩ := Option.map_eq_some_iff.mp entry
      cases impossible

/-- The directories of a bucket are there. -/
theorem displays_dirs (displays : Displays crates storage (Staging storage) s now) {bucket : Str} {found : Bucket}
    {records : Names ObjectMeta} (valid : validateBucketName bucket = .ok ())
    (present : now.buckets.lookup bucket = some found) (kept : found.sidecars = some records) :
    s.look (bucket :: storage.dataRoot) = some .dir ∧
      s.look (objectsPlace storage bucket) = some .dir ∧
      s.look (metaPlace storage bucket) = some .dir := by
  refine ⟨?_, ?_, ?_⟩
  · have high : ¬ IsTemp (Staging storage) (bucket :: storage.dataRoot) := high_lasting (by simp)
    simpa [present, Bucket.view] using displays_below displays [] valid high
  · have high : ¬ IsTemp (Staging storage) (objectsPlace storage bucket) :=
      high_lasting (by simp [objectsPlace])
    simpa [present, Bucket.view, objectsPlace] using displays_below displays [objectsName] valid high
  · have high : ¬ IsTemp (Staging storage) (metaPlace storage bucket) :=
      high_lasting (by simp [metaPlace])
    simpa [present, kept, Bucket.view, metaPlace] using displays_below displays [metaName] valid high

/-- What belongs at the place of a file. -/
def StoredFile.Fits (crates : Crates) : StoredFile → Option FS.Entry → Prop
  | _, none => True
  | .body _ encoded, some entry => IsObjectName encoded ∧ ∃ content, entry = .file content
  | .sidecar _ encoded, some entry => IsObjectName encoded ∧ ∃ objectMeta : ObjectMeta,
      entry = .file (crates.objectMeta.encode objectMeta) ∧ encodeKey objectMeta.key = .ok encoded

/-- One path has changed, on the disk and in the store alike. -/
theorem displays_update {staging : Path → Prop} {later : Store} {rel : List Str} {entry : Option FS.Entry}
    (displays : Displays crates storage staging s now)
    (changed : later.view crates = Function.update (now.view crates) rel entry)
    (same : ∀ path, ¬ IsTemp staging path →
      after.look path = Function.update s.look (rel.reverse ++ storage.dataRoot) entry path) :
    Displays crates storage staging after later := by
  intro other lasting
  rw [changed, under, same _ lasting]
  by_cases here : other = rel
  · subst here
    rw [Function.update_self, Function.update_self]
  · have different : other.reverse ++ storage.dataRoot ≠ rel.reverse ++ storage.dataRoot :=
      fun equal => here (List.reverse_injective (List.append_cancel_right equal))
    rw [Function.update_of_ne different, Function.update_of_ne here]
    exact displays other lasting

/-- One path of a bucket has changed. -/
theorem displays_change {name : Str} {old new : Bucket} {inner : List Str} {entry : Option FS.Entry}
    (displays : Displays crates storage (Staging storage) s now) (valid : validateBucketName name = .ok ())
    (present : now.buckets.lookup name = some old)
    (changed : new.view crates = Function.update (old.view crates) inner entry)
    (same : ∀ path, ¬ IsTemp (Staging storage) path → after.look path =
      Function.update s.look (inner.reverse ++ name :: storage.dataRoot) entry path) :
    Displays crates storage (Staging storage) after (now.setBucket name new) := by
  apply displays_update displays (view_change_bucket (bucket_not_uploads valid) present changed)
  intro path lasting
  have place : (name :: inner).reverse ++ storage.dataRoot = inner.reverse ++ name :: storage.dataRoot := by
    simp
  rw [place]
  exact same path lasting

theorem named_insert_sidecar {old : Bucket} {sidecars : Names ObjectMeta} {encoded : Str}
    {objectMeta : ObjectMeta} (kept : old.sidecars = some sidecars)
    (admitted : encodeKey objectMeta.key = .ok encoded) (named : old.Named) :
    Bucket.Named { old with
      sidecars := some (sidecars.insert (FsStorage.sidecarName encoded) objectMeta) } := by
  intro inserted key other found same allowed written
  cases same
  by_cases this : other = encoded
  · subst this
    rw [Finmap.lookup_insert] at written
    cases written
    exact encode_key_injective admitted allowed
  · have different : FsStorage.sidecarName other ≠ FsStorage.sidecarName encoded :=
      fun equal => this (sidecar_injective equal)
    rw [Finmap.lookup_insert_of_ne _ different] at written
    exact named sidecars key other found kept allowed written

theorem named_erase_sidecar {old : Bucket} {sidecars : Names ObjectMeta} {name : Str}
    (kept : old.sidecars = some sidecars) (named : old.Named) :
    Bucket.Named { old with sidecars := some (sidecars.erase name) } := by
  intro erased key other found same allowed written
  cases same
  by_cases this : FsStorage.sidecarName other = name
  · rw [this, Finmap.lookup_erase] at written
    cases written
  · rw [Finmap.lookup_erase_ne this] at written
    exact named sidecars key other found kept allowed written

/-- A body or a sidecar that is put in its place or removed changes the store in the same way. -/
theorem tree_file {file : StoredFile} {entry : Option FS.Entry} (continues : store.Continues now)
    (displays : Displays crates storage (Staging storage) s now) (proper : file.Proper)
    (parent : s.look (file.place storage).tail = some .dir) (fits : file.Fits crates entry)
    (same : ∀ path, ¬ IsTemp (Staging storage) path →
      after.look path = Function.update s.look (file.place storage) entry path) :
    ∃ later, store.Continues later ∧ Displays crates storage (Staging storage) after later := by
  cases file with
  | body bucket encoded =>
      have high : ¬ IsTemp (Staging storage) (objectsPlace storage bucket) :=
        high_lasting (by simp [objectsPlace])
      have seen := displays_below displays [objectsName] proper.1 high
      cases present : now.buckets.lookup bucket with
      | none =>
          rw [present] at seen
          exact absurd (seen.symm.trans parent) (by simp)
      | some old =>
          have sound := continues.sound.buckets bucket old present
          cases entry with
          | none =>
              exact ⟨_, continues_setBucket continues present (sound_erase_object encoded sound) rfl rfl
                  fun named => named,
                displays_change displays proper.1 present (view_erase_object crates old encoded) same⟩
          | some found =>
              obtain ⟨object, content, rfl⟩ := fits
              exact ⟨_, continues_setBucket continues present (sound_insert_object content sound object) rfl rfl
                  fun named => named,
                displays_change displays proper.1 present (view_insert_object crates old encoded content) same⟩
  | sidecar bucket encoded =>
      have high : ¬ IsTemp (Staging storage) (metaPlace storage bucket) :=
        high_lasting (by simp [metaPlace])
      have seen := displays_below displays [metaName] proper.1 high
      cases present : now.buckets.lookup bucket with
      | none =>
          rw [present] at seen
          exact absurd (seen.symm.trans parent) (by simp)
      | some old =>
          have sound := continues.sound.buckets bucket old present
          cases kept : old.sidecars with
          | none =>
              simp only [present, Option.bind_some, Bucket.view, kept] at seen
              exact absurd (seen.symm.trans parent) (by simp)
          | some sidecars =>
              cases entry with
              | none =>
                  exact ⟨_, continues_setBucket continues present
                      (sound_erase_sidecar (FsStorage.sidecarName encoded) sound kept) rfl (by simp [kept])
                      (named_erase_sidecar kept),
                    displays_change displays proper.1 present
                      (view_erase_sidecar crates old (FsStorage.sidecarName encoded) kept) same⟩
              | some found =>
                  obtain ⟨object, objectMeta, rfl, named⟩ := fits
                  exact ⟨_, continues_setBucket continues present
                      (sound_insert_sidecar objectMeta sound kept object) rfl (by simp [kept])
                      (named_insert_sidecar kept named),
                    displays_change displays proper.1 present
                      (view_insert_sidecar crates old (FsStorage.sidecarName encoded) objectMeta kept) same⟩

end State

section Steps
variable {Thread : Type} {crates : Crates} {storage : FsStorage} {start s after : FS} {store : Store}
  {accesses : Thread → Access} {limit : start.nameMax = none ∨ start.nameMax = some 255}

/-- An event that is no coming to a file. -/
theorem registers_quiet {stages : Thread → Marks Thread StoredFile} {past : List (Event Thread Reply)}
    (registers : Registers crates storage start store accesses stages past s) (event : Event Thread Reply) :
    Registers crates storage start store accesses stages (past ++ [event]) s :=
  ⟨cells_quiet registers.cells event, registers.tree⟩

theorem registers_robust :
    Robust (bucketTerms storage start limit) (Registers crates storage start store accesses) where
  hidden := by
    intro stages past s after same registers
    obtain ⟨cells, now, continues, displays⟩ := registers
    refine ⟨cells_hidden cells fun file proper => same _ (StoredFile.place_lasting proper), now, continues, ?_⟩
    · intro rel lasting
      rw [← displays rel lasting]
      exact same _ lasting
  carries := fun _ _ event _ _ registers => registers_quiet registers event

theorem registers_start (holds : Holds crates storage start store) :
    Registers crates storage start store accesses (fun _ _ => none) [] start :=
  ⟨cells_start, store, continues_refl holds.sound, fun rel _ => congrFun holds.seen rel⟩

variable [DecidableEq Thread] {stages : Thread → Marks Thread StoredFile} {past : List (Event Thread Reply)}
  {thread : Thread} {stage : Marks Thread StoredFile} {event : Event Thread Reply} {file : StoredFile}

/-- The step in which a call comes to a file. -/
theorem registers_next {entry : Option FS.Entry}
    (registers : Registers crates storage start store accesses (Function.update stages thread stage) past s)
    (proper : file.Proper) (fresh : stage file = none) (own : event.thread = thread)
    (does : (accesses thread).Does crates file (s.look (file.place storage)) entry)
    (same : ∀ path, ¬ IsTemp (Staging storage) path →
      after.look path = Function.update s.look (file.place storage) entry path)
    (tree : ∃ now, store.Continues now ∧ Displays crates storage (Staging storage) after now) :
    Registers crates storage start store accesses
      (Function.update stages thread (Function.update stage file
        (some ⟨past ++ [event], s.look (file.place storage), entry⟩))) (past ++ [event]) after := by
  refine ⟨cells_next registers.cells proper fresh own does ?_ ?_, tree⟩
  · rw [same _ (StoredFile.place_lasting proper), Function.update_self]
  · intro other also different
    have apart : other.place storage ≠ file.place storage :=
      fun equal => different (StoredFile.place_injective equal)
    rw [same _ (StoredFile.place_lasting also), Function.update_of_ne apart]

/-- A temporary file takes the place of a file. -/
theorem registers_moved {temp : Temp} {content : Bytes} {held : Thread → Held}
    (registers : Registers crates storage start store accesses (Function.update stages thread stage) past s)
    (apart : Apart (bucketTerms storage start limit)
      (Function.update held thread (.writing temp content)) s)
    (proper : file.Proper) (fresh : stage file = none) (own : event.thread = thread)
    (parent : s.look (file.place storage).tail = some .dir) (fits : file.Fits crates (some (.file content)))
    (does : (accesses thread).Does crates file (s.look (file.place storage)) (some (.file content))) :
    Registers crates storage start store accesses
      (Function.update stages thread (Function.update stage file
        (some ⟨past ++ [event], s.look (file.place storage), some (.file content)⟩)))
      (past ++ [event]) (s.move temp.place (file.place storage)) := by
  have same : ∀ path, ¬ IsTemp (Staging storage) path →
      (s.move temp.place (file.place storage)).look path =
        Function.update s.look (file.place storage) (some (.file content)) path := by
    intro path lasting
    have away : path ≠ temp.place := by
      rintro rfl
      exact lasting (own_temp apart)
    rw [FS.look_move s (file.place storage) (own_look apart)]
    by_cases here : path = file.place storage
    · subst here
      rw [Function.update_self, Function.update_self]
    · rw [Function.update_of_ne here, Function.update_of_ne away, Function.update_of_ne here]
  obtain ⟨now, continues, displays⟩ := registers.tree
  exact registers_next registers proper fresh own does same
    (tree_file continues displays proper parent fits same)

/-- A file is removed. -/
theorem registers_dropped
    (registers : Registers crates storage start store accesses (Function.update stages thread stage) past s)
    (proper : file.Proper) (fresh : stage file = none) (own : event.thread = thread)
    (parent : s.look (file.place storage).tail = some .dir)
    (does : (accesses thread).Does crates file (s.look (file.place storage)) none) :
    Registers crates storage start store accesses
      (Function.update stages thread (Function.update stage file
        (some ⟨past ++ [event], s.look (file.place storage), none⟩)))
      (past ++ [event]) (s.drop (file.place storage)) := by
  have same : ∀ path, ¬ IsTemp (Staging storage) path →
      (s.drop (file.place storage)).look path =
        Function.update s.look (file.place storage) none path :=
    fun path _ => congrFun (FS.look_drop s _) path
  obtain ⟨now, continues, displays⟩ := registers.tree
  exact registers_next registers proper fresh own does same
    (tree_file continues displays proper parent (by cases file <;> trivial) same)

/-- A file is looked at, or was to be removed and is not there. -/
theorem registers_looked (event : Event Thread Reply)
    (registers : Registers crates storage start store accesses (Function.update stages thread stage) past s)
    (proper : file.Proper) (fresh : stage file = none) (own : event.thread = thread)
    (does : (accesses thread).Does crates file (s.look (file.place storage)) (s.look (file.place storage))) :
    Registers crates storage start store accesses
      (Function.update stages thread (Function.update stage file
        (some ⟨past ++ [event], s.look (file.place storage), s.look (file.place storage)⟩)))
      (past ++ [event]) s :=
  registers_next registers proper fresh own does
    (fun path _ => by rw [Function.update_eq_self]) registers.tree

end Steps

end Ferrobucket
