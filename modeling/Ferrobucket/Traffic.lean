import Ferrobucket.KeyPaths
import Ferrobucket.Writers
/-! Any number of clients on the same objects. Bodies and sidecars are only ever put in
place whole and removed whole, so each of them is at any time what the last call that
touched it left; a reader that has opened one keeps what it opened. -/
namespace Ferrobucket
open Text Posix Program

/-! ### The two files of an object -/

inductive StoredFile where
  | body (bucket encoded : Str)
  | sidecar (bucket encoded : Str)

namespace StoredFile

def path (storage : FsStorage) : StoredFile → PathBuf
  | .body bucket encoded => storage.objectPath bucket encoded
  | .sidecar bucket encoded => storage.metaPath bucket encoded

def place (storage : FsStorage) : StoredFile → Path
  | .body bucket encoded => bodyPlace storage bucket encoded
  | .sidecar bucket encoded => sidecarPlace storage bucket encoded

/-- A file of a key that is not empty, or the sidecar that the empty key would have. -/
def Proper : StoredFile → Prop
  | .body bucket encoded => validateBucketName bucket = .ok () ∧ IsObjectName encoded
  | .sidecar bucket encoded =>
      validateBucketName bucket = .ok () ∧ ∃ key, encodeKey key = .ok encoded

section Naming
variable {storage : FsStorage} {file other : StoredFile}

theorem object_path {bucket encoded : Str} (valid : validateBucketName bucket = .ok ())
    (slash : '/' ∉ encoded) :
    storage.objectPath bucket encoded = ⟨storage.dataRoot, [bucket, objectsName, encoded]⟩ := by
  obtain ⟨_, _, _, bucketSlash, _⟩ := name_parts (bucket_is_name valid)
  have objectsSlash : '/' ∉ objectsName := by decide
  unfold FsStorage.objectPath FsStorage.objectsDir FsStorage.bucketPath FsStorage.rootPath
  rw [join_name _ bucketSlash, join_name _ objectsSlash, join_name _ slash]
  rfl

theorem meta_path {bucket encoded : Str} (valid : validateBucketName bucket = .ok ())
    (slash : '/' ∉ FsStorage.sidecarName encoded) :
    storage.metaPath bucket encoded =
      ⟨storage.dataRoot, [bucket, metaName, FsStorage.sidecarName encoded]⟩ := by
  obtain ⟨_, _, _, bucketSlash, _⟩ := name_parts (bucket_is_name valid)
  have metaSlash : '/' ∉ metaName := by decide
  unfold FsStorage.metaPath FsStorage.metaDir FsStorage.bucketPath FsStorage.rootPath
  rw [join_name _ bucketSlash, join_name _ metaSlash, join_name _ slash]
  rfl

/-- The path of a file spells out its place. -/
theorem path_spells (storage : FsStorage) (proper : file.Proper) :
    ∃ parts : List Str, file.path storage = ⟨storage.dataRoot, parts⟩ ∧
      file.place storage = parts.reverse ++ storage.dataRoot ∧ parts.length = 3 := by
  cases file with
  | body bucket encoded =>
      obtain ⟨valid, object⟩ := proper
      obtain ⟨_, _, _, slash, _⟩ := name_parts (object_is_name object)
      exact ⟨_, object_path valid slash, rfl, rfl⟩
  | sidecar bucket encoded =>
      obtain ⟨valid, key, admitted⟩ := proper
      obtain ⟨_, _, _, slash, _⟩ := name_parts (encoded_sidecar_is_name admitted)
      exact ⟨_, meta_path valid slash, rfl, rfl⟩

theorem place_injective (same : file.place storage = other.place storage) : file = other := by
  cases file with
  | body bucket encoded =>
      cases other with
      | body bucket' encoded' =>
          obtain ⟨rfl, rfl⟩ := bodyPlace_injective same
          rfl
      | sidecar _ _ => exact absurd same body_not_sidecar
  | sidecar bucket encoded =>
      cases other with
      | body _ _ => exact absurd same.symm body_not_sidecar
      | sidecar bucket' encoded' =>
          obtain ⟨rfl, rfl⟩ := sidecarPlace_injective same
          rfl

theorem path_injective (proper : file.Proper) (also : other.Proper)
    (same : file.path storage = other.path storage) : file = other := by
  obtain ⟨parts, first, place, _⟩ := path_spells storage proper
  obtain ⟨parts', second, place', _⟩ := path_spells storage also
  rw [first, second] at same
  cases same
  exact place_injective (place.trans place'.symm)

theorem place_lasting (proper : file.Proper) : ¬ IsTemp (Staging storage) (file.place storage) := by
  cases file with
  | body bucket encoded => exact not_isTemp (object_not_temp proper.2)
  | sidecar bucket encoded =>
      obtain ⟨_, key, admitted⟩ := proper
      exact not_isTemp (sidecar_not_temp admitted)

theorem path_lasting (proper : file.Proper) : ¬ (file.path storage).Temporary := by
  cases file with
  | body bucket encoded =>
      exact not_temporary (object_is_name proper.2) (object_not_temp proper.2)
  | sidecar bucket encoded =>
      obtain ⟨_, key, admitted⟩ := proper
      exact not_temporary (encoded_sidecar_is_name admitted) (sidecar_not_temp admitted)

theorem place_smooth : ¬ BucketRecord storage (file.place storage) := by
  cases file <;> exact not_bucketRecord

/-- A path of another number of parts is not the path of a file. -/
theorem path_deep (proper : file.Proper) {path : PathBuf} (other : path.rel.length ≠ 3) :
    path ≠ file.path storage := by
  rintro rfl
  obtain ⟨parts, spelled, _, three⟩ := path_spells storage proper
  rw [spelled] at other
  exact other three

/-- The path of a file leads to its place. -/
theorem located {s : FS} {found : Path} (proper : file.Proper)
    (located : s.locate (file.path storage) = .ok found) : found = file.place storage := by
  obtain ⟨parts, spelled, place, _⟩ := path_spells storage proper
  have names : ∀ part ∈ (file.path storage).rel, isName part = true := by
    cases file with
    | body bucket encoded =>
        obtain ⟨valid, object⟩ := proper
        obtain ⟨_, _, _, slash, _⟩ := name_parts (object_is_name object)
        intro part member
        rw [path, object_path valid slash] at member
        simp only [List.mem_cons, List.not_mem_nil, or_false] at member
        rcases member with rfl | rfl | rfl
        · exact bucket_is_name valid
        · decide
        · exact object_is_name object
    | sidecar bucket encoded =>
        obtain ⟨valid, key, admitted⟩ := proper
        obtain ⟨_, _, _, slash, _⟩ := name_parts (encoded_sidecar_is_name admitted)
        intro part member
        rw [path, meta_path valid slash] at member
        simp only [List.mem_cons, List.not_mem_nil, or_false] at member
        rcases member with rfl | rfl | rfl
        · exact bucket_is_name valid
        · decide
        · exact encoded_sidecar_is_name admitted
  rw [FS.locate_names names located, place, spelled]

theorem place_deep (file : StoredFile) :
    (file.place storage).length = storage.dataRoot.length + 3 := by
  cases file <;> simp [place, bodyPlace, objectsPlace, sidecarPlace, metaPlace]

end Naming
end StoredFile

/-- A path that is not of a temporary file, the record of a bucket or a file of an object. -/
def Elsewhere (storage : FsStorage) (path : Path) : Prop :=
  ¬ IsTemp (Staging storage) path ∧ ¬ BucketRecord storage path ∧
    ∀ file : StoredFile, file.Proper → path ≠ file.place storage

/-! ### Clients -/

inductive Client where
  | putObject (bucket key : Str) (body : Body) (contentType : Option Str)
  | deleteObject (bucket key : Str)
  | completeMultipartUpload (bucket key uploadId : Str) (parts : List Int)
  | download (bucket key : Str) (range : Option ByteRange) (sizes : List Nat)
  | createBucket (name : Str)
  | deleteBucket (name : Str)

/-- What a client has in the end; of a download, the bytes that came and whether the stream
has ended. -/
inductive Received where
  | done
  | object (objectMeta : ObjectMeta)
  | stream (objectMeta : ObjectMeta) (bytes : Bytes) (whole : Bool)

/-- The part of a file that a stream delivers. -/
def ObjectStream.window (stream : ObjectStream) (content : Bytes) : Bytes :=
  match stream.limit with
  | none => content.drop stream.start
  | some limit => (content.drop stream.start).take limit

/-- The stream read piece by piece, each of at least one byte and at most one more than the
given number, until nothing is left or the reader goes away. -/
def ObjectStream.deliver (stream : ObjectStream) : List Nat → Nat → IoOp (Bytes × Bool)
  | [], _ => pure ([], false)
  | size :: sizes, position => do
      let content ← Prog.ofExcept (← Sys.read stream.handle)
      match ((stream.window content).drop position).take (size + 1) with
      | [] => pure ([], true)
      | byte :: bytes => do
          let later ← stream.deliver sizes (position + (bytes.length + 1))
          pure (byte :: bytes ++ later.1, later.2)

def Client.program (crates : Crates) (storage : FsStorage) : Client → Op Received
  | .putObject bucket key body contentType => do
      let objectMeta ← Ferrobucket.putObject crates storage bucket key body contentType
      pure (.object objectMeta)
  | .deleteObject bucket key => do
      Ferrobucket.deleteObject storage bucket key
      pure .done
  | .completeMultipartUpload bucket key uploadId parts => do
      let objectMeta ← Ferrobucket.completeMultipartUpload crates storage bucket key uploadId parts
      pure (.object objectMeta)
  | .download bucket key range sizes => do
      let found ← getObject crates storage bucket key range
      let delivered ← ioOp (found.2.deliver sizes 0)
      pure (.stream found.1 delivered.1 delivered.2)
  | .createBucket name => do
      Ferrobucket.createBucket crates storage name
      pure .done
  | .deleteBucket name => do
      Ferrobucket.deleteBucket storage name
      pure .done

/-- What a client stores when it gets through: the body and the record of one name. -/
def Client.Stores (crates : Crates) (store : Store) (bucket encoded : Str) (content : Bytes)
    (objectMeta : ObjectMeta) : Client → Prop
  | .putObject own key body contentType => own = bucket ∧ encodeKey key = .ok encoded ∧
      failure body = none ∧ content = delivered body ∧
      objectMeta = ⟨key, content.length, contentType.getD defaultContentType, hexMd5 crates content,
        objectMeta.lastModified⟩
  | .completeMultipartUpload _ key uploadId parts => ∃ upload,
      store.staged.lookup uploadId = some upload ∧ upload.record.bucket = bucket ∧
      encodeKey key = .ok encoded ∧
      Store.assembled upload (parts.insertionSort (· ≤ ·)) = some content ∧
      objectMeta = ⟨upload.record.key, content.length,
        upload.record.contentType.getD defaultContentType,
        hexMd5 crates content ++ '-' :: (toString parts.length).toList, objectMeta.lastModified⟩
  | _ => False

/-- What a client writes to a file. -/
def StoredFile.Written (crates : Crates) (store : Store) (client : Client) :
    StoredFile → Bytes → Prop
  | .body bucket encoded, content => ∃ objectMeta, client.Stores crates store bucket encoded content objectMeta
  | .sidecar bucket encoded, content => ∃ stored objectMeta,
      client.Stores crates store bucket encoded stored objectMeta ∧
      content = crates.objectMeta.encode objectMeta

/-- Does a client remove a file? -/
def StoredFile.Removed (client : Client) : StoredFile → Prop
  | .body bucket encoded | .sidecar bucket encoded =>
      match client with
      | .deleteObject own key => own = bucket ∧ encodeKey key = .ok encoded
      | _ => False

theorem removed_deletes {client : Client} {file : StoredFile} (removed : file.Removed client) :
    ∃ bucket key, client = .deleteObject bucket key := by
  cases file with
  | body bucket encoded | sidecar bucket encoded =>
      cases client with
      | deleteObject own key => exact ⟨own, key, rfl⟩
      | _ => exact absurd removed not_false

/-! ### What holds all the time -/

/-- What had happened when a thread last opened or changed a body and a sidecar, that step
included. -/
structure Sights (Thread : Type) where
  body : Option (List (Event Thread Reply)) := none
  sidecar : Option (List (Event Thread Reply)) := none

def Sights.Has {Thread : Type} (sights : Sights Thread) (seen : List (Event Thread Reply)) : Prop :=
  sights.body = some seen ∨ sights.sidecar = some seen

section Traffic
variable {Thread : Type} (crates : Crates) (storage : FsStorage) (start : FS) (store : Store)
  (clients : Thread → Client)

/-- A file has this entry after these events: what was there in the beginning, what the last
that touched it has stored, or nothing. -/
def Explains (file : StoredFile) (past : List (Event Thread Reply)) (entry : Option FS.Entry) : Prop :=
  Accounts (start.look (file.place storage))
    (fun thread content => file.Written crates store (clients thread) content)
    (fun thread => file.Removed (clients thread)) (lastTouch (file.path storage) past) entry

/-- Every body and every sidecar is as its last touch left it, no other file has appeared or
changed, and what the threads have seen has happened. -/
structure Traffic (stages : Thread → Sights Thread) (past : List (Event Thread Reply)) (s : FS) :
    Prop where
  files : ∀ file : StoredFile, file.Proper →
    Explains crates storage start store clients file past (s.look (file.place storage))
  others : ∀ path content, Elsewhere storage path → s.look path = some (.file content) →
    start.look path = some (.file content)
  seen : ∀ thread seen, (stages thread).Has seen → seen <+: past

variable {crates storage start store clients}
variable {limit : start.nameMax = none ∨ start.nameMax = some 255}

theorem traffic_robust :
    Robust (bucketTerms storage start limit) (Traffic crates storage start store clients) where
  hidden := by
    intro stages past s after same traffic
    refine ⟨?_, ?_, traffic.seen⟩
    · intro file proper
      rw [same _ (StoredFile.place_lasting proper)]
      exact traffic.files file proper
    · intro path content elsewhere present
      rw [same _ elsewhere.1] at present
      exact traffic.others path content elsewhere present
  carries := by
    intro stages past event s silent traffic
    refine ⟨?_, traffic.others, ?_⟩
    · intro file proper
      unfold Explains
      rw [lastTouch_silent silent (StoredFile.path_lasting proper)]
      exact traffic.files file proper
    · intro thread seen has
      exact (traffic.seen thread seen has).trans (List.prefix_append _ _)

theorem traffic_blind :
    Blind (bucketTerms storage start limit) (Traffic crates storage start store clients) := by
  intro stages past s after same traffic
  refine ⟨?_, ?_, traffic.seen⟩
  · intro file proper
    rw [same _ StoredFile.place_smooth]
    exact traffic.files file proper
  · intro path content elsewhere present
    rw [same _ elsewhere.2.1] at present
    exact traffic.others path content elsewhere present

variable [DecidableEq Thread] {stages : Thread → Sights Thread} {past : List (Event Thread Reply)}
  {s after : FS} {thread : Thread} {stage stage' : Sights Thread} {event : Event Thread Reply}

/-- One step of a thread: each file goes on from what it was, and nothing else appears. -/
theorem traffic_next
    (traffic : Traffic crates storage start store clients (Function.update stages thread stage) past s)
    (files : ∀ file : StoredFile, file.Proper → Accounts (s.look (file.place storage))
      (fun thread content => file.Written crates store (clients thread) content)
      (fun thread => file.Removed (clients thread)) (touch (file.path storage) event)
      (after.look (file.place storage)))
    (others : ∀ path content, Elsewhere storage path → after.look path = some (.file content) →
      s.look path = some (.file content))
    (sights : ∀ seen, stage'.Has seen → stage.Has seen ∨ seen = past ++ [event]) :
    Traffic crates storage start store clients (Function.update stages thread stage')
      (past ++ [event]) after := by
  refine ⟨?_, ?_, ?_⟩
  · intro file proper
    unfold Explains
    rw [lastTouch_snoc]
    exact accounts_next (traffic.files file proper) (files file proper)
  · intro path content elsewhere present
    exact traffic.others path content elsewhere (others path content elsewhere present)
  · intro other seen has
    have former := traffic.seen other seen
    by_cases same : other = thread
    · subst same
      rw [Function.update_self] at has former
      rcases sights seen has with before | rfl
      · exact (former before).trans (List.prefix_append _ _)
      · exact List.prefix_refl _
    · rw [Function.update_of_ne same] at has former
      exact (former has).trans (List.prefix_append _ _)

/-- Nothing has changed but what the thread has seen. -/
theorem traffic_looked (event : Event Thread Reply)
    (traffic : Traffic crates storage start store clients (Function.update stages thread stage) past s)
    (untouched : ∀ file : StoredFile, file.Proper → touch (file.path storage) event = none)
    (sights : ∀ seen, stage'.Has seen → stage.Has seen ∨ seen = past ++ [event]) :
    Traffic crates storage start store clients (Function.update stages thread stage')
      (past ++ [event]) s := by
  apply traffic_next traffic _ (fun _ _ _ present => present) sights
  intro file proper
  rw [untouched file proper]
  exact rfl

/-- A body or a sidecar is put in place. -/
theorem traffic_moved {file : StoredFile} {temp : Temp} {content : Bytes} {held : Thread → Held}
    (traffic : Traffic crates storage start store clients (Function.update stages thread stage) past s)
    (apart : Apart (bucketTerms storage start limit)
      (Function.update held thread (.writing temp content)) s)
    (proper : file.Proper) (written : file.Written crates store (clients thread) content)
    (sights : ∀ seen, stage'.Has seen → stage.Has seen ∨
      seen = past ++ [⟨thread, .rename temp.name (file.path storage), .ok ()⟩]) :
    Traffic crates storage start store clients (Function.update stages thread stage')
      (past ++ [⟨thread, .rename temp.name (file.path storage), .ok ()⟩])
      (s.move temp.place (file.place storage)) := by
  have moved := FS.look_move s (file.place storage) (own_look apart)
  have inStaging := own_temp apart
  have elsewhere : ∀ path, ¬ IsTemp (Staging storage) path → path ≠ file.place storage →
      (s.move temp.place (file.place storage)).look path = s.look path := by
    intro path lasting different
    have away : path ≠ temp.place := by
      rintro rfl
      exact lasting inStaging
    rw [moved, Function.update_of_ne different, Function.update_of_ne away]
  apply traffic_next traffic _ _ sights
  · intro other also
    by_cases same : file = other
    · subst same
      have touched : touch (file.path storage)
          (⟨thread, .rename temp.name (file.path storage), .ok ()⟩ : Event Thread Reply) =
            some (.installed thread) := if_pos rfl
      rw [touched, moved, Function.update_self]
      exact ⟨content, written, rfl⟩
    · have untouched : touch (other.path storage)
          (⟨thread, .rename temp.name (file.path storage), .ok ()⟩ : Event Thread Reply) = none :=
        if_neg fun equal => same (StoredFile.path_injective proper also equal)
      rw [untouched]
      exact elsewhere _ (StoredFile.place_lasting also)
        fun equal => same (StoredFile.place_injective equal).symm
  · intro path found outside present
    rwa [elsewhere path outside.1 (outside.2.2 file proper)] at present

/-- A body or a sidecar is removed. -/
theorem traffic_dropped {file : StoredFile}
    (traffic : Traffic crates storage start store clients (Function.update stages thread stage) past s)
    (proper : file.Proper) (removes : file.Removed (clients thread))
    (sights : ∀ seen, stage'.Has seen → stage.Has seen ∨
      seen = past ++ [⟨thread, .unlink (file.path storage), .ok ()⟩]) :
    Traffic crates storage start store clients (Function.update stages thread stage')
      (past ++ [⟨thread, .unlink (file.path storage), .ok ()⟩]) (s.drop (file.place storage)) := by
  apply traffic_next traffic _ _ sights
  · intro other also
    by_cases same : file = other
    · subst same
      have touched : touch (file.path storage)
          (⟨thread, .unlink (file.path storage), .ok ()⟩ : Event Thread Reply) =
            some (.removed thread) := if_pos rfl
      rw [touched, FS.look_drop, Function.update_self]
      exact ⟨removes, rfl⟩
    · have untouched : touch (other.path storage)
          (⟨thread, .unlink (file.path storage), .ok ()⟩ : Event Thread Reply) = none :=
        if_neg fun equal => same (StoredFile.path_injective proper also equal)
      have different : other.place storage ≠ file.place storage :=
        fun equal => same (StoredFile.place_injective equal).symm
      rw [untouched, FS.look_drop, Function.update_of_ne different]
      exact rfl
  · intro path content outside present
    rwa [FS.look_drop, Function.update_of_ne (outside.2.2 file proper)] at present

/-- A body or a sidecar was to be removed and is not there. -/
theorem traffic_missed {file : StoredFile}
    (traffic : Traffic crates storage start store clients (Function.update stages thread stage) past s)
    (proper : file.Proper) (removes : file.Removed (clients thread))
    (absent : s.look (file.place storage) = none)
    (sights : ∀ seen, stage'.Has seen → stage.Has seen ∨
      seen = past ++ [⟨thread, .unlink (file.path storage), .error .ENOENT⟩]) :
    Traffic crates storage start store clients (Function.update stages thread stage')
      (past ++ [⟨thread, .unlink (file.path storage), .error .ENOENT⟩]) s := by
  apply traffic_next traffic _ (fun _ _ _ present => present) sights
  intro other also
  by_cases same : file = other
  · subst same
    have touched : touch (file.path storage)
        (⟨thread, .unlink (file.path storage), .error .ENOENT⟩ : Event Thread Reply) =
          some (.removed thread) := if_pos rfl
    rw [touched]
    exact ⟨removes, absent⟩
  · have untouched : touch (other.path storage)
        (⟨thread, .unlink (file.path storage), .error .ENOENT⟩ : Event Thread Reply) = none :=
      if_neg fun equal => same (StoredFile.path_injective proper also equal)
    rw [untouched]
    exact rfl

/-- Something else is removed. -/
theorem traffic_cleared {place : Path}
    (traffic : Traffic crates storage start store clients (Function.update stages thread stage) past s)
    (untouched : ∀ file : StoredFile, file.Proper → touch (file.path storage) event = none)
    (other : ∀ file : StoredFile, file.Proper → file.place storage ≠ place) :
    Traffic crates storage start store clients (Function.update stages thread stage)
      (past ++ [event]) (s.drop place) := by
  apply traffic_next traffic _ _ fun _ has => .inl has
  · intro file proper
    rw [untouched file proper, FS.look_drop, Function.update_of_ne (other file proper)]
    exact rfl
  · intro path content _ present
    rw [FS.look_drop] at present
    by_cases same : path = place
    · subst same
      rw [Function.update_self] at present
      cases present
    · rwa [Function.update_of_ne same] at present

/-- A directory is made above the files. -/
theorem traffic_mkdir {place : Path}
    (traffic : Traffic crates storage start store clients (Function.update stages thread stage) past s)
    (untouched : ∀ file : StoredFile, file.Proper → touch (file.path storage) event = none)
    (high : place.length < storage.dataRoot.length + 3) :
    Traffic crates storage start store clients (Function.update stages thread stage)
      (past ++ [event]) (s.mkdirAt place) := by
  apply traffic_next traffic _ _ fun _ has => .inl has
  · intro file proper
    have different : file.place storage ≠ place := by
      rintro rfl
      rw [StoredFile.place_deep] at high
      exact lt_irrefl _ high
    rw [untouched file proper, FS.look_mkdirAt, Function.update_of_ne different]
    exact rfl
  · intro path content _ present
    rw [FS.look_mkdirAt] at present
    by_cases same : path = place
    · subst same
      rw [Function.update_self] at present
      cases present
    · rwa [Function.update_of_ne same] at present

end Traffic
end Ferrobucket
