import Ferrobucket.Traffic
/-! Every client keeps the traffic: what each of them does to the shared files, call by
call, and what it knows of them in the end. -/
namespace Ferrobucket
open Text Posix Program

/-! ### Directories above the files -/

/-- A path of plain names to a directory above the files of objects. -/
def Low (storage : FsStorage) (path : PathBuf) : Prop :=
  (∀ part ∈ path.rel, isName part = true) ∧
    path.base.length + path.rel.length < storage.dataRoot.length + 3

section Low
variable {storage : FsStorage} {path : PathBuf} {bucket name : Str}

theorem low_root : Low storage storage.rootPath :=
  ⟨by simp [FsStorage.rootPath], by simp [FsStorage.rootPath]⟩

theorem low_parent (low : Low storage path) : Low storage path.parent := by
  obtain ⟨names, short⟩ := low
  obtain ⟨base, rel⟩ := path
  cases rel with
  | nil =>
      refine ⟨nofun, ?_⟩
      simp only [PathBuf.parent, List.length_tail, List.length_nil] at short ⊢
      omega
  | cons part rest =>
      refine ⟨fun other member => names other (List.mem_of_mem_dropLast member), ?_⟩
      simp only [PathBuf.parent, List.length_dropLast] at short ⊢
      omega

theorem low_located {s : FS} {found : Path} (low : Low storage path)
    (located : s.locate path = .ok found) : found.length < storage.dataRoot.length + 3 := by
  obtain ⟨names, short⟩ := low
  rw [FS.locate_names names located]
  simp only [List.length_append, List.length_reverse]
  omega

theorem low_bucket (valid : validateBucketName bucket = .ok ()) :
    Low storage (storage.bucketPath bucket) := by
  obtain ⟨_, _, _, slash, _⟩ := name_parts (bucket_is_name valid)
  unfold FsStorage.bucketPath
  rw [join_name _ slash]
  refine ⟨?_, by simp [FsStorage.rootPath]⟩
  intro part member
  rw [show part = bucket by simpa [FsStorage.rootPath] using member]
  exact bucket_is_name valid

theorem low_inside (valid : validateBucketName bucket = .ok ()) (good : isName name = true) :
    Low storage ((storage.bucketPath bucket).join name) := by
  obtain ⟨_, _, _, bucketSlash, _⟩ := name_parts (bucket_is_name valid)
  obtain ⟨_, _, _, slash, _⟩ := name_parts good
  unfold FsStorage.bucketPath
  rw [join_name _ bucketSlash, join_name _ slash]
  refine ⟨?_, by simp [FsStorage.rootPath]⟩
  intro part member
  rcases List.mem_append.mp member with first | last
  · rw [show part = bucket by simpa [FsStorage.rootPath] using first]
    exact bucket_is_name valid
  · rw [List.mem_singleton.mp last]
    exact good

/-- No temporary file is that high. -/
theorem high_lasting {found : Path} (high : found.length < storage.dataRoot.length + 3) :
    ¬ IsTemp (Staging storage) found := by
  rintro ⟨_, _, rfl, _, _, _, rfl | rfl⟩
  · simp [objectsPlace] at high
  · simp [metaPlace] at high

theorem high_other {found : Path} (high : found.length < storage.dataRoot.length + 3)
    (file : StoredFile) : file.place storage ≠ found := by
  rintro rfl
  rw [StoredFile.place_deep] at high
  exact lt_irrefl _ high

end Low

/-! ### What the clients know in the end -/

section Knowing
variable {Thread : Type} (crates : Crates) (storage : FsStorage) (start : FS) (store : Store)
  (clients : Thread → Client) (thread : Thread)

/-- A stored object that was acknowledged: its thread has put both files in place. -/
structure Acknowledged (sights : Sights Thread) (bucket encoded : Str) (objectMeta : ObjectMeta) :
    Prop where
  valid : validateBucketName bucket = .ok ()
  object : IsObjectName encoded
  stores : ∃ content, (clients thread).Stores crates store bucket encoded content objectMeta
  short : exceeds start.nameMax (FsStorage.sidecarName encoded) = false
  body : ∃ seen, sights.body = some seen ∧
    lastTouch (storage.objectPath bucket encoded) seen = some (.installed thread)
  sidecar : ∃ seen, sights.sidecar = some seen ∧
    lastTouch (storage.metaPath bucket encoded) seen = some (.installed thread)

/-- The last of these events is a step of the thread. -/
def Own (seen : List (Event Thread Reply)) : Prop :=
  ∃ before event, seen = before ++ [event] ∧ event.thread = thread

/-- What a get with this range shows of a body, by the size in its record. -/
def rangeWindow (range : Option ByteRange) (size : Nat) (content : Bytes) : Option Bytes :=
  match range with
  | none => some content
  | some byteRange => (byteRange.resolve (UInt64.ofNat size)).map fun resolved =>
      (content.drop resolved.start.toNat).take resolved.length.toNat

/-- A download: the record is the one that the sidecar held when it was opened, and the bytes
are from the body as it was when that was opened, later. -/
structure Fetched (sights : Sights Thread) (bucket encoded : Str) (objectMeta : ObjectMeta)
    (content : Bytes) : Prop where
  valid : validateBucketName bucket = .ok ()
  object : IsObjectName encoded
  record : ∃ seen, sights.sidecar = some seen ∧ Own thread seen ∧
    Explains crates storage start store clients (.sidecar bucket encoded) seen
      (some (.file (crates.objectMeta.encode objectMeta)))
  body : ∃ seen, sights.body = some seen ∧ Own thread seen ∧
    Explains crates storage start store clients (.body bucket encoded) seen (some (.file content))
  order : ∀ older newer, sights.sidecar = some older → sights.body = some newer → older <+: newer

/-- A download that found nothing: one of the two files was not there when it was opened. -/
def Missed (sights : Sights Thread) (bucket key : Str) : Prop :=
  ∀ encoded, validateBucketName bucket = .ok () → encodeKey key = .ok encoded →
    exceeds start.nameMax (FsStorage.sidecarName encoded) = false → IsObjectName encoded →
    ∃ file seen entry, (file = .body bucket encoded ∨ file = .sidecar bucket encoded) ∧
      sights.Has seen ∧ Own thread seen ∧
      Explains crates storage start store clients file seen entry ∧
      ∀ content, entry ≠ some (.file content)

/-- What a client knows when it has ended. -/
def Reports (ghost : Ghost (Sights Thread)) (client : Client) (outcome : Except StorageError Received) :
    Prop :=
  match client with
  | .putObject _ _ _ _ | .completeMultipartUpload _ _ _ _ => ∀ objectMeta,
      outcome = .ok (.object objectMeta) → ∃ bucket encoded,
        Acknowledged crates storage start store clients thread ghost.stage bucket encoded objectMeta
  | .download bucket key range _ =>
      (∀ received, outcome = .ok received → ∃ objectMeta bytes whole encoded content window,
        received = .stream objectMeta bytes whole ∧ encodeKey key = .ok encoded ∧
          Fetched crates storage start store clients thread ghost.stage bucket encoded objectMeta content ∧
          rangeWindow range objectMeta.size content = some window ∧ bytes <+: window ∧
          (whole = true → bytes = window)) ∧
      ∀ e, outcome = .error e → range = none →
        Missed crates storage start store clients thread ghost.stage bucket key
  | _ => True

end Knowing

section Clients
variable {Thread : Type} [DecidableEq Thread] {crates : Crates} {storage : FsStorage} {start : FS}
  {store : Store} {clients : Thread → Client} {limit : start.nameMax = none ∨ start.nameMax = some 255}
  {thread : Thread} {stage : Sights Thread} {Error Value : Type}

variable (crates storage start store clients limit) in
/-- A program keeps the traffic. -/
abbrev KeepsTraffic {Error Value : Type} (thread : Thread) (program : Prog Call Reply Error Value)
    (post : Ghost (Sights Thread) → Except Error Value → Prop) (ghost : Ghost (Sights Thread)) : Prop :=
  Keeps (bucketTerms storage start limit) (Traffic crates storage start store clients) thread program
    post ghost

/-! ### Buckets -/

theorem keeps_lowMkdir {path : PathBuf} {next : Except Errno Unit → Prog Call Reply Error Value}
    {post : Ghost (Sights Thread) → Except Error Value → Prop} (low : Low storage path)
    (all : ∀ reply, KeepsTraffic crates storage start store clients limit thread (next reply) post
      ⟨stage, .nothing⟩) :
    KeepsTraffic crates storage start store clients limit thread (.call (.mkdir path) next) post
      ⟨stage, .nothing⟩ := by
  apply keeps_mkdir traffic_robust
  · intro world s found here located absent inside
    have high := low_located low located
    exact ⟨high_lasting high, traffic_mkdir here.extra (fun _ _ => rfl) high, all _⟩
  · exact fun e => all _

theorem keeps_createDirUpTo (height : Nat) {path : PathBuf} (low : Low storage path) :
    KeepsTraffic crates storage start store clients limit thread (createDirUpTo height path)
      (fun ghost _ => ghost = ⟨stage, .nothing⟩) ⟨stage, .nothing⟩ := by
  refine createDirUpTo_rule (fun path program => Low storage path →
    KeepsTraffic crates storage start store clients limit thread program
      (fun ghost _ => ghost = ⟨stage, .nothing⟩) ⟨stage, .nothing⟩) ?_ ?_ ?_ ?_ ?_ height path low
  · exact fun _ _ => rfl
  · exact fun _ _ _ => rfl
  · intro path next goes low
    exact keeps_lowMkdir low fun reply => goes reply low
  · intro path next goes low
    exact keeps_look traffic_robust rfl fun _ _ reply _ _ => goes reply low
  · intro path parents rest climbs goes low
    refine tracks_bind.mpr (tracks_mono (climbs (low_parent low)) ?_)
    rintro _ outcome rfl
    cases outcome with
    | error e => rfl
    | ok _ => exact goes low

theorem keeps_createDirAll {path : PathBuf} (low : Low storage path) :
    KeepsTraffic crates storage start store clients limit thread (ioOp (createDirAll path))
      (fun ghost _ => ghost = ⟨stage, .nothing⟩) ⟨stage, .nothing⟩ :=
  tracks_ioOp.mpr (keeps_createDirUpTo _ low)

theorem keeps_createBucket (name : Str) :
    KeepsTraffic crates storage start store clients limit thread (createBucket crates storage name)
      (fun _ _ => True) ⟨stage, .nothing⟩ := by
  unfold createBucket
  cases valid : validateBucketName name with
  | error e => exact trivial
  | ok _ =>
  simp only [lift, Prog.ofExcept, Prog.done_bind]
  have root : Low storage (storage.bucketPath name).parent := low_parent (low_bucket valid)
  refine tracks_bind.mpr (tracks_mono (keeps_createDirAll root) ?_)
  rintro _ outcome rfl
  cases outcome with
  | error e => exact trivial
  | ok _ =>
  simp only [Prog.send_bind]
  apply keeps_lowMkdir (low_bucket valid)
  intro reply
  cases reply with
  | error e => cases e <;> exact trivial
  | ok _ =>
  have objects : Low storage (storage.objectsDir name) := low_inside valid (by decide)
  refine tracks_bind.mpr (tracks_mono (keeps_createDirAll objects) ?_)
  rintro _ outcome rfl
  cases outcome with
  | error e => exact trivial
  | ok _ =>
  have sidecars : Low storage (storage.metaDir name) := low_inside valid (by decide)
  refine tracks_bind.mpr (tracks_mono (keeps_createDirAll sidecars) ?_)
  rintro _ outcome rfl
  cases outcome with
  | error e => exact trivial
  | ok _ =>
  apply keeps_look traffic_robust rfl
  intro _ _ time _ _
  apply tracks_ioOp.mpr
  unfold writeFile
  apply keeps_creat traffic_robust traffic_blind
  · intro s found located
    have reaches : Reaches none (storage.bucketPath name) (name :: storage.dataRoot) :=
      reaches_bucket (.inl rfl) valid
    obtain ⟨rfl, _⟩ := located_in reaches (by decide) located
    exact ⟨⟨name, valid, rfl⟩, List.cons_ne_nil _ _⟩
  · intro inode
    apply keeps_jot traffic_robust traffic_blind
    exact trivial
  · exact fun e => trivial

theorem keeps_removeDirGuarded {dir : PathBuf} (low : Low storage dir) (name : Str) :
    KeepsTraffic crates storage start store clients limit thread (removeDirGuarded dir name)
      (fun ghost _ => ghost = ⟨stage, .nothing⟩) ⟨stage, .nothing⟩ := by
  unfold removeDirGuarded
  apply keeps_rmdir traffic_robust
  · intro world s found here located inside empty
    have high := low_located low located
    exact ⟨high_lasting high, traffic_cleared here.extra (fun _ _ => rfl) (fun file _ => high_other high file),
      rfl⟩
  · intro e
    cases e with
    | ENOENT => rfl
    | _ =>
        apply keeps_look traffic_robust rfl
        intro _ _ reply _ _
        cases reply with
        | error _ => rfl
        | ok entries => cases entries <;> rfl

/-- The removals of `delete_bucket`, one after the other. -/
theorem keeps_clearBucket {name : Str} (valid : validateBucketName name = .ok ()) :
    KeepsTraffic crates storage start store clients limit thread (do
      removeDirGuarded (storage.objectsDir name) name
      removeDirGuarded (storage.metaDir name) name
      match ← (Sys.unlink ((storage.bucketPath name).join bucketJsonName)) with
      | .ok () => pure ()
      | .error .ENOENT => pure ()
      | .error e => throw (.Io (.os e))
      match ← Sys.rmdir (storage.bucketPath name) with
      | .ok () => pure ()
      | .error .ENOENT => pure ()
      | .error e => throw (.Io (.os e)) : Op Unit) (fun _ _ => True) ⟨stage, .nothing⟩ := by
  have objects : Low storage (storage.objectsDir name) := low_inside valid (by decide)
  have sidecars : Low storage (storage.metaDir name) := low_inside valid (by decide)
  have json : Low storage ((storage.bucketPath name).join bucketJsonName) :=
    low_inside valid (by decide)
  refine tracks_bind.mpr (tracks_mono (keeps_removeDirGuarded objects name) ?_)
  rintro _ outcome rfl
  cases outcome with
  | error e => exact trivial
  | ok _ =>
  refine tracks_bind.mpr (tracks_mono (keeps_removeDirGuarded sidecars name) ?_)
  rintro _ outcome rfl
  cases outcome with
  | error e => exact trivial
  | ok _ =>
  have last : KeepsTraffic crates storage start store clients limit thread (do
      match ← Sys.rmdir (storage.bucketPath name) with
      | .ok () => pure ()
      | .error .ENOENT => pure ()
      | .error e => throw (.Io (.os e)) : Op Unit) (fun _ _ => True) ⟨stage, .nothing⟩ := by
    apply keeps_rmdir traffic_robust
    · intro world s found here located inside empty
      have high := low_located (low_bucket valid) located
      exact ⟨high_lasting high,
        traffic_cleared here.extra (fun _ _ => rfl) (fun file _ => high_other high file), trivial⟩
    · intro e
      cases e <;> exact trivial
  have untouched : ∀ (file : StoredFile), file.Proper →
      (storage.bucketPath name).join bucketJsonName ≠ file.path storage := by
    intro file proper
    obtain ⟨_, _, _, bucketSlash, _⟩ := name_parts (bucket_is_name valid)
    have jsonSlash : '/' ∉ bucketJsonName := by decide
    apply StoredFile.path_deep proper
    unfold FsStorage.bucketPath FsStorage.rootPath
    rw [join_name _ bucketSlash, join_name _ jsonSlash]
    simp
  apply keeps_unlink
  · intro world s found content here located present
    have high := low_located json located
    exact ⟨stage, high_lasting high, traffic_cleared here.extra (fun file proper => if_neg (untouched file proper))
      (fun file _ => high_other high file), last⟩
  · intro world s e here why
    refine ⟨stage, traffic_looked _ here.extra ?_ fun _ has => .inl has, ?_⟩
    · intro file proper
      cases e <;> first | rfl | exact if_neg (untouched file proper)
    · cases e <;> first | exact last | exact trivial

theorem keeps_deleteBucket (name : Str) :
    KeepsTraffic crates storage start store clients limit thread (deleteBucket storage name)
      (fun _ _ => True) ⟨stage, .nothing⟩ := by
  unfold deleteBucket
  cases valid : validateBucketName name with
  | error e => exact trivial
  | ok _ =>
  simp only [lift, Prog.ofExcept, Prog.done_bind]
  apply keeps_look traffic_robust rfl
  intro _ _ there _ _
  cases there with
  | false => exact trivial
  | true =>
  apply keeps_look traffic_robust rfl
  intro _ _ listed _ _
  cases listed with
  | ok entries =>
      cases entries with
      | nil => exact keeps_clearBucket valid
      | cons entry rest => exact trivial
  | error e => cases e <;> first | exact keeps_clearBucket valid | exact trivial

/-! ### Objects -/

/-- Where there is no file of an object although its path was looked up. -/
theorem nofile_look {file : StoredFile} {s : FS} {e : Errno} (tree : s.Tree)
    (limited : s.nameMax = none ∨ s.nameMax = some 255) (proper : file.Proper)
    (why : NoFile s (file.path storage) e) :
    s.look (file.place storage) = none ∨ s.look (file.place storage) = some .dir ∧ e = .EISDIR ∨
      ∃ bucket encoded, file = .sidecar bucket encoded ∧
        exceeds s.nameMax (FsStorage.sidecarName encoded) = true ∧ e = .ENAMETOOLONG := by
  rcases why with lost | ⟨place, located, ⟨absent, _⟩ | ⟨directory, rfl⟩⟩
  · cases file with
    | body bucket encoded =>
        obtain ⟨valid, object⟩ := proper
        by_cases inside : s.look (objectsPlace storage bucket) = some .dir
        · obtain ⟨key, _, admitted⟩ := object
          have place := locate_body tree limited valid admitted inside
          rw [show s.locate (storage.objectPath bucket encoded) = .error e from lost] at place
          cases place
        · exact .inl (FS.tree_absent tree inside encoded)
    | sidecar bucket encoded =>
        obtain ⟨valid, key, admitted⟩ := proper
        by_cases inside : s.look (metaPlace storage bucket) = some .dir
        · have place := locate_meta_path tree limited valid admitted inside
          rw [show s.locate (storage.metaPath bucket encoded) = .error e from lost] at place
          split_ifs at place with long
          cases place
          exact .inr (.inr ⟨bucket, encoded, rfl, long, rfl⟩)
        · exact .inl (FS.tree_absent tree inside (FsStorage.sidecarName encoded))
  · rw [StoredFile.located proper located] at absent
    exact .inl absent
  · rw [StoredFile.located proper located] at directory
    exact .inr (.inl ⟨directory, rfl⟩)

theorem traffic_limited {world : (Thread → Ghost (Sights Thread)) × List (Event Thread Reply)}
    {ghost : Ghost (Sights Thread)} {s : FS}
    (here : Here (bucketTerms storage start limit) (Traffic crates storage start store clients) thread
      world ghost s) : s.nameMax = none ∨ s.nameMax = some 255 := by
  have same : s.nameMax = start.nameMax := here.apart.limit
  rw [same]
  exact limit

/-- Removing a file of an object, whether it is there or not. -/
theorem keeps_unlinkFile {file : StoredFile} {next : Except Errno Unit → Prog Call Reply Error Value}
    {post : Ghost (Sights Thread) → Except Error Value → Prop} (proper : file.Proper)
    (removes : file.Removed (clients thread))
    (all : ∀ reply, KeepsTraffic crates storage start store clients limit thread (next reply) post
      ⟨stage, .nothing⟩) :
    KeepsTraffic crates storage start store clients limit thread (.call (.unlink (file.path storage)) next)
      post ⟨stage, .nothing⟩ := by
  apply keeps_unlink
  · intro world s place content here located present
    obtain rfl := StoredFile.located proper located
    exact ⟨stage, StoredFile.place_lasting proper, traffic_dropped here.extra proper removes
      fun _ has => .inl has,
      all _⟩
  · intro world s e here why
    refine ⟨stage, ?_, all _⟩
    rcases nofile_look here.apart.tree (traffic_limited here) proper why with
      absent | ⟨_, rfl⟩ | ⟨_, _, _, _, rfl⟩
    · cases e with
      | ENOENT => exact traffic_missed here.extra proper removes absent fun _ has => .inl has
      | _ => exact traffic_looked _ here.extra (fun _ _ => rfl) fun _ has => .inl has
    · exact traffic_looked _ here.extra (fun _ _ => rfl) fun _ has => .inl has
    · exact traffic_looked _ here.extra (fun _ _ => rfl) fun _ has => .inl has

theorem keeps_deleteObject {bucket key : Str} (same : clients thread = .deleteObject bucket key) :
    KeepsTraffic crates storage start store clients limit thread (deleteObject storage bucket key)
      (fun _ _ => True) ⟨stage, .nothing⟩ := by
  unfold deleteObject
  cases valid : validateBucketName bucket with
  | error e => exact trivial
  | ok _ =>
  cases admitted : encodeKey key with
  | error e => exact trivial
  | ok encoded =>
  simp only [lift, Prog.ofExcept, Prog.done_bind, Prog.send_bind]
  have sidecar : (StoredFile.sidecar bucket encoded).Proper := ⟨valid, key, admitted⟩
  have removes : (StoredFile.sidecar bucket encoded).Removed (clients thread) ∧
      (StoredFile.body bucket encoded).Removed (clients thread) := by
    rw [same]
    exact ⟨⟨rfl, admitted⟩, rfl, admitted⟩
  by_cases empty : encoded = []
  · -- The empty key leads to the objects directory, which is no file.
    subst empty
    have slash : '/' ∉ ([] : Str) := List.not_mem_nil
    have untouched : ∀ file : StoredFile, file.Proper →
        storage.objectPath bucket [] ≠ file.path storage := by
      intro file proper same
      rw [StoredFile.object_path valid slash] at same
      cases file with
      | body other encoded =>
          obtain ⟨otherValid, object⟩ := proper
          obtain ⟨nonempty, _, _, objectSlash, _⟩ := name_parts (object_is_name object)
          rw [StoredFile.path, StoredFile.object_path otherValid objectSlash] at same
          cases same
          exact nonempty rfl
      | sidecar other encoded =>
          obtain ⟨otherValid, key, allowed⟩ := proper
          obtain ⟨_, _, _, sidecarSlash, _⟩ := name_parts (encoded_sidecar_is_name allowed)
          rw [StoredFile.path, StoredFile.meta_path otherValid sidecarSlash] at same
          simp only [PathBuf.mk.injEq, List.cons.injEq] at same
          exact objects_not_meta same.2.2.1
    apply keeps_unlink
    · intro world s place content here located present
      obtain ⟨inside, ⟨object, _⟩ | ⟨_, rfl⟩⟩ := located_object valid admitted located
      · exact absurd rfl (name_parts (object_is_name object)).1
      · rw [inside] at present
        cases present
    · intro world s e here why
      refine ⟨stage, traffic_looked _ here.extra ?_ fun _ has => .inl has, ?_⟩
      · intro file proper
        cases e <;> first | rfl | exact if_neg (untouched file proper)
      · cases e <;> exact trivial
  · have body : (StoredFile.body bucket encoded).Proper := ⟨valid, encoded_object admitted empty⟩
    apply keeps_unlinkFile body removes.2
    intro reply
    cases reply with
    | error e => cases e <;> exact trivial
    | ok _ =>
        apply keeps_unlinkFile sidecar removes.1
        intro reply
        cases reply with
        | ok _ => exact trivial
        | error e => cases e <;> exact trivial

/-- Writing the sidecar of what the thread has put in place. -/
theorem keeps_sidecar {bucket key encoded : Str} {content : Bytes} {objectMeta : ObjectMeta}
    {post : Ghost (Sights Thread) → Except StorageError Unit → Prop}
    (valid : validateBucketName bucket = .ok ()) (admitted : encodeKey key = .ok encoded)
    (stores : (clients thread).Stores crates store bucket encoded content objectMeta)
    (failed : ∀ e, post ⟨stage, .nothing⟩ (.error e))
    (written : ∀ seen, lastTouch (storage.metaPath bucket encoded) seen = some (.installed thread) →
      exceeds start.nameMax (FsStorage.sidecarName encoded) = false →
      post ⟨{ stage with sidecar := some seen }, .nothing⟩ (.ok ())) :
    KeepsTraffic crates storage start store clients limit thread
      (writeSidecar crates (storage.metaPath bucket encoded) objectMeta) post ⟨stage, .nothing⟩ := by
  have proper : (StoredFile.sidecar bucket encoded).Proper := ⟨valid, key, admitted⟩
  have reaches : Reaches start.nameMax (storage.metaDir bucket) (metaPlace storage bucket) :=
    reaches_meta limit valid
  apply keeps_writeSidecar traffic_robust admitted reaches ⟨bucket, valid, .inr rfl⟩
  · exact fun _ _ _ _ _ _ _ _ => failed _
  · exact fun _ _ _ _ _ _ _ => failed _
  · intro world s file found here arrival free
    obtain ⟨rfl, inside, short⟩ := located_sidecar valid admitted arrival
    have fits : exceeds start.nameMax (FsStorage.sidecarName encoded) = false := by
      rwa [FS.tooLong, here.apart.limit] at short
    refine ⟨{ stage with sidecar := some (world.2 ++
      [⟨thread, .rename file.name (storage.metaPath bucket encoded), .ok ()⟩]) }, inside,
      StoredFile.place_lasting proper, not_bucketRecord, ?_, written _ lastTouch_installed fits⟩
    have given : (StoredFile.sidecar bucket encoded).Written crates store (clients thread)
        (crates.objectMeta.encode objectMeta) := ⟨content, objectMeta, stores, rfl⟩
    apply traffic_moved here.extra here.apart proper given
    rintro seen (body | same)
    · exact .inl (.inl body)
    · exact .inr (Option.some.inj same).symm

theorem keeps_putObject {bucket key : Str} {body : Body} {contentType : Option Str}
    (same : clients thread = .putObject bucket key body contentType) :
    KeepsTraffic crates storage start store clients limit thread
      (putObject crates storage bucket key body contentType)
      (fun ghost outcome => ∀ objectMeta, outcome = .ok objectMeta → ∃ encoded, encodeKey key = .ok encoded ∧
        Acknowledged crates storage start store clients thread ghost.stage bucket encoded objectMeta)
      ⟨stage, .nothing⟩ := by
  unfold putObject
  cases valid : validateBucketName bucket with
  | error e => rintro _ ⟨⟩
  | ok _ =>
  simp only [lift, Prog.ofExcept, Prog.done_bind, Prog.send_bind]
  apply keeps_look traffic_robust rfl
  intro _ _ there _ _
  cases there with
  | false => rintro _ ⟨⟩
  | true =>
  simp only [Bool.not_true, Bool.false_eq_true, if_false]
  cases admitted : encodeKey key with
  | error e => rintro _ ⟨⟩
  | ok encoded =>
  simp only [Prog.done_bind]
  have reaches : Reaches start.nameMax (storage.objectsDir bucket) (objectsPlace storage bucket) :=
    reaches_objects limit valid
  refine tracks_bind.mpr ?_
  apply keeps_writeObjectBody traffic_robust reaches ⟨bucket, valid, .inl rfl⟩
  · rintro _ _ _ _ _ _ _ _ _ ⟨⟩
  · rintro _ _ _ ⟨⟩
  · rintro _ _ _ _ _ _ _ _ _ ⟨⟩
  · intro world s file place whole here arrival free
    obtain ⟨inside, ⟨object, rfl⟩ | ⟨_, rfl⟩⟩ := located_object valid admitted arrival
    swap
    · exact absurd inside free
    have proper : (StoredFile.body bucket encoded).Proper := ⟨valid, object⟩
    have stores : ∀ time, (clients thread).Stores crates store bucket encoded (delivered body)
        ⟨key, (delivered body).length, contentType.getD defaultContentType,
          hexMd5 crates (delivered body), time⟩ := by
      intro time
      rw [same]
      exact ⟨rfl, admitted, whole, rfl, rfl⟩
    refine ⟨{ stage with body := some (world.2 ++
      [⟨thread, .rename file.name (storage.objectPath bucket encoded), .ok ()⟩]) }, inside,
      StoredFile.place_lasting proper, not_bucketRecord, ?_, ?_⟩
    · have given : (StoredFile.body bucket encoded).Written crates store (clients thread)
          (delivered body) := ⟨_, stores 0⟩
      apply traffic_moved here.extra here.apart proper given
      rintro seen (own | sidecar)
      · exact .inr (Option.some.inj own).symm
      · exact .inl (.inr sidecar)
    apply keeps_look traffic_robust rfl
    intro _ _ time _ _
    refine tracks_bind.mpr ?_
    apply keeps_sidecar valid admitted (stores time)
    · rintro _ _ ⟨⟩
    · rintro seen installed short _ ⟨⟩
      exact ⟨encoded, rfl, valid, object, ⟨_, stores time⟩, short, ⟨_, rfl, lastTouch_installed⟩, seen, rfl,
        installed⟩

/-! ### Downloads -/

/-- Reading a record: what is opened is what is decoded. -/
theorem keeps_readJson {Record : Type} {codec : Codec Record} {missing : Str → StorageError}
    {path : PathBuf} {post : Ghost (Sights Thread) → Except StorageError Record → Prop}
    (released : ∀ stage inode content outcome, post ⟨stage, .nothing⟩ outcome →
      post ⟨stage, .reading inode content⟩ outcome)
    (opened : ∀ world s place content inode,
      Here (bucketTerms storage start limit) (Traffic crates storage start store clients) thread world
        ⟨stage, .nothing⟩ s →
      s.locate path = .ok place → s.look place = some (.file content) →
      ∃ stage', ¬ IsTemp (Staging storage) place ∧ ¬ BucketRecord storage place ∧
        Traffic crates storage start store clients (stagesWith world thread stage')
          (world.2 ++ [⟨thread, .open path, .ok inode⟩]) s ∧
        post ⟨stage', .nothing⟩ ((codec.decode content).mapError fun text => .Io (.invalidData text)))
    (lost : ∀ world s e,
      Here (bucketTerms storage start limit) (Traffic crates storage start store clients) thread world
        ⟨stage, .nothing⟩ s → NoFile s path e →
      ∃ stage', Traffic crates storage start store clients (stagesWith world thread stage')
          (world.2 ++ [⟨thread, .open path, .error e⟩]) s ∧
        ∀ error, post ⟨stage', .nothing⟩ (.error error)) :
    KeepsTraffic crates storage start store clients limit thread (readJson codec missing path) post
      ⟨stage, .nothing⟩ := by
  unfold readJson readFile
  refine tracks_bind.mpr (tracks_attempt.mpr ?_)
  simp only [Prog.send_bind]
  apply keeps_open
  · intro world s place content inode here located present
    obtain ⟨stage', lasting, smooth, traffic, decoded⟩ := opened world s place content inode here located present
    refine ⟨stage', lasting, smooth, traffic, ?_⟩
    apply keeps_read traffic_robust
    cases outcome : codec.decode content with
    | ok record =>
        rw [outcome] at decoded
        simp only [Prog.ofExcept, tracks, outcome]
        exact released _ _ _ _ decoded
    | error text =>
        rw [outcome] at decoded
        simp only [Prog.ofExcept, tracks, outcome]
        exact released _ _ _ _ decoded
  · intro world s e here why
    obtain ⟨stage', traffic, failed⟩ := lost world s e here why
    refine ⟨stage', traffic, ?_⟩
    cases e <;> exact failed _

/-- What is left after a piece. -/
theorem piece_split {rest piece : Bytes} {size : Nat} (taken : rest.take size = piece) :
    rest = piece ++ rest.drop piece.length := by
  have front : piece <+: rest := taken ▸ List.take_prefix _ _
  have parts := List.take_append_drop piece.length rest
  rw [← List.prefix_iff_eq_take.mp front] at parts
  exact parts.symm

/-- The pieces of a stream, one after the other, are those of what was opened. -/
theorem keeps_deliver {stream : ObjectStream} {content : Bytes} (sizes : List Nat) (position : Nat) :
    KeepsTraffic crates storage start store clients limit thread (stream.deliver sizes position)
      (fun ghost outcome => ghost = ⟨stage, .reading stream.handle content⟩ ∧
        ∃ bytes whole, outcome = .ok (bytes, whole) ∧
          bytes <+: (stream.window content).drop position ∧
          (whole = true → bytes = (stream.window content).drop position))
      ⟨stage, .reading stream.handle content⟩ := by
  induction sizes generalizing position with
  | nil => exact ⟨rfl, [], false, rfl, List.nil_prefix, nofun⟩
  | cons size sizes ih =>
      unfold ObjectStream.deliver
      simp only [Prog.send_bind]
      apply keeps_read traffic_robust
      simp only [Prog.ofExcept, Prog.done_bind]
      cases piece : ((stream.window content).drop position).take (size + 1) with
      | nil =>
          have ended : (stream.window content).drop position = [] := by
            rcases List.take_eq_nil_iff.mp piece with impossible | ended
            · cases impossible
            · exact ended
          refine ⟨rfl, [], true, rfl, List.nil_prefix, fun _ => ended.symm⟩
      | cons byte bytes =>
          have split : (stream.window content).drop position =
              byte :: bytes ++ (stream.window content).drop (position + (bytes.length + 1)) := by
            rw [← List.drop_drop]
            exact piece_split piece
          refine tracks_bind.mpr (tracks_mono (ih _) ?_)
          rintro _ _ ⟨rfl, later, whole, rfl, front, all⟩
          refine ⟨rfl, byte :: bytes ++ later, whole, rfl, ?_, ?_⟩
          · rw [split]
            exact (List.prefix_append_right_inj _).mpr front
          · intro finished
            rw [split, all finished]

omit [DecidableEq Thread] in
/-- Whatever is in a sidecar is a record. -/
theorem sidecar_record {bucket encoded : Str} {past : List (Event Thread Reply)} {content : Bytes}
    (holds : Holds crates storage start store) (valid : validateBucketName bucket = .ok ())
    (explained : Explains crates storage start store clients (.sidecar bucket encoded) past
      (some (.file content))) : ∃ objectMeta, content = crates.objectMeta.encode objectMeta := by
  unfold Explains at explained
  cases last : lastTouch ((StoredFile.sidecar bucket encoded).path storage) past with
  | none =>
      rw [last] at explained
      have before : start.look (FsStorage.sidecarName encoded :: metaName :: bucket :: storage.dataRoot) =
          some (.file content) := Eq.symm explained
      cases present : store.buckets.lookup bucket with
      | none =>
          have seen := look_below holds valid [metaName, FsStorage.sidecarName encoded]
          simp only [present, Option.bind_none] at seen
          rw [show start.look (FsStorage.sidecarName encoded :: metaName :: bucket :: storage.dataRoot) =
            none from seen] at before
          cases before
      | some found =>
          rw [look_sidecar holds valid present] at before
          obtain ⟨objectMeta, _, same⟩ := Option.map_eq_some_iff.mp before
          cases same
          exact ⟨objectMeta, rfl⟩
  | some touched =>
      rw [last] at explained
      cases touched with
      | removed other => cases explained.2
      | installed other =>
          obtain ⟨written, ⟨_, objectMeta, _, rfl⟩, same⟩ := explained
          cases same
          exact ⟨objectMeta, rfl⟩

omit [DecidableEq Thread] in
/-- A file that could not be opened was not there. -/
theorem missed_file {file : StoredFile} {bucket key encoded : Str} {sights : Sights Thread}
    {stages : Thread → Sights Thread} {past : List (Event Thread Reply)} {s : FS} {e : Errno}
    {event : Event Thread Reply} (tree : s.Tree) (same : s.nameMax = start.nameMax)
    (limited : start.nameMax = none ∨ start.nameMax = some 255)
    (traffic : Traffic crates storage start store clients stages (past ++ [event]) s)
    (admitted : encodeKey key = .ok encoded) (own : event.thread = thread)
    (which : file = .body bucket encoded ∨ file = .sidecar bucket encoded)
    (why : NoFile s (file.path storage) e) (has : sights.Has (past ++ [event])) :
    Missed crates storage start store clients thread sights bucket key := by
  intro name valid again short object
  rw [admitted] at again
  cases again
  have proper : file.Proper := by
    rcases which with rfl | rfl
    · exact ⟨valid, object⟩
    · exact ⟨valid, key, admitted⟩
  refine ⟨file, past ++ [event], s.look (file.place storage), which, has, ⟨past, event, rfl, own⟩,
    traffic.files file proper, ?_⟩
  intro content
  rcases nofile_look tree (same ▸ limited) proper why with absent | ⟨directory, _⟩ | ⟨_, _, rfl, long, _⟩
  · simp [absent]
  · simp [directory]
  · rcases which with impossible | equal
    · cases impossible
    · cases equal
      rw [same, short] at long
      cases long

/-- The body is opened after the sidecar. -/
theorem keeps_openBody {bucket key encoded : Str} {objectMeta : ObjectMeta}
    {older : List (Event Thread Reply)} {next : Except Errno Handle → Prog Call Reply Error Value}
    {post : Ghost (Sights Thread) → Except Error Value → Prop}
    (valid : validateBucketName bucket = .ok ()) (admitted : encodeKey key = .ok encoded)
    (sidecar : stage.sidecar = some older) (own : Own thread older)
    (record : Explains crates storage start store clients (.sidecar bucket encoded) older
      (some (.file (crates.objectMeta.encode objectMeta))))
    (opened : ∀ stage' content inode,
      Fetched crates storage start store clients thread stage' bucket encoded objectMeta content →
      KeepsTraffic crates storage start store clients limit thread (next (.ok inode)) post
        ⟨stage', .reading inode content⟩)
    (lost : ∀ stage' e, Missed crates storage start store clients thread stage' bucket key →
      KeepsTraffic crates storage start store clients limit thread (next (.error e)) post
        ⟨stage', .nothing⟩) :
    KeepsTraffic crates storage start store clients limit thread
      (.call (.open (storage.objectPath bucket encoded)) next) post ⟨stage, .nothing⟩ := by
  have sights : ∀ past event seen,
      (⟨some (past ++ [event]), stage.sidecar⟩ : Sights Thread).Has seen →
        stage.Has seen ∨ seen = past ++ [event] := by
    rintro past event seen (same | before)
    · exact .inr (Option.some.inj same).symm
    · exact .inl (.inr before)
  apply keeps_open
  · intro world s place content inode here located present
    obtain ⟨inside, ⟨object, rfl⟩ | ⟨_, rfl⟩⟩ := located_object valid admitted located
    swap
    · rw [inside] at present
      cases present
    have proper : (StoredFile.body bucket encoded).Proper := ⟨valid, object⟩
    have before : older <+: world.2 := by
      apply here.extra.seen thread
      rw [stagesWith, Function.update_self]
      exact .inr sidecar
    have traffic := traffic_looked ⟨thread, .open (storage.objectPath bucket encoded), .ok inode⟩ here.extra
      (fun _ _ => rfl) (sights world.2 _)
    refine ⟨_, StoredFile.place_lasting proper, not_bucketRecord, traffic, opened _ _ _ ?_⟩
    refine ⟨valid, object, ⟨older, sidecar, own, record⟩, ⟨_, rfl, ⟨_, _, rfl, rfl⟩, ?_⟩, ?_⟩
    · have explained := traffic.files _ proper
      rwa [show s.look ((StoredFile.body bucket encoded).place storage) = some (.file content) from
        present] at explained
    · intro first second same other
      rw [sidecar] at same
      cases same
      cases other
      exact before.trans (List.prefix_append _ _)
  · intro world s e here why
    have traffic := traffic_looked ⟨thread, .open (storage.objectPath bucket encoded), .error e⟩ here.extra
      (fun _ _ => rfl) (sights world.2 _)
    refine ⟨_, traffic, lost _ _ ?_⟩
    exact missed_file here.apart.tree here.apart.limit limit traffic admitted rfl (.inl rfl) why (.inl rfl)

theorem keeps_getObject (holds : Holds crates storage start store) (bucket key : Str)
    (range : Option ByteRange) :
    KeepsTraffic crates storage start store clients limit thread (getObject crates storage bucket key range)
      (fun ghost outcome => match outcome with
        | .ok (objectMeta, stream) => ∃ encoded content, encodeKey key = .ok encoded ∧
            Fetched crates storage start store clients thread ghost.stage bucket encoded objectMeta content ∧
            ghost.held = .reading stream.handle content ∧
            rangeWindow range objectMeta.size content = some (stream.window content)
        | .error _ => range = none →
            Missed crates storage start store clients thread ghost.stage bucket key)
      ⟨stage, .nothing⟩ := by
  unfold getObject
  cases valid : validateBucketName bucket with
  | error e => exact fun _ _ impossible => nomatch valid.symm.trans impossible
  | ok _ =>
  cases admitted : encodeKey key with
  | error e => exact fun _ _ _ impossible => nomatch admitted.symm.trans impossible
  | ok encoded =>
  simp only [lift, Prog.ofExcept, Prog.done_bind]
  have proper : (StoredFile.sidecar bucket encoded).Proper := ⟨valid, key, admitted⟩
  have sights : ∀ past event seen,
      (⟨stage.body, some (past ++ [event])⟩ : Sights Thread).Has seen →
        stage.Has seen ∨ seen = past ++ [event] := by
    rintro past event seen (before | same)
    · exact .inl (.inl before)
    · exact .inr (Option.some.inj same).symm
  refine tracks_bind.mpr ?_
  apply keeps_readJson
  · intro stage inode content outcome kept
    cases outcome with
    | error e => exact kept
    | ok objectMeta =>
        apply keeps_close kept
        intro outcome known
        cases outcome with
        | error e => exact known
        | ok found =>
            obtain ⟨_, _, _, _, impossible, _⟩ := known
            cases impossible
  · intro world s place content inode here located present
    obtain rfl := StoredFile.located proper located
    have traffic := traffic_looked ⟨thread, .open (storage.metaPath bucket encoded), .ok inode⟩ here.extra
      (fun _ _ => rfl) (sights world.2 _)
    have explained := traffic.files _ proper
    rw [present] at explained
    obtain ⟨objectMeta, rfl⟩ := sidecar_record holds valid explained
    refine ⟨_, StoredFile.place_lasting proper, StoredFile.place_smooth, traffic, ?_⟩
    rw [Codec.decode_encode]
    simp only [Except.mapError]
    have own : Own thread (world.2 ++ [⟨thread, .open (storage.metaPath bucket encoded), .ok inode⟩]) :=
      ⟨_, _, rfl, rfl⟩
    cases range with
    | none =>
        refine tracks_bind.mpr ?_
        apply keeps_openBody valid admitted rfl own explained
        · intro stage' body handle fetched
          exact ⟨encoded, body, rfl, fetched, rfl, rfl⟩
        · intro stage' e missed
          cases e <;> exact fun _ => missed
    | some byteRange =>
        simp only []
        cases resolved : byteRange.resolve (UInt64.ofNat objectMeta.size) with
        | none => exact fun absent => absurd absent (Option.some_ne_none byteRange)
        | some found =>
            apply keeps_openBody valid admitted rfl own explained
            · intro stage' body handle fetched
              refine ⟨encoded, body, rfl, fetched, rfl, ?_⟩
              simp [rangeWindow, resolved, ObjectStream.window]
            · intro stage' e missed
              cases e <;> exact fun _ => missed
  · intro world s e here why
    have traffic := traffic_looked ⟨thread, .open (storage.metaPath bucket encoded), .error e⟩ here.extra
      (fun _ _ => rfl) (sights world.2 _)
    refine ⟨_, traffic, fun error _ => ?_⟩
    exact missed_file here.apart.tree here.apart.limit limit traffic admitted rfl (.inr rfl) why (.inr rfl)

/-! ### Uploads -/

section Area
variable {uploadId : Str}

omit [DecidableEq Thread] in
theorem area_bucket {bucket top name : Str}
    (area : UploadArea storage uploadId (name :: top :: bucket :: storage.dataRoot)) :
    bucket = uploadsName := by
  obtain ⟨front, same⟩ := area
  have lengths := congrArg List.length same
  simp only [List.length_append, List.length_cons] at lengths
  obtain ⟨first, rfl⟩ := List.length_eq_one_iff.mp (by omega : front.length = 1)
  simp only [List.singleton_append, List.cons.injEq] at same
  exact same.2.2.1.symm

/-- What is staged for uploads is no temporary file of a bucket. -/
theorem area_lasting {path : Path} (area : UploadArea storage uploadId path) :
    ¬ IsTemp (Staging storage) path := by
  rintro ⟨name, _, rfl, _, bucket, valid, rfl | rfl⟩
  · exact bucket_not_uploads valid (area_bucket area)
  · exact bucket_not_uploads valid (area_bucket area)

theorem area_other {path : Path} (area : UploadArea storage uploadId path) (file : StoredFile)
    (proper : file.Proper) : file.place storage ≠ path := by
  rintro rfl
  cases file with
  | body bucket encoded => exact bucket_not_uploads proper.1 (area_bucket area)
  | sidecar bucket encoded => exact bucket_not_uploads proper.1 (area_bucket area)

theorem area_elsewhere (name : Str) :
    Elsewhere storage (name :: uploadId :: uploadsName :: storage.dataRoot) := by
  have area : UploadArea storage uploadId (name :: uploadId :: uploadsName :: storage.dataRoot) :=
    List.suffix_cons _ _
  exact ⟨area_lasting area, not_bucketRecord, fun file proper same => area_other area file proper same.symm⟩

end Area

theorem keeps_removeFound {uploadId : Str} {entries : List (Path × Bool)}
    (inside : ∀ entry ∈ entries, UploadArea storage uploadId entry.1) :
    KeepsTraffic crates storage start store clients limit thread (removeFound entries)
      (fun ghost _ => ghost = ⟨stage, .nothing⟩) ⟨stage, .nothing⟩ := by
  induction entries with
  | nil => rfl
  | cons entry rest ih =>
      obtain ⟨path, isDir⟩ := entry
      have area := inside (path, isDir) List.mem_cons_self
      have later := ih fun other member => inside other (List.mem_cons_of_mem _ member)
      have untouched : ∀ file : StoredFile, file.Proper → (⟨path, []⟩ : PathBuf) ≠ file.path storage :=
        fun file proper => StoredFile.path_deep proper (by simp)
      cases isDir with
      | true =>
          apply keeps_rmdir traffic_robust
          · intro world s found here located _ _
            cases located
            exact ⟨area_lasting area, traffic_cleared here.extra (fun _ _ => rfl) (area_other area), later⟩
          · intro e
            cases e <;> first | exact later | rfl
      | false =>
          apply keeps_unlink
          · intro world s found content here located _
            cases located
            exact ⟨stage, area_lasting area, traffic_cleared here.extra
              (fun file proper => if_neg (untouched file proper)) (area_other area), later⟩
          · intro world s e here _
            refine ⟨stage, traffic_looked _ here.extra ?_ fun _ has => .inl has, ?_⟩
            · intro file proper
              cases e <;> first | rfl | exact if_neg (untouched file proper)
            · cases e <;> first | exact later | rfl

theorem keeps_removeUpload {uploadId : Str} (leads : Leads storage uploadId) :
    KeepsTraffic crates storage start store clients limit thread
      (removeDirAll (storage.uploadDir uploadId)) (fun ghost _ => ghost = ⟨stage, .nothing⟩)
      ⟨stage, .nothing⟩ := by
  unfold removeDirAll
  simp only [Prog.send_bind]
  apply keeps_look traffic_robust rfl
  intro _ _ reply _ step
  obtain ⟨_, ⟨e, rfl⟩ | ⟨dir, entries, located, rfl, below⟩⟩ := tree_read step
  · rfl
  obtain rfl := leads.dir _ dir located
  simp only [Prog.ofExcept, Prog.done_bind]
  refine tracks_bind.mpr (tracks_mono (keeps_removeFound fun entry member => below entry member) ?_)
  rintro _ outcome rfl
  cases outcome with
  | error e => rfl
  | ok _ =>
      apply keeps_rmdir traffic_robust
      · intro world s found here arrived _ _
        obtain rfl := leads.dir _ found arrived
        have area : UploadArea storage uploadId (uploadId :: uploadsName :: storage.dataRoot) :=
          List.suffix_refl _
        exact ⟨area_lasting area, traffic_cleared here.extra (fun _ _ => rfl) (area_other area), rfl⟩
      · intro e
        cases e <;> rfl

omit [DecidableEq Thread] in
/-- A file of an upload is one of those staged in the beginning. -/
theorem staged_file_start {uploadId name : Str} {content : Bytes} {s : FS}
    {stages : Thread → Sights Thread} {past : List (Event Thread Reply)}
    (holds : Holds crates storage start store)
    (traffic : Traffic crates storage start store clients stages past s)
    (present : s.look (name :: uploadId :: uploadsName :: storage.dataRoot) = some (.file content)) :
    ∃ upload, store.staged.lookup uploadId = some upload ∧
      upload.view crates [name] = some (.file content) := by
  have before := traffic.others _ content (area_elsewhere name) present
  have seen := look_staged holds uploadId [name]
  rw [show start.look ([name].reverse ++ uploadId :: uploadsName :: storage.dataRoot) =
    some (.file content) from before] at seen
  obtain ⟨upload, live, view⟩ := Option.bind_eq_some_iff.mp seen.symm
  exact ⟨upload, live, view⟩

/-- The parts are copied one after the other. -/
theorem keeps_assembleParts (holds : Holds crates storage start store) {uploadId : Str}
    (leads : Leads storage uploadId) {upload : Upload}
    (live : store.staged.lookup uploadId = some upload) (file : Temp) (parts : List Int)
    (hasher : EtagHasher) (bytesWritten : Nat) (before : Bytes) :
    KeepsTraffic crates storage start store clients limit thread
      (assembleParts (storage.uploadDir uploadId) file.inode parts hasher bytesWritten)
      (fun ghost outcome => ∃ content, ghost = ⟨stage, .writing file content⟩ ∧
        ∀ value, outcome = .ok value → ∃ body, Store.assembled upload parts = some body ∧
          content = before ++ body ∧ value = (hasher.update body, bytesWritten + body.length))
      ⟨stage, .writing file before⟩ := by
  induction parts generalizing hasher bytesWritten before with
  | nil =>
      apply keeps_look traffic_robust rfl
      rintro world s reply here ⟨choice, performed⟩
      cases performed
      refine ⟨before, rfl, ?_⟩
      rintro _ ⟨⟩
      exact ⟨[], rfl, by simp, by simp [EtagHasher.update]⟩
  | cons number rest ih =>
      unfold assembleParts
      simp only [Prog.send_bind]
      apply keeps_copy traffic_robust
      · intro world s place chunk here located present
        obtain rfl := leads.entry s _ place (part_is_name number) located
        obtain ⟨found, again, view⟩ := staged_file_start holds here.extra present
        rw [live] at again
        cases again
        have part : upload.parts.lookup (FsStorage.partName number) = some chunk := by
          simpa [Upload.view, part_not_meta] using view
        refine ⟨(area_elsewhere _).1, (area_elsewhere _).2.1, fun inode => ?_⟩
        simp only [io, Prog.done_bind]
        apply keeps_copied traffic_robust
        apply keeps_write traffic_robust
        refine tracks_mono (ih (hasher.update chunk) (bytesWritten + chunk.length) (before ++ chunk)) ?_
        rintro _ outcome ⟨content, rfl, copied⟩
        refine ⟨content, rfl, fun value done => ?_⟩
        obtain ⟨body, assembled, rfl, rfl⟩ := copied value done
        refine ⟨chunk ++ body, ?_, by simp, ?_⟩
        · simp [Store.assembled, part, assembled]
        · simp [EtagHasher.update, Nat.add_assoc]
      · intro world s e here why
        exact ⟨before, rfl, by rintro _ ⟨⟩⟩

theorem keeps_completeMultipartUpload (holds : Holds crates storage start store)
    {bucket key uploadId : Str} {parts : List Int} (leads : Leads storage uploadId)
    (same : clients thread = .completeMultipartUpload bucket key uploadId parts) :
    KeepsTraffic crates storage start store clients limit thread
      (completeMultipartUpload crates storage bucket key uploadId parts)
      (fun ghost outcome => ∀ objectMeta, outcome = .ok objectMeta → ∃ bucket encoded,
        Acknowledged crates storage start store clients thread ghost.stage bucket encoded objectMeta)
      ⟨stage, .nothing⟩ := by
  unfold completeMultipartUpload readMultipartMeta
  refine tracks_bind.mpr ?_
  apply keeps_readJson
  · intro stage inode content outcome kept
    cases outcome with
    | error e => exact kept
    | ok record => exact keeps_close kept fun outcome known => known
  · intro world s place content inode here located present
    obtain rfl := leads.entry s _ place (by decide) located
    refine ⟨stage, (area_elsewhere _).1, (area_elsewhere _).2.1,
      traffic_looked _ here.extra (fun _ _ => rfl) fun _ has => .inl has, ?_⟩
    obtain ⟨upload, live, view⟩ := staged_file_start holds here.extra present
    obtain rfl : crates.multipartMeta.encode upload.record = content := by
      simpa [Upload.view] using view
    have valid := (holds.sound.uploads uploadId upload live).2.valid
    rw [Codec.decode_encode]
    simp only [Except.mapError]
    have objects : Low storage (storage.objectsDir upload.record.bucket) := low_inside valid (by decide)
    refine tracks_bind.mpr (tracks_mono (keeps_createDirAll objects) ?_)
    rintro _ outcome rfl
    cases outcome with
    | error e => rintro _ ⟨⟩
    | ok _ =>
    simp only []
    cases admitted : encodeKey key with
    | error e => rintro _ ⟨⟩
    | ok encoded =>
    simp only [lift, Prog.ofExcept, Prog.done_bind]
    have reaches : Reaches start.nameMax (storage.objectsDir upload.record.bucket)
        (objectsPlace storage upload.record.bucket) := reaches_objects limit valid
    refine tracks_bind.mpr ?_
    apply keeps_installFile traffic_robust reaches ⟨upload.record.bucket, valid, .inl rfl⟩
      fun file => keeps_assembleParts holds leads live file _ .new 0 []
    · rintro _ _ _ _ _ _ _ _ _ ⟨⟩
    · rintro _ _ _ _ ⟨⟩
    · rintro _ _ _ _ _ _ _ _ _ _ _ ⟨⟩
    · intro world s file content value place copied here arrival free
      obtain ⟨body, assembled, joined, rfl⟩ := copied value rfl
      obtain rfl : content = body := by simpa using joined
      obtain ⟨inside, ⟨object, rfl⟩ | ⟨_, rfl⟩⟩ := located_object valid admitted arrival
      swap
      · exact absurd inside free
      have proper : (StoredFile.body upload.record.bucket encoded).Proper := ⟨valid, object⟩
      have stores : ∀ time, (clients thread).Stores crates store upload.record.bucket encoded content
          ⟨upload.record.key, content.length, upload.record.contentType.getD defaultContentType,
            hexMd5 crates content ++ '-' :: (toString parts.length).toList, time⟩ := by
        intro time
        rw [same]
        exact ⟨upload, live, rfl, admitted, assembled, rfl⟩
      refine ⟨{ stage with body := some (world.2 ++
        [⟨thread, .rename file.name (storage.objectPath upload.record.bucket encoded), .ok ()⟩]) }, inside,
        StoredFile.place_lasting proper, not_bucketRecord, ?_, ?_⟩
      · have given : (StoredFile.body upload.record.bucket encoded).Written crates store (clients thread)
            content := ⟨_, stores 0⟩
        apply traffic_moved here.extra here.apart proper given
        rintro seen (own | sidecar)
        · exact .inr (Option.some.inj own).symm
        · exact .inl (.inr sidecar)
      simp only [Prog.send_bind]
      apply keeps_look traffic_robust rfl
      intro _ _ time _ _
      simp only [EtagHasher.finalize, EtagHasher.update, EtagHasher.new, List.nil_append, Nat.zero_add,
        List.length_insertionSort]
      refine tracks_bind.mpr ?_
      apply keeps_sidecar valid admitted (stores time)
      · rintro _ _ ⟨⟩
      · intro seen installed short
        refine tracks_bind.mpr (tracks_attempt.mpr (tracks_mono (keeps_removeUpload leads) ?_))
        rintro _ outcome rfl _ ⟨⟩
        exact ⟨_, encoded, valid, object, ⟨_, stores time⟩, short, ⟨_, rfl, lastTouch_installed⟩, seen, rfl,
          installed⟩
  · intro world s e here why
    refine ⟨stage, traffic_looked _ here.extra (fun _ _ => rfl) fun _ has => .inl has, ?_⟩
    rintro _ _ ⟨⟩

/-! ### All clients together -/

/-- The ids of uploads are single names, as those are that the server gives out. -/
def Client.Addressed : Client → Prop
  | .completeMultipartUpload _ _ uploadId _ => '\u0000' ∈ uploadId ∨ isName uploadId = true
  | _ => True

theorem keeps_client (holds : Holds crates storage start store) (addressed : (clients thread).Addressed) :
    KeepsTraffic crates storage start store clients limit thread ((clients thread).program crates storage)
      (fun ghost outcome => Reports crates storage start store clients thread ghost (clients thread) outcome)
      ⟨{}, .nothing⟩ := by
  cases same : clients thread with
  | putObject bucket key body contentType =>
      refine tracks_bind.mpr (tracks_mono (keeps_putObject same) ?_)
      intro ghost outcome known
      cases outcome with
      | error e => nofun
      | ok objectMeta =>
          rintro _ ⟨⟩
          obtain ⟨encoded, _, acknowledged⟩ := known objectMeta rfl
          exact ⟨bucket, encoded, acknowledged⟩
  | completeMultipartUpload bucket key uploadId parts =>
      rw [same] at addressed
      have leads := upload_leads storage addressed
      refine tracks_bind.mpr (tracks_mono (keeps_completeMultipartUpload holds leads same) ?_)
      intro ghost outcome known
      cases outcome with
      | error e => nofun
      | ok objectMeta =>
          rintro _ ⟨⟩
          exact known objectMeta rfl
  | deleteObject bucket key =>
      refine tracks_bind.mpr (tracks_mono (keeps_deleteObject same) ?_)
      intro ghost outcome _
      cases outcome <;> exact trivial
  | createBucket name =>
      refine tracks_bind.mpr (tracks_mono (keeps_createBucket name) ?_)
      intro ghost outcome _
      cases outcome <;> exact trivial
  | deleteBucket name =>
      refine tracks_bind.mpr (tracks_mono (keeps_deleteBucket name) ?_)
      intro ghost outcome _
      cases outcome <;> exact trivial
  | download bucket key range sizes =>
      refine tracks_bind.mpr (tracks_mono (keeps_getObject holds bucket key range) ?_)
      intro ghost outcome known
      cases outcome with
      | error e => exact ⟨nofun, fun _ _ => known⟩
      | ok found =>
          obtain ⟨objectMeta, stream⟩ := found
          obtain ⟨encoded, content, admitted, fetched, held, window⟩ := known
          obtain ⟨stage, own⟩ := ghost
          obtain rfl : own = .reading stream.handle content := held
          refine tracks_bind.mpr (tracks_ioOp.mpr (tracks_mono (keeps_deliver sizes 0) ?_))
          rintro _ _ ⟨rfl, bytes, whole, rfl, front, all⟩
          refine ⟨?_, nofun⟩
          rintro _ ⟨⟩
          exact ⟨objectMeta, bytes, whole, encoded, content, _, rfl, admitted, fetched, window, front, all⟩

/-- Wherever the clients have got to, every file is what its last touch made of it, and a
client that has ended knows what it reports. -/
theorem traffic_run (holds : Holds crates storage start store) (tree : start.Tree)
    (addressed : ∀ thread, (clients thread).Addressed) {last : Thread → Op Received}
    {events : List (Event Thread Reply)} {t : FS}
    (run : Interleaves (fun _ => faultFree) (fun thread => (clients thread).program crates storage) start
      events last t) :
    ∃ ghosts, Sharing (bucketTerms storage start holds.limit)
        (Traffic crates storage start store clients) ghosts events t ∧
      ∀ thread outcome, last thread = ended outcome →
        Reports crates storage start store clients thread (ghosts thread) (clients thread) outcome := by
  have begin : Sharing (bucketTerms storage start holds.limit)
      (Traffic crates storage start store clients) (fun _ => ⟨{}, .nothing⟩) [] start := by
    refine ⟨apart_start tree holds.limit, fun file _ => rfl, fun _ _ _ present => present, ?_⟩
    rintro thread seen (none | none) <;> cases none
  obtain ⟨ghosts, sharing, kept⟩ :=
    pool_keeps (fun thread => keeps_client holds (addressed thread)) begin run
  refine ⟨ghosts, sharing, fun thread outcome finished => ?_⟩
  have own := kept thread
  rw [finished] at own
  have known := tracks_ended own
  exact known

end Clients
end Ferrobucket
