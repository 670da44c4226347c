import Ferrobucket.BucketRaces
import Ferrobucket.Lib.Linear
import Ferrobucket.Lib.Passing
import Ferrobucket.Lib.Posting
/-! Listing the buckets while buckets are created and deleted. The record of a bucket is written
in place: it is there, empty, before it is filled. A listing that comes in between cannot read
it, and fails for all buckets; otherwise it shows every bucket that stands all the time, and
nothing but records that were written whole. -/
namespace Ferrobucket
open Text Posix Program

/-- A call on buckets; only a listing answers with something. -/
inductive BucketCall where
  | createBucket (name : Str)
  | deleteBucket (name : Str)
  | listBuckets

def BucketCall.program (crates : Crates) (storage : FsStorage) : BucketCall → Op (List BucketInfo)
  | .createBucket name => do
      Ferrobucket.createBucket crates storage name
      pure []
  | .deleteBucket name => do
      Ferrobucket.deleteBucket storage name
      pure []
  | .listBuckets => Ferrobucket.listBuckets crates storage

/-- The place of the record of a bucket. -/
def bucketRecord (storage : FsStorage) (name : Str) : Path := bucketJsonName :: name :: storage.dataRoot

def IsRecord (storage : FsStorage) (path : Path) : Prop := ∃ name, path = bucketRecord storage name

/-- What `list_buckets` says of a record that it cannot read. -/
def corruptRecord (storage : FsStorage) (name text : Str) : StorageError :=
  .Io (.invalidData ("corrupt .bucket.json at ".toList ++
    ((storage.rootPath.join name).join bucketJsonName).display ++ ": ".toList ++ text))

section Registry
variable {Thread : Type} (crates : Crates) (storage : FsStorage) (start : FS) (store : Store)
  (calls : Thread → BucketCall)

/-- The record of a bucket that was there, or one that a creation has made. -/
def Registered (name : Str) (info : BucketInfo) : Prop :=
  info.name = name ∧
    match store.buckets.lookup name with
    | some bucket => bucket.info = some info
    | none => ∃ thread, calls thread = .createBucket name

/-- A bucket that nobody deletes. -/
def Kept (name : Str) (bucket : Bucket) : Prop :=
  store.buckets.lookup name = some bucket ∧ ∀ thread, calls thread ≠ .deleteBucket name

/-- A record that was written whole. -/
def Whole (path : Path) (content : Bytes) : Prop :=
  ∃ name info, path = bucketRecord storage name ∧ Registered store calls name info ∧
    content = crates.bucketInfo.encode info

/-- The buckets that nobody deletes stand, records are whole or being written, and whoever is
about to write one has made its bucket. -/
structure Registry (doing : Thread → Posting) (s : FS) : Prop where
  tree : s.Tree
  limit : s.nameMax = none ∨ s.nameMax = some 255
  root : s.look storage.dataRoot = some .dir
  tops : ∀ name, s.look (name :: storage.dataRoot) ≠ none →
    s.look (name :: storage.dataRoot) = some .dir ∧ (validateBucketName name = .ok () ∨ name = uploadsName)
  posted : Posted (IsRecord storage) (Whole crates storage store calls) doing s
  owners : ∀ thread path, (doing thread).target = some path → ∃ name, path = bucketRecord storage name ∧
    calls thread = .createBucket name ∧ store.buckets.lookup name = none ∧
    s.look (name :: storage.dataRoot) = some .dir
  kept : ∀ name bucket, Kept store calls name bucket → s.look (name :: storage.dataRoot) = some .dir ∧
    s.look (bucketRecord storage name) = bucket.info.map fun info => .file (crates.bucketInfo.encode info)

/-- A program of a thread keeps the registry. -/
abbrev Clerk [DecidableEq Thread] {Error Value : Type} (thread : Thread)
    (program : Prog Call Reply Error Value) (post : Posting → Except Error Value → Prop)
    (posting : Posting) : Prop :=
  tracks faultFree (recorded thread)
    (among (fun doing (_ : List (Event Thread Reply)) s => Registry crates storage store calls doing s) thread)
    program post posting

end Registry

/-! ### Places -/

section Places
variable {storage : FsStorage} {name other part : Str}

theorem record_injective (same : bucketRecord storage name = bucketRecord storage other) : name = other :=
  (List.cons.inj (List.cons.inj same).2).1

theorem top_not_record : name :: storage.dataRoot ≠ bucketRecord storage other := by
  intro same
  have lengths := congrArg List.length same
  simp [bucketRecord] at lengths

theorem part_not_record (different : part ≠ bucketJsonName) :
    part :: name :: storage.dataRoot ≠ bucketRecord storage other :=
  fun same => different (List.cons.inj same).1

theorem high_not_record {path : Path} (high : path <:+ storage.dataRoot) : path ≠ bucketRecord storage other := by
  rintro rfl
  have lengths := high.length_le
  simp only [bucketRecord, List.length_cons] at lengths
  omega

theorem high_not_top {path : Path} (high : path <:+ storage.dataRoot) : path ≠ name :: storage.dataRoot := by
  rintro rfl
  have lengths := high.length_le
  rw [List.length_cons] at lengths
  omega

/-- In the directory of one bucket nothing of another one is found. -/
theorem inside_top {path : Path} (inside : name :: storage.dataRoot <:+ path)
    (top : path = other :: storage.dataRoot ∨ path = bucketRecord storage other) : name = other := by
  rcases top with rfl | rfl
  · exact (List.cons.inj (inside.eq_of_length (by simp))).1
  · rcases List.suffix_cons_iff.mp inside with equal | below
    · have lengths := congrArg List.length equal
      simp at lengths
    · exact (List.cons.inj (below.eq_of_length (by simp))).1

/-- A path that leads to no record, and to no place for a bucket of another name. -/
def OffRecord (storage : FsStorage) (name : Str) (path : PathBuf) : Prop :=
  (path.rel = [] ∧ path.base <:+ storage.dataRoot) ∨ path = storage.bucketPath name ∨
    ∃ part, part ≠ bucketJsonName ∧ isName part = true ∧ path = (storage.bucketPath name).join part

variable (valid : validateBucketName name = .ok ())
include valid

theorem bucket_path : storage.bucketPath name = ⟨storage.dataRoot, [name]⟩ := by
  obtain ⟨_, _, _, slash, _⟩ := name_parts (bucket_is_name valid)
  exact join_name storage.rootPath slash

theorem in_bucket_path (good : isName part = true) :
    (storage.bucketPath name).join part = ⟨storage.dataRoot, [name, part]⟩ := by
  obtain ⟨_, _, _, slash, _⟩ := name_parts good
  rw [bucket_path valid, join_name _ slash]
  rfl

theorem located_top {s : FS} {found : Path} (located : s.locate (storage.bucketPath name) = .ok found) :
    found = name :: storage.dataRoot := by
  rw [bucket_path valid] at located
  exact FS.locate_names (by simp [bucket_is_name valid]) located

theorem located_part {s : FS} {found : Path} (good : isName part = true)
    (located : s.locate ((storage.bucketPath name).join part) = .ok found) :
    found = part :: name :: storage.dataRoot := by
  rw [in_bucket_path valid good] at located
  exact FS.locate_names (by simp [bucket_is_name valid, good]) located

theorem off_record_parent {path : PathBuf} (off : OffRecord storage name path) :
    OffRecord storage name path.parent := by
  rcases off with ⟨last, high⟩ | rfl | ⟨part, _, good, rfl⟩
  · refine .inl ?_
    obtain ⟨base, rel⟩ := path
    subst last
    exact ⟨rfl, (List.tail_suffix base).trans high⟩
  · rw [bucket_path valid]
    exact .inl ⟨rfl, List.suffix_refl _⟩
  · rw [in_bucket_path valid good]
    exact .inr (.inl (bucket_path valid).symm)

theorem off_record_located {s : FS} {path : PathBuf} {found : Path} (off : OffRecord storage name path)
    (located : s.locate path = .ok found) :
    ¬ IsRecord storage found ∧ ∀ other, found = other :: storage.dataRoot → other = name := by
  rcases off with ⟨last, high⟩ | rfl | ⟨part, different, good, rfl⟩
  · have place : found = path.base := by
      have named := FS.locate_names (by simp [last]) located
      simpa [last] using named
    subst place
    constructor
    · rintro ⟨_, record⟩
      exact high_not_record high record
    · exact fun _ top => absurd top (high_not_top high)
  · obtain rfl := located_top valid located
    constructor
    · rintro ⟨_, record⟩
      exact top_not_record record
    · exact fun other same => (List.cons.inj same).1.symm
  · obtain rfl := located_part valid good located
    constructor
    · rintro ⟨_, record⟩
      exact part_not_record different record
    · intro other same
      have lengths := congrArg List.length same
      simp at lengths

end Places

/-! ### Steps -/

section Steps
variable {Thread : Type} [DecidableEq Thread] {crates : Crates} {storage : FsStorage} {store : Store}
  {calls : Thread → BucketCall} {doing : Thread → Posting} {s after : FS} {thread : Thread}
  {posting : Posting} {name : Str} {Error Value : Type} {post : Posting → Except Error Value → Prop}

omit [DecidableEq Thread] in
/-- Whoever writes a record creates the bucket, which was not there. -/
theorem registry_owner (registry : Registry crates storage store calls doing s)
    (own : (doing thread).target = some (bucketRecord storage name)) :
    calls thread = .createBucket name ∧ store.buckets.lookup name = none ∧
      s.look (name :: storage.dataRoot) = some .dir := by
  obtain ⟨other, same, owned⟩ := registry.owners thread _ own
  obtain rfl := record_injective same
  exact owned

omit [DecidableEq Thread] in
/-- A directory is made that is none of a bucket, or one of a bucket that has a valid name. -/
theorem registry_mkdir {found : Path} (registry : Registry crates storage store calls doing s)
    (absent : s.look found = none) (inside : s.look found.tail = some .dir) (apart : ¬ IsRecord storage found)
    (top : ∀ name, found = name :: storage.dataRoot → validateBucketName name = .ok ()) :
    Registry crates storage store calls doing (s.mkdirAt found) := by
  have vacant := FS.look_none.mp absent
  have seen := FS.look_mkdirAt s found
  have different : ∀ name, bucketRecord storage name ≠ found := fun name same => apart ⟨name, same.symm⟩
  refine ⟨FS.tree_added registry.tree seen inside fun _ => rfl, registry.limit,
    FS.mkdirAt_kept found registry.root, ?_, ?_, ?_, ?_⟩
  · intro name there
    rw [seen] at there ⊢
    by_cases same : name :: storage.dataRoot = found
    · rw [same, Function.update_self]
      exact ⟨rfl, .inl (top name same.symm)⟩
    · rw [Function.update_of_ne same] at there ⊢
      exact registry.tops name there
  · refine posted_same registry.posted ?_ ?_ (FS.data_mkdirAt s found) (Nat.le_refl s.nextInode)
    · intro path inode
      rw [FS.node_mkdirAt]
      by_cases same : path = found
      · rw [same, Function.update_self, vacant]
        simp
      · rw [Function.update_of_ne same]
    · rintro path ⟨name, rfl⟩
      rw [FS.node_mkdirAt, Function.update_of_ne (different name)]
  · intro thread path own
    obtain ⟨name, same, creates, new, there⟩ := registry.owners thread path own
    exact ⟨name, same, creates, new, FS.mkdirAt_kept found there⟩
  · intro name bucket kept
    obtain ⟨there, record⟩ := registry.kept name bucket kept
    rw [seen, Function.update_of_ne (different name)]
    exact ⟨seen ▸ FS.mkdirAt_kept found there, record⟩

omit [DecidableEq Thread] in
/-- Something in the directory of a bucket is removed, or the directory, by a call that deletes
the bucket; nobody creates it. -/
theorem registry_drop {found : Path} (registry : Registry crates storage store calls doing s)
    (empty : ∀ name, s.look (name :: found) = none) (inside : name :: storage.dataRoot <:+ found)
    (deletes : calls thread = .deleteBucket name) (uncreated : ∀ thread, calls thread ≠ .createBucket name) :
    Registry crates storage store calls doing (s.drop found) := by
  have seen := FS.look_drop s found
  have root : storage.dataRoot ≠ found := by
    rintro same
    have lengths := inside.length_le
    rw [← same, List.length_cons] at lengths
    omega
  have others : ∀ other, other ≠ name → other :: storage.dataRoot ≠ found ∧ bucketRecord storage other ≠ found :=
    fun other different => ⟨fun same => different (inside_top inside (.inl same.symm)).symm,
      fun same => different (inside_top inside (.inr same.symm)).symm⟩
  have owned : ∀ thread path, (doing thread).target = some path → ∃ other, path = bucketRecord storage other ∧
      calls thread = .createBucket other ∧ other ≠ name := by
    intro thread path own
    obtain ⟨other, same, creates, _⟩ := registry.owners thread path own
    refine ⟨other, same, creates, ?_⟩
    rintro rfl
    exact uncreated thread creates
  refine ⟨FS.tree_removed registry.tree seen empty, registry.limit, ?_, ?_, ?_, ?_, ?_⟩
  · rw [seen, Function.update_of_ne root]
    exact registry.root
  · intro other there
    rw [seen] at there ⊢
    by_cases same : other :: storage.dataRoot = found
    · rw [same, Function.update_self] at there
      exact absurd rfl there
    · rw [Function.update_of_ne same] at there ⊢
      exact registry.tops other there
  · apply posted_drop registry.posted
    intro thread own
    obtain ⟨other, same, _, different⟩ := owned thread found own
    exact (others other different).2 same.symm
  · intro thread path own
    obtain ⟨other, same, creates, different⟩ := owned thread path own
    obtain ⟨again, place, _, new, there⟩ := registry.owners thread path own
    obtain rfl := record_injective (same.symm.trans place)
    refine ⟨other, same, creates, new, ?_⟩
    rw [seen, Function.update_of_ne (others other different).1]
    exact there
  · intro other bucket kept
    have different : other ≠ name := by
      rintro rfl
      exact kept.2 thread deletes
    rw [seen, Function.update_of_ne (others other different).1, Function.update_of_ne (others other different).2]
    exact registry.kept other bucket kept

/-- The posting of one thread has changed, and nothing else. -/
theorem registry_turn {new : Posting}
    (registry : Registry crates storage store calls (Function.update doing thread posting) s)
    (posted : Posted (IsRecord storage) (Whole crates storage store calls) (Function.update doing thread new) s)
    (owner : ∀ path, new.target = some path → ∃ name, path = bucketRecord storage name ∧
      calls thread = .createBucket name ∧ store.buckets.lookup name = none ∧
      s.look (name :: storage.dataRoot) = some .dir) :
    Registry crates storage store calls (Function.update doing thread new) s := by
  refine ⟨registry.tree, registry.limit, registry.root, registry.tops, posted, ?_, registry.kept⟩
  intro other path own
  by_cases same : other = thread
  · subst same
    rw [Function.update_self] at own
    exact owner path own
  · apply registry.owners other path
    rwa [Function.update_of_ne same] at own ⊢

/-- The record of a bucket that was not there has changed, and the posting of one thread. -/
theorem registry_record {new : Posting} {content : Bytes}
    (registry : Registry crates storage store calls (Function.update doing thread posting) s)
    (inside : s.look (name :: storage.dataRoot) = some .dir) (unknown : store.buckets.lookup name = none)
    (seen : after.look = Function.update s.look (bucketRecord storage name) (some (.file content)))
    (limit : after.nameMax = s.nameMax)
    (posted : Posted (IsRecord storage) (Whole crates storage store calls) (Function.update doing thread new) after)
    (owner : ∀ path, new.target = some path → path = bucketRecord storage name ∧
      calls thread = .createBucket name) :
    Registry crates storage store calls (Function.update doing thread new) after := by
  have tops : ∀ other, after.look (other :: storage.dataRoot) = s.look (other :: storage.dataRoot) := by
    intro other
    rw [seen, Function.update_of_ne top_not_record]
  have free : s.look (bucketRecord storage name) ≠ some .dir :=
    fun directory => registry.posted.files _ ⟨name, rfl⟩ (FS.look_dir.mp directory)
  refine ⟨FS.tree_added registry.tree seen inside fun directory => absurd directory free,
    limit ▸ registry.limit, ?_, ?_, posted, ?_, ?_⟩
  · rw [seen, Function.update_of_ne (high_not_record (List.suffix_refl _))]
    exact registry.root
  · intro other there
    rw [tops] at there ⊢
    exact registry.tops other there
  · intro other path own
    by_cases same : other = thread
    · subst same
      rw [Function.update_self] at own
      obtain ⟨place, creates⟩ := owner path own
      exact ⟨name, place, creates, unknown, (tops name).trans inside⟩
    · rw [Function.update_of_ne same] at own
      obtain ⟨other', place, creates, new, there⟩ :=
        registry.owners other path (by rwa [Function.update_of_ne same])
      exact ⟨other', place, creates, new, (tops other').trans there⟩
  · intro other bucket kept
    have different : bucketRecord storage other ≠ bucketRecord storage name := by
      intro same
      obtain rfl := record_injective same
      have known := kept.1
      rw [unknown] at known
      cases known
    rw [tops, seen, Function.update_of_ne different]
    exact registry.kept other bucket kept

/-- One step of a thread. -/
theorem clerk_step {call : Call} {next : Reply call → Prog Call Reply Error Value}
    (step : ∀ doing s reply after,
      Registry crates storage store calls (Function.update doing thread posting) s →
      faultFree call s reply after →
      ∃ new, Registry crates storage store calls (Function.update doing thread new) after ∧
        Clerk crates storage store calls thread (next reply) post new) :
    Clerk crates storage store calls thread (.call call next) post posting :=
  fun world s reply after registry taken => step world.1 s reply after registry taken

/-- A call that only looks. -/
theorem clerk_look {call : Call} {next : Reply call → Prog Call Reply Error Value} (quiet : call.quiet = true)
    (rest : ∀ doing s reply, Registry crates storage store calls (Function.update doing thread posting) s →
      faultFree call s reply s → Clerk crates storage store calls thread (next reply) post posting) :
    Clerk crates storage store calls thread (.call call next) post posting := by
  apply clerk_step
  intro doing s reply after registry taken
  obtain rfl := quiet_same quiet taken
  exact ⟨posting, registry, rest doing _ reply registry taken⟩

/-! Making directories. -/

theorem clerk_mkdir (valid : validateBucketName name = .ok ()) {path : PathBuf}
    (off : OffRecord storage name path) {next : Except Errno Unit → Prog Call Reply Error Value}
    (rest : ∀ reply, Clerk crates storage store calls thread (next reply) post posting) :
    Clerk crates storage store calls thread (.call (.mkdir path) next) post posting := by
  apply clerk_step
  rintro doing s reply after registry ⟨choice, performed⟩
  refine ⟨posting, ?_, rest reply⟩
  have made : (s.mkdir path).2 = after := (Prod.mk.inj (Option.some.inj performed)).2
  subst made
  cases located : s.locate path with
  | error e =>
      rw [FS.mkdir_lost located]
      exact registry
  | ok found =>
      by_cases absent : s.look found = none
      · by_cases inside : s.look found.tail = some .dir
        · obtain ⟨apart, top⟩ := off_record_located valid off located
          rw [FS.mkdir_new located absent inside]
          exact registry_mkdir registry absent inside apart fun other same => top other same ▸ valid
        · obtain ⟨e, refused⟩ := FS.mkdir_orphan located absent inside
          rw [refused]
          exact registry
      · rw [FS.mkdir_present located absent]
        exact registry

theorem clerk_createDirAll (valid : validateBucketName name = .ok ()) {path : PathBuf}
    (off : OffRecord storage name path) :
    Clerk crates storage store calls thread (createDirAll path) (fun new _ => new = posting) posting := by
  unfold createDirAll
  generalize path.base.length + path.rel.length = height
  revert off
  -- Each part makes directories above its path, which are off too.
  apply createDirUpTo_rule fun path program => OffRecord storage name path →
    Clerk crates storage store calls thread program (fun new _ => new = posting) posting
  · exact fun _ _ => rfl
  · exact fun _ _ _ => rfl
  · exact fun path next rest off => clerk_mkdir valid off fun reply => rest reply off
  · exact fun path next rest off => clerk_look rfl fun _ _ reply _ _ => rest reply off
  · intro path parents rest above here off
    refine tracks_bind.mpr (tracks_mono (above (off_record_parent valid off)) ?_)
    rintro _ outcome rfl
    cases outcome with
    | error e => rfl
    | ok _ => exact here off

/-! Deleting a bucket. -/

section Deleting
variable (valid : validateBucketName name = .ok ()) (deletes : calls thread = .deleteBucket name)
  (uncreated : ∀ thread, calls thread ≠ .createBucket name)
include deletes uncreated

/-- A directory in the bucket is removed, or the bucket. -/
theorem clerk_rmdir {path : PathBuf} (inside : ∀ (s : FS) found, s.locate path = .ok found →
      name :: storage.dataRoot <:+ found) {next : Except Errno Unit → Prog Call Reply Error Value}
    (rest : ∀ reply, Clerk crates storage store calls thread (next reply) post posting) :
    Clerk crates storage store calls thread (.call (.rmdir path) next) post posting := by
  apply clerk_step
  rintro doing s reply after registry ⟨choice, performed⟩
  refine ⟨posting, ?_, rest reply⟩
  have made : (s.rmdir path).2 = after := (Prod.mk.inj (Option.some.inj performed)).2
  subst made
  rcases rmdir_cases s path with ⟨found, located, _, empty, removed⟩ | ⟨e, refused⟩
  · rw [removed]
    exact registry_drop registry empty (inside s found located) deletes uncreated
  · rw [refused]
    exact registry

include valid in
/-- The record is removed. -/
theorem clerk_unlink {next : Except Errno Unit → Prog Call Reply Error Value}
    (rest : ∀ reply, Clerk crates storage store calls thread (next reply) post posting) :
    Clerk crates storage store calls thread
      (.call (.unlink ((storage.bucketPath name).join bucketJsonName)) next) post posting := by
  apply clerk_step
  rintro doing s reply after registry ⟨choice, performed⟩
  refine ⟨posting, ?_, rest reply⟩
  have made : (s.unlink ((storage.bucketPath name).join bucketJsonName)).2 = after :=
    (Prod.mk.inj (Option.some.inj performed)).2
  subst made
  cases located : s.locate ((storage.bucketPath name).join bucketJsonName) with
  | error e =>
      rw [FS.unlink_lost located]
      exact registry
  | ok found =>
      obtain rfl := located_part valid (by decide) located
      cases seen : s.look (bucketJsonName :: name :: storage.dataRoot) with
      | none =>
          rw [FS.unlink_absent located seen]
          exact registry
      | some entry =>
          cases entry with
          | dir => exact absurd (FS.look_dir.mp seen) (registry.posted.files _ ⟨name, rfl⟩)
          | file content =>
              rw [FS.unlink_file located seen]
              exact registry_drop registry (FS.tree_childless registry.tree seen)
                (List.suffix_cons _ _) deletes uncreated

include valid in
theorem clerk_removeDir {part : Str} (good : isName part = true) :
    Clerk crates storage store calls thread (removeDirGuarded ((storage.bucketPath name).join part) name)
      (fun new _ => new = posting) posting := by
  unfold removeDirGuarded
  apply clerk_rmdir deletes uncreated
  · intro s found located
    rw [located_part valid good located]
    exact List.suffix_cons _ _
  · intro reply
    cases reply with
    | ok _ => rfl
    | error e =>
        cases e with
        | ENOENT => rfl
        | _ =>
            apply clerk_look rfl
            intro _ _ entries _ _
            cases entries with
            | error e => rfl
            | ok entries => cases entries <;> rfl

include valid in
/-- The last removal, of the directory that held the pieces. -/
theorem clerk_lastRemoval : Clerk crates storage store calls thread (do
      match ← Sys.rmdir (storage.bucketPath name) with
      | .ok () => pure ()
      | .error .ENOENT => pure ()
      | .error e => throw (.Io (.os e)) : Op Unit) (fun _ _ => True) posting := by
  apply clerk_rmdir deletes uncreated
  · intro s found located
    rw [located_top valid located]
  · intro reply
    cases reply with
    | ok _ => exact trivial
    | error e => cases e <;> exact trivial

include valid in
/-- The removals of `delete_bucket`, one after the other. -/
theorem clerk_removals : Clerk crates storage store calls thread (do
      removeDirGuarded (storage.objectsDir name) name
      removeDirGuarded (storage.metaDir name) name
      match ← Sys.unlink ((storage.bucketPath name).join bucketJsonName) with
      | .ok () => pure ()
      | .error .ENOENT => pure ()
      | .error e => throw (.Io (.os e))
      match ← Sys.rmdir (storage.bucketPath name) with
      | .ok () => pure ()
      | .error .ENOENT => pure ()
      | .error e => throw (.Io (.os e)) : Op Unit) (fun _ _ => True) posting := by
  refine tracks_bind.mpr (tracks_mono (clerk_removeDir valid deletes uncreated (by decide)) ?_)
  rintro posting outcome rfl
  cases outcome with
  | error e => exact trivial
  | ok _ =>
  refine tracks_bind.mpr (tracks_mono (clerk_removeDir valid deletes uncreated (by decide)) ?_)
  rintro posting outcome rfl
  cases outcome with
  | error e => exact trivial
  | ok _ =>
  simp only [Prog.send_bind]
  apply clerk_unlink valid deletes uncreated
  intro reply
  cases reply with
  | ok _ => exact clerk_lastRemoval valid deletes uncreated
  | error e =>
      cases e with
      | ENOENT => exact clerk_lastRemoval valid deletes uncreated
      | _ => exact trivial

end Deleting

theorem clerk_deleteBucket (deletes : calls thread = .deleteBucket name)
    (uncreated : ∀ thread, calls thread ≠ .createBucket name) :
    Clerk crates storage store calls thread (deleteBucket storage name) (fun _ _ => True) posting := by
  unfold deleteBucket
  cases valid : validateBucketName name with
  | error e => exact trivial
  | ok _ =>
  simp only [lift, Prog.ofExcept, Prog.done_bind, Prog.send_bind]
  apply clerk_look rfl
  intro _ _ there _ _
  cases there with
  | false => exact trivial
  | true =>
  simp only [Bool.not_true, Bool.false_eq_true, if_false]
  apply clerk_look rfl
  intro _ _ entries _ _
  cases entries with
  | ok entries =>
      cases entries with
      | nil => exact clerk_removals valid deletes uncreated
      | cons entry entries => exact trivial
  | error e =>
      cases e with
      | ENOENT => exact clerk_removals valid deletes uncreated
      | _ => exact trivial

/-! Creating a bucket. -/

section Creating
variable (valid : validateBucketName name = .ok ()) (creates : calls thread = .createBucket name)
include valid creates

/-- The directory is made, and its record is for this thread to write, or the name is taken. -/
theorem clerk_claim (undeleted : ∀ other, calls other ≠ .deleteBucket name)
    {next : Except Errno Unit → Prog Call Reply Error Value}
    (claimed : Clerk crates storage store calls thread (next (.ok ())) post
      (.reserved (bucketRecord storage name)))
    (refused : ∀ e, Clerk crates storage store calls thread (next (.error e)) post .idle) :
    Clerk crates storage store calls thread (.call (.mkdir (storage.bucketPath name)) next) post .idle := by
  apply clerk_step
  rintro doing s reply after registry ⟨choice, performed⟩
  simp only [Call.perform, Option.some.injEq] at performed
  cases located : s.locate (storage.bucketPath name) with
  | error e =>
      rw [FS.mkdir_lost located] at performed
      cases performed
      exact ⟨.idle, registry, refused e⟩
  | ok found =>
  obtain rfl := located_top valid located
  by_cases absent : s.look (name :: storage.dataRoot) = none
  · rw [FS.mkdir_new located absent registry.root] at performed
    cases performed
    have unknown : store.buckets.lookup name = none := by
      cases present : store.buckets.lookup name with
      | none => rfl
      | some bucket =>
          have there := (registry.kept name bucket ⟨present, undeleted⟩).1
          rw [absent] at there
          cases there
    have made : Registry crates storage store calls (Function.update doing thread .idle)
        (s.mkdirAt (name :: storage.dataRoot)) := by
      apply registry_mkdir registry absent registry.root
      · rintro ⟨other, record⟩
        exact top_not_record record
      · rintro other ⟨⟩
        exact valid
    have vacant : s.look (bucketRecord storage name) = none :=
      FS.tree_absent registry.tree (by simp [absent]) bucketJsonName
    refine ⟨.reserved (bucketRecord storage name), registry_turn made ?_ ?_, claimed⟩
    · apply posted_reserve made.posted ⟨name, rfl⟩
      · rw [FS.node_mkdirAt, Function.update_of_ne top_not_record.symm]
        exact FS.look_none.mp vacant
      · -- Whoever writes this record has made the directory.
        intro other different own
        obtain ⟨_, _, there⟩ := registry_owner registry (by rwa [Function.update_of_ne different])
        rw [absent] at there
        cases there
    · rintro path ⟨⟩
      refine ⟨name, rfl, creates, unknown, ?_⟩
      rw [FS.look_mkdirAt, Function.update_self]
  · rw [FS.mkdir_present located absent] at performed
    cases performed
    exact ⟨.idle, registry, refused _⟩

/-- The record is made, and is still empty. -/
theorem clerk_creat {next : Except Errno Handle → Prog Call Reply Error Value}
    (made : ∀ inode, Clerk crates storage store calls thread (next (.ok inode)) post
      (.filling (bucketRecord storage name) inode)) :
    Clerk crates storage store calls thread
      (.call (.creat ((storage.bucketPath name).join bucketJsonName)) next) post
      (.reserved (bucketRecord storage name)) := by
  apply clerk_step
  rintro doing s reply after registry ⟨choice, performed⟩
  have vacant := registry.posted.sound thread
  rw [Function.update_self] at vacant
  have own : (Function.update doing thread (.reserved (bucketRecord storage name)) thread).target =
      some (bucketRecord storage name) := by
    rw [Function.update_self]
    rfl
  obtain ⟨_, unknown, inside⟩ := registry_owner registry own
  have located := locate_in_bucket bucketJsonName valid registry.root inside registry.limit (by decide) (by decide)
  simp only [Call.perform, FS.creat_new located (FS.look_none.mpr vacant.2) inside, Option.some.injEq] at performed
  cases performed
  refine ⟨.filling (bucketRecord storage name) s.nextInode, ?_, made s.nextInode⟩
  apply registry_record registry inside unknown (FS.look_newFile s _) rfl (posted_create registry.posted)
  rintro path ⟨⟩
  exact ⟨rfl, creates⟩

omit valid in
/-- The record is written. -/
theorem clerk_write {inode : Handle} {info : BucketInfo} (own : info.name = name)
    {next : Except Errno Unit → Prog Call Reply Error Value}
    (rest : Clerk crates storage store calls thread (next (.ok ())) post (.filled (bucketRecord storage name))) :
    Clerk crates storage store calls thread (.call (.write inode (crates.bucketInfo.encode info)) next) post
      (.filling (bucketRecord storage name) inode) := by
  apply clerk_step
  rintro doing s reply after registry ⟨choice, performed⟩
  simp only [Call.perform, Option.some.injEq] at performed
  cases performed
  have there := registry.posted.sound thread
  rw [Function.update_self] at there
  have mine : (Function.update doing thread (.filling (bucketRecord storage name) inode) thread).target =
      some (bucketRecord storage name) := by
    rw [Function.update_self]
    rfl
  obtain ⟨_, unknown, inside⟩ := registry_owner registry mine
  have whole : Whole crates storage store calls (bucketRecord storage name) (crates.bucketInfo.encode info) := by
    refine ⟨name, info, rfl, ⟨own, ?_⟩, rfl⟩
    rw [unknown]
    exact ⟨thread, creates⟩
  refine ⟨.filled (bucketRecord storage name), ?_, rest⟩
  apply registry_record registry inside unknown (FS.look_setData s there.2.1 _) rfl
    (posted_fill registry.posted whole)
  rintro path ⟨⟩
  exact ⟨rfl, creates⟩

/-- A creation that succeeds has filled the record. -/
theorem clerk_createBucket (undeleted : ∀ other, calls other ≠ .deleteBucket name) :
    Clerk crates storage store calls thread (createBucket crates storage name)
      (fun posting outcome => outcome = .ok () → posting = .filled (bucketRecord storage name)) .idle := by
  unfold createBucket
  simp only [valid, lift, Prog.ofExcept, Prog.done_bind]
  refine tracks_bind.mpr (tracks_ioOp.mpr (tracks_mono (clerk_createDirAll valid ?_) ?_))
  · exact off_record_parent valid (.inr (.inl rfl))
  rintro posting outcome rfl
  cases outcome with
  | error e => rintro ⟨⟩
  | ok _ =>
  simp only [Prog.send_bind]
  apply clerk_claim valid creates undeleted
  · have part : ∀ {part : Str}, part ≠ bucketJsonName → isName part = true →
        OffRecord storage name ((storage.bucketPath name).join part) :=
      fun different good => .inr (.inr ⟨_, different, good, rfl⟩)
    refine tracks_bind.mpr (tracks_ioOp.mpr (tracks_mono
      (clerk_createDirAll valid (part objects_not_json (by decide))) ?_))
    rintro posting outcome rfl
    cases outcome with
    | error e => rintro ⟨⟩
    | ok _ =>
    refine tracks_bind.mpr (tracks_ioOp.mpr (tracks_mono
      (clerk_createDirAll valid (part meta_not_json (by decide))) ?_))
    rintro posting outcome rfl
    cases outcome with
    | error e => rintro ⟨⟩
    | ok _ =>
    apply clerk_look rfl
    intro _ _ createdAt _ _
    apply tracks_ioOp.mpr
    unfold writeFile
    apply clerk_creat valid creates
    intro inode
    apply clerk_write creates rfl
    exact fun _ => rfl
  · intro e
    cases e <;> rintro ⟨⟩

end Creating

end Steps

/-! ### Listings -/

section Listing
variable {Thread : Type} (crates : Crates) (storage : FsStorage) (store : Store) (calls : Thread → BucketCall)
  (done : Thread → Prop)

/-- These creations have filled their records. -/
def RecordsMade (doing : Thread → Posting) : Prop :=
  ∀ maker name, done maker → calls maker = .createBucket name → doing maker = .filled (bucketRecord storage name)

/-- A bucket whose record stands: nobody deletes it, and it was there or has been created. -/
def StandsThroughout (name : Str) : Prop :=
  (∃ bucket info, Kept store calls name bucket ∧ bucket.info = some info) ∨
    ∃ maker, done maker ∧ calls maker = .createBucket name

/-- What is listed of these directories. -/
structure ShownBuckets (names : List Str) (infos : List BucketInfo) : Prop where
  order : (infos.map BucketInfo.name).Sublist names
  registered : ∀ info ∈ infos, Registered store calls info.name info
  standing : ∀ name ∈ names, StandsThroughout store calls done name → name ∈ infos.map BucketInfo.name

/-- The listing has come upon a record that a creation has made and not yet written. -/
def Unwritten (e : StorageError) : Prop :=
  ∃ name text, (∃ maker, ¬ done maker ∧ calls maker = .createBucket name) ∧ store.buckets.lookup name = none ∧
    crates.bucketInfo.decode [] = .error text ∧ e = corruptRecord storage name text

/-- What comes of reading the records in these directories. -/
def InfosRead (names : List Str) : Except StorageError (List BucketInfo) → Prop
  | .ok infos => ShownBuckets store calls done names infos
  | .error e => Unwritten crates storage store calls done e

/-- What a listing answers. -/
def Listed : Except StorageError (List BucketInfo) → Prop
  | .ok infos => (infos.map BucketInfo.name).Nodup ∧ (∀ info ∈ infos, Registered store calls info.name info) ∧
      ∀ name, StandsThroughout store calls done name → name ∈ infos.map BucketInfo.name
  | .error e => Unwritten crates storage store calls done e

/-- A program of a thread that lists, while these creations have ended. -/
abbrev Reading [DecidableEq Thread] {Error Value : Type} (thread : Thread)
    (program : Prog Call Reply Error Value) (post : Posting → Except Error Value → Prop)
    (posting : Posting) : Prop :=
  tracks faultFree (recorded thread) (among (fun doing (_ : List (Event Thread Reply)) s =>
    Registry crates storage store calls doing s ∧ RecordsMade storage calls done doing) thread) program post posting

variable {crates storage store calls done} {doing : Thread → Posting} {s : FS} {thread : Thread} {name : Str}
  {Error Value : Type} {post : Posting → Except Error Value → Prop}

/-- The directory of a bucket can be resolved. -/
theorem top_located (registry : Registry crates storage store calls doing s)
    (regular : validateBucketName name = .ok () ∨ name = uploadsName) :
    s.locate (storage.rootPath.join name) = .ok (name :: storage.dataRoot) := by
  apply FS.locate_name (locate_root storage s) registry.root
  · rcases regular with valid | rfl
    · exact bucket_is_name valid
    · decide
  · apply fits_limit registry.limit
    rcases regular with valid | rfl
    · exact le_trans (bucket_name_facts valid).2.1 (by decide)
    · decide

theorem record_located (registry : Registry crates storage store calls doing s)
    (inside : s.look (name :: storage.dataRoot) = some .dir) :
    s.locate ((storage.rootPath.join name).join bucketJsonName) = .ok (bucketRecord storage name) := by
  have present : s.look (name :: storage.dataRoot) ≠ none := by simp [inside]
  have top := top_located registry (registry.tops name present).2
  exact FS.locate_name top inside (by decide) (fits_limit registry.limit (by decide))

/-- What a listing takes from the data root: every entry is a directory. -/
theorem registry_dirs (registry : Registry crates storage store calls doing s) {order : List Str}
    (there : ∀ name, name ∈ order ↔ s.look (name :: storage.dataRoot) ≠ none) :
    ((order.map fun name => (⟨name, s.look (name :: storage.dataRoot) = some .dir⟩ : DirEntry)).filter
      DirEntry.isDir).map (fun entry => storage.rootPath.join entry.name) = order.map storage.rootPath.join := by
  rw [List.filter_eq_self.mpr, List.map_map]
  · rfl
  · intro entry member
    obtain ⟨name, listed, rfl⟩ := List.mem_map.mp member
    exact decide_eq_true (registry.tops name ((there name).mp listed)).1

/-- A record that stands can be found. -/
theorem standing_record (registry : Registry crates storage store calls doing s)
    (settled : RecordsMade storage calls done doing) (standing : StandsThroughout store calls done name) :
    s.look (name :: storage.dataRoot) = some .dir ∧
      ∃ inode, s.node (bucketRecord storage name) = some (.file inode) := by
  rcases standing with ⟨bucket, info, kept, own⟩ | ⟨maker, ended, creates⟩
  · obtain ⟨inside, record⟩ := registry.kept name bucket kept
    rw [own, Option.map_some] at record
    obtain ⟨inode, named, _⟩ := FS.look_file.mp record
    exact ⟨inside, inode, named⟩
  · have filled := settled maker name ended creates
    have sound := registry.posted.sound maker
    rw [filled] at sound
    obtain ⟨_, _, inside⟩ := registry_owner registry (by rw [filled]; rfl)
    exact ⟨inside, sound.2⟩

variable [DecidableEq Thread]

theorem made_turn (working : ∀ name, done thread → calls thread ≠ .createBucket name) {old new : Posting}
    (settled : RecordsMade storage calls done (Function.update doing thread old)) :
    RecordsMade storage calls done (Function.update doing thread new) := by
  intro maker name ended creates
  have different : maker ≠ thread := by
    rintro rfl
    exact working name ended creates
  have before := settled maker name ended creates
  rwa [Function.update_of_ne different] at before ⊢

section Lister
variable (lists : calls thread = .listBuckets)
include lists

/-- A record is opened. Where there is none the bucket does not stand. -/
theorem reading_open (regular : validateBucketName name = .ok () ∨ name = uploadsName)
    {next : Except Errno Handle → Prog Call Reply Error Value}
    (opened : ∀ inode, Reading crates storage store calls done thread (next (.ok inode)) post
      (.reading (bucketRecord storage name) inode))
    (lost : ¬ StandsThroughout store calls done name →
      Reading crates storage store calls done thread (next (.error .ENOENT)) post .idle) :
    Reading crates storage store calls done thread
      (.call (.open ((storage.rootPath.join name).join bucketJsonName)) next) post .idle := by
  have working : ∀ name, done thread → calls thread ≠ .createBucket name := by simp [lists]
  rintro world s reply after ⟨registry, settled⟩ ⟨choice, performed⟩
  simp only [Call.perform, Option.some.injEq, Prod.mk.injEq] at performed
  obtain ⟨rfl, rfl⟩ := performed
  by_cases inside : s.look (name :: storage.dataRoot) = some .dir
  · have located := record_located registry inside
    cases there : s.node (bucketRecord storage name) with
    | none =>
        rw [FS.open_absent located (FS.look_none.mpr there)]
        refine ⟨.idle, ⟨registry, settled⟩, lost fun standing => ?_⟩
        obtain ⟨_, inode, named⟩ := standing_record registry settled standing
        rw [there] at named
        cases named
    | some node =>
        cases node with
        | dir => exact absurd there (registry.posted.files _ ⟨name, rfl⟩)
        | file inode =>
            rw [FS.open_file located there]
            refine ⟨_, ⟨?_, made_turn working settled⟩, opened inode⟩
            apply registry_turn registry (posted_open registry.posted ⟨name, rfl⟩ there)
            rintro path ⟨⟩
  · have absent : s.look (name :: storage.dataRoot) = none := by
      by_contra there
      exact inside (registry.tops name there).1
    rw [FS.open_lost (FS.locate_name_absent (top_located registry regular) absent (by decide))]
    refine ⟨.idle, ⟨registry, settled⟩, lost fun standing => ?_⟩
    exact inside (standing_record registry settled standing).1

/-- What is read is a record, or nothing yet. -/
theorem reading_read {inode : Handle} {next : Except Errno Bytes → Prog Call Reply Error Value}
    (whole : ∀ info, Registered store calls name info →
      Reading crates storage store calls done thread (next (.ok (crates.bucketInfo.encode info))) post .idle)
    (early : ∀ maker, ¬ done maker → calls maker = .createBucket name → store.buckets.lookup name = none →
      Reading crates storage store calls done thread (next (.ok [])) post .idle) :
    Reading crates storage store calls done thread (.call (.read inode) next) post
      (.reading (bucketRecord storage name) inode) := by
  have working : ∀ name, done thread → calls thread ≠ .createBucket name := by simp [lists]
  rintro world s reply after ⟨registry, settled⟩ ⟨choice, performed⟩
  simp only [Call.perform, Option.some.injEq, Prod.mk.injEq] at performed
  obtain ⟨rfl, rfl⟩ := performed
  have closed : Registry crates storage store calls (Function.update world.1 thread .idle) s := by
    apply registry_turn registry (posted_close registry.posted)
    rintro path ⟨⟩
  refine ⟨.idle, ⟨closed, made_turn working settled⟩, ?_⟩
  rcases posted_read registry.posted with
    ⟨other, info, same, registered, content⟩ | ⟨empty, maker, different, fills⟩
  · obtain rfl := record_injective same
    rw [content]
    exact whole info registered
  · rw [empty]
    have own : (Function.update world.1 thread (.reading (bucketRecord storage name) inode) maker).target =
        some (bucketRecord storage name) := by
      rw [Function.update_of_ne different, fills]
      rfl
    obtain ⟨creates, unknown, _⟩ := registry_owner registry own
    refine early maker (fun ended => ?_) creates unknown
    have filled := settled maker name ended creates
    rw [Function.update_of_ne different, fills] at filled
    cases filled

/-- The records are read one after the other. -/
theorem reading_infos (blank : ∀ info, crates.bucketInfo.decode [] ≠ .ok info) (names : List Str)
    (regular : ∀ name ∈ names, validateBucketName name = .ok () ∨ name = uploadsName) :
    Reading crates storage store calls done thread (readBucketInfos crates (names.map storage.rootPath.join))
      (fun _ => InfosRead crates storage store calls done names) .idle := by
  induction names with
  | nil => exact ⟨.refl [], by simp, by simp⟩
  | cons name names ih =>
      have later := ih fun other member => regular other (List.mem_cons_of_mem _ member)
      rw [List.map_cons]
      unfold readBucketInfos readFile
      refine tracks_bind.mpr (tracks_attempt.mpr ?_)
      simp only [Prog.send_bind]
      apply reading_open lists (regular name List.mem_cons_self)
      · intro inode
        apply reading_read lists
        · intro info registered
          simp only [Reading, Prog.ofExcept, tracks, Codec.decode_encode]
          refine tracks_bind.mpr (tracks_mono later ?_)
          intro _ outcome shown
          cases outcome with
          | error e => exact shown
          | ok infos =>
              refine ⟨?_, ?_, ?_⟩
              · rw [List.map_cons, registered.1]
                exact shown.order.cons_cons name
              · intro other member
                rcases List.mem_cons.mp member with rfl | member
                · rwa [registered.1]
                · exact shown.registered other member
              · intro other member standing
                rw [List.map_cons, registered.1]
                rcases List.mem_cons.mp member with rfl | member
                · exact List.mem_cons_self
                · exact List.mem_cons_of_mem _ (shown.standing other member standing)
        · intro maker working creates unknown
          simp only [Reading, Prog.ofExcept, tracks]
          cases decoded : crates.bucketInfo.decode [] with
          | ok info => exact absurd decoded (blank info)
          | error text => exact ⟨name, text, ⟨maker, working, creates⟩, unknown, decoded, rfl⟩
      · intro lost
        apply tracks_mono later
        intro _ outcome shown
        cases outcome with
        | error e => exact shown
        | ok infos =>
            refine ⟨shown.order.cons name, shown.registered, ?_⟩
            intro other member standing
            rcases List.mem_cons.mp member with rfl | member
            · exact absurd standing lost
            · exact shown.standing other member standing

theorem reading_listBuckets (blank : ∀ info, crates.bucketInfo.decode [] ≠ .ok info) :
    Reading crates storage store calls done thread (listBuckets crates storage)
      (fun _ => Listed crates storage store calls done) .idle := by
  unfold listBuckets
  simp only [Prog.send_bind]
  rintro world s reply after ⟨registry, made⟩ performed
  obtain rfl := quiet_same rfl performed
  refine ⟨.idle, ⟨registry, made⟩, ?_⟩
  obtain ⟨order, once, there, rfl⟩ :=
    readDir_entries performed (FS.locateDir_dir (locate_root storage _) registry.root)
  have regular : ∀ name ∈ order, validateBucketName name = .ok () ∨ name = uploadsName :=
    fun name member => (registry.tops name ((there name).mp member)).2
  apply tracks_mono (registry_dirs registry there ▸ reading_infos lists blank order regular)
  intro _ outcome read
  cases outcome with
  | error e => exact read
  | ok infos =>
      refine ⟨read.order.nodup once, read.registered, ?_⟩
      intro name standing
      refine read.standing name ((there name).mpr ?_) standing
      rw [(standing_record registry made standing).1]
      exact Option.some_ne_none _

end Lister
end Listing

/-! ### Runs -/

section Runs
variable {Thread : Type} {crates : Crates} {storage : FsStorage} {start : FS} {store : Store}
  {calls : Thread → BucketCall} {thread : Thread} {name : Str}

/-- The records of a store, before any call. -/
theorem registry_start (holds : Holds crates storage start store) (tree : start.Tree) :
    Registry crates storage store calls (fun _ => .idle) start := by
  have seen : ∀ rel : List Str, start.look (rel.reverse ++ storage.dataRoot) = store.view crates rel :=
    fun rel => congrFun holds.seen rel
  have record : ∀ name, start.look (bucketRecord storage name) = store.view crates [name, bucketJsonName] :=
    fun name => seen [name, bucketJsonName]
  have stored : ∀ name entry, store.view crates [name, bucketJsonName] = some entry →
      ∃ bucket info, store.buckets.lookup name = some bucket ∧ bucket.info = some info ∧
        entry = .file (crates.bucketInfo.encode info) := by
    intro name entry present
    by_cases ordinary : name = uploadsName
    · subst ordinary
      cases uploads : store.uploads with
      | none => simp [Store.view, uploads] at present
      | some found =>
          rw [view_upload uploads] at present
          cases staged : found.lookup bucketJsonName with
          | none => simp [staged] at present
          | some upload =>
              have known : store.staged.lookup bucketJsonName = some upload := by
                rw [Store.staged, uploads]
                exact staged
              have impossible := (holds.sound.uploads bucketJsonName upload known).1
              exact absurd impossible (by decide)
    · rw [view_bucket ordinary] at present
      obtain ⟨bucket, found, inside⟩ := Option.bind_eq_some_iff.mp present
      simp only [Bucket.view, if_pos] at inside
      obtain ⟨info, own, rfl⟩ := Option.map_eq_some_iff.mp inside
      exact ⟨bucket, info, found, own, rfl⟩
  refine ⟨tree, holds.limit, look_root holds, ?_, ?_, by rintro _ _ ⟨⟩, ?_⟩
  · intro name there
    have top : start.look (name :: storage.dataRoot) = store.view crates [name] := seen [name]
    rw [top] at there ⊢
    by_cases ordinary : name = uploadsName
    · subst ordinary
      cases uploads : store.uploads with
      | none => simp [Store.view, uploads] at there
      | some found => exact ⟨by simp [Store.view, uploads], .inr rfl⟩
    · rw [view_bucket ordinary] at there ⊢
      cases found : store.buckets.lookup name with
      | none => simp [found] at there
      | some bucket => exact ⟨rfl, .inl (holds.sound.buckets name bucket found).valid⟩
  · refine ⟨?_, ?_, fun _ => trivial, by rintro _ _ _ ⟨⟩⟩
    · rintro path ⟨name, rfl⟩ directory
      have there := FS.look_dir.mpr directory
      rw [record] at there
      obtain ⟨_, _, _, _, impossible⟩ := stored name _ there
      cases impossible
    · rintro path inode ⟨name, rfl⟩ named
      have there : start.look (bucketRecord storage name) = some (.file (start.data inode)) :=
        FS.look_file.mpr ⟨inode, named, rfl⟩
      rw [record] at there
      obtain ⟨bucket, info, found, own, same⟩ := stored name _ there
      refine .inl ⟨name, info, rfl, ⟨(holds.sound.buckets name bucket found).named info own, ?_⟩,
        FS.Entry.file.inj same⟩
      rw [found]
      exact own
  · rintro name bucket ⟨found, _⟩
    have ordinary := bucket_not_uploads (holds.sound.buckets name bucket found).valid
    constructor
    · have top : start.look (name :: storage.dataRoot) = store.view crates [name] := seen [name]
      rw [top, view_bucket ordinary, found]
      rfl
    · rw [record, view_bucket ordinary, found]
      simp [Bucket.view]

variable [DecidableEq Thread]

/-- Each call alone, where no bucket is created and deleted. -/
theorem clerk_call (separate : ∀ maker remover name, calls maker = .createBucket name →
      calls remover ≠ .deleteBucket name)
    (blank : ∀ info, crates.bucketInfo.decode [] ≠ .ok info) (thread : Thread) :
    Clerk crates storage store calls thread ((calls thread).program crates storage)
      (fun posting outcome => ∀ name, calls thread = .createBucket name → outcome = .ok [] →
        posting = .filled (bucketRecord storage name)) .idle := by
  cases call : calls thread with
  | createBucket name =>
      cases valid : validateBucketName name with
      | error e =>
          unfold BucketCall.program createBucket
          simp only [valid, lift, Prog.ofExcept]
          rintro _ _ ⟨⟩
      | ok _ =>
          have undeleted : ∀ other, calls other ≠ .deleteBucket name := fun other => separate thread other name call
          refine tracks_bind.mpr (tracks_mono (clerk_createBucket valid call undeleted) ?_)
          intro posting outcome made
          cases outcome with
          | error e => rintro _ _ ⟨⟩
          | ok _ =>
              rintro _ ⟨⟩ _
              exact made rfl
  | deleteBucket name =>
      refine tracks_bind.mpr (tracks_mono (clerk_deleteBucket call fun maker creates =>
        separate maker thread name creates call) ?_)
      intro posting outcome _
      cases outcome <;> rintro _ ⟨⟩
  | listBuckets =>
      have unsettled : (fun doing (_ : List (Event Thread Reply)) s => Registry crates storage store calls doing s ∧
          RecordsMade storage calls (fun _ => False) doing) =
          fun doing _ s => Registry crates storage store calls doing s := by
        funext doing _ s
        simp [RecordsMade]
      have reading : Reading crates storage store calls (fun _ => False) thread (listBuckets crates storage)
          (fun _ => Listed crates storage store calls fun _ => False) .idle := reading_listBuckets call blank
      unfold Reading at reading
      rw [unsettled] at reading
      apply tracks_mono reading
      rintro _ _ _ _ ⟨⟩

/-! While a record is empty nothing is listed. -/

section Blocked
variable (blank : ∀ info, crates.bucketInfo.decode [] ≠ .ok info) {s : FS}
include blank

omit [DecidableEq Thread] in
/-- No record is shown where one of them is read as nothing. -/
theorem infos_blocked {names : List Str} (member : name ∈ names)
    (empty : fileContents s ((storage.rootPath.join name).join bucketJsonName) = .ok []) :
    wp faultFree (readBucketInfos crates (names.map storage.rootPath.join))
      (fun outcome after => after = s ∧ ∃ e, outcome = .error e) s := by
  induction names with
  | nil => cases member
  | cons first names ih =>
      have later : first ≠ name → wp faultFree (readBucketInfos crates (names.map storage.rootPath.join))
          (fun outcome after => after = s ∧ ∃ e, outcome = .error e) s :=
        fun different => ih ((List.mem_cons.mp member).resolve_left different.symm)
      rw [List.map_cons]
      unfold readBucketInfos
      rw [wp_bind, wp_attempt, wp_readFile]
      cases contents : fileContents s ((storage.rootPath.join first).join bucketJsonName) with
      | error e =>
          have different : first ≠ name := by
            rintro rfl
            rw [empty] at contents
            cases contents
          cases e with
          | ENOENT => exact later different
          | _ => exact ⟨rfl, _, rfl⟩
      | ok bytes =>
          cases decoded : crates.bucketInfo.decode bytes with
          | error text =>
              simp only [decoded]
              exact ⟨rfl, _, rfl⟩
          | ok info =>
              have different : first ≠ name := by
                rintro rfl
                rw [empty] at contents
                cases contents
                exact blank info decoded
              simp only [decoded]
              apply wp_bind.mpr
              apply wp_mono (later different)
              rintro _ after ⟨rfl, e, rfl⟩
              exact ⟨rfl, e, rfl⟩

omit [DecidableEq Thread] in
/-- While a creation has made its record and not written it, a listing fails for all buckets. -/
theorem listing_blocked {doing : Thread → Posting} (registry : Registry crates storage store calls doing s)
    {maker : Thread} {inode : Nat} (fills : doing maker = .filling (bucketRecord storage name) inode) :
    wp faultFree (listBuckets crates storage) (fun outcome after => after = s ∧ ∃ e, outcome = .error e) s := by
  have sound := registry.posted.sound maker
  rw [fills] at sound
  obtain ⟨_, named, empty⟩ := sound
  obtain ⟨_, _, inside⟩ := registry_owner registry (by rw [fills]; rfl)
  have record : s.look (bucketRecord storage name) = some (.file []) := FS.look_file.mpr ⟨inode, named, empty⟩
  unfold listBuckets
  simp only [Prog.send_bind]
  apply wp_readDir (FS.locateDir_dir (locate_root storage s) registry.root)
  intro order _ there
  simp only [Prog.pure_eq, Prog.done_bind, registry_dirs registry there]
  apply infos_blocked blank _ (contents_file (record_located registry inside) record)
  exact (there name).mpr (by simp [inside])

end Blocked

/-! Listings beside other calls. -/

section Answers
variable (blank : ∀ info, crates.bucketInfo.decode [] ≠ .ok info) {events : List (Event Thread Reply)} {t : FS}
  {last : Thread → Op (List BucketInfo)} {outcome : Except StorageError (List BucketInfo)}
  (lists : calls thread = .listBuckets) (returned : last thread = ended outcome)
include blank lists returned

/-- What a listing answers that begins here, where some creations have ended. -/
theorem listing_answers {done : Thread → Prop} {pool : Thread → Op (List BucketInfo)} {doing : Thread → Posting}
    {s : FS} {post : Thread → Posting → Except StorageError (List BucketInfo) → Prop}
    (registry : Registry crates storage store calls doing s) (made : RecordsMade storage calls done doing)
    (clerks : ∀ other, Clerk crates storage store calls other (pool other) (post other) (doing other))
    (finished : ∀ maker, done maker → maker ≠ thread ∧ pool maker = .done [])
    (begins : pool thread = listBuckets crates storage) (idle : doing thread = .idle)
    (run : Interleaves (fun _ => faultFree) pool s events last t) :
    Listed crates storage store calls done outcome := by
  have tracked : ∀ other, Reading crates storage store calls done other (pool other)
      (fun _ answer => other = thread → Listed crates storage store calls done answer) (doing other) := by
    intro other
    by_cases same : other = thread
    · subst same
      rw [begins, idle]
      exact tracks_mono (reading_listBuckets lists blank) fun _ _ listed _ => listed
    · by_cases working : done other
      · rw [(finished other working).2]
        exact fun own => absurd own same
      · refine tracks_mono (tracks_fixed ?_ (clerks other)) fun _ _ _ own => absurd own same
        exact fun _ _ _ => made_turn fun _ own => absurd own working
  obtain ⟨_, _, rests, _⟩ := pool_begins tracked ⟨registry, made⟩ run
  have own := rests thread
  rw [returned] at own
  exact tracks_ended own rfl

end Answers
end Runs

/-! ### A creation and a listing -/

section Photos
open Reference

def createThenList : Bool → BucketCall
  | true => .createBucket bucket
  | false => .listBuckets

theorem info_written (value : BucketInfo) : Json.bucketInfo value ≠ [] := by
  have brace : "\x7b\"name\":".toList ≠ [] := by decide
  unfold Json.bucketInfo
  exact List.append_ne_nil_of_left_ne_nil brace _

theorem utf8_nothing {text : Str} (empty : utf8 text = []) : text = [] := by
  apply utf8_injective
  exact empty

/-- No record is written as nothing. -/
theorem reference_blank (info : BucketInfo) : Crates.reference.bucketInfo.decode [] ≠ .ok info := by
  have unread : ¬ ∃ value, utf8 (Json.bucketInfo value) = [] := by
    rintro ⟨value, empty⟩
    exact info_written value (utf8_nothing empty)
  intro read
  unfold Crates.reference Json.codec at read
  simp only [unread] at read
  cases read

end Photos
end Ferrobucket
