import Ferrobucket.BucketLife
import Ferrobucket.Clients
import Ferrobucket.Confinement
import Ferrobucket.Lib.Guarded
/-! Calls on one upload beside each other. Nobody makes a staging directory again that has
been removed, so an upload that was ended stays ended. But a part that arrives between the
tree walk of a removal and its last step keeps the directory alive; aborting reports that,
and completing does not. -/
namespace Ferrobucket
open Text Posix Program

def stagingPlace (storage : FsStorage) (uploadId : Str) : Path :=
  uploadId :: uploadsName :: storage.dataRoot

def recordPlace (storage : FsStorage) (uploadId : Str) : Path :=
  multipartJsonName :: stagingPlace storage uploadId

/-! ### The staging directory -/

/-- The staging directory of an upload that is going on or has ended: only files are in it,
and its record is the one it began with as long as it is there. -/
structure StagingSound (storage : FsStorage) (uploadId : Str) (inode : Handle) (record : Bytes)
    (s : FS) : Prop where
  limit : s.nameMax = none ∨ s.nameMax = some 255
  root : s.node storage.dataRoot = some .dir
  uploads : s.node (uploadsName :: storage.dataRoot) = some .dir
  staging : s.node (stagingPlace storage uploadId) = some .dir ∨
    s.node (stagingPlace storage uploadId) = none
  entries : ∀ path, stagingPlace storage uploadId <:+ path → path ≠ stagingPlace storage uploadId →
    s.node path ≠ some .dir
  named : s.node (recordPlace storage uploadId) = some (.file inode) ∨
    s.node (recordPlace storage uploadId) = none
  written : s.data inode = record
  old : inode < s.nextInode

/-- A step after which the staging directory is as sound as before, and not there again. -/
structure Winds (storage : FsStorage) (uploadId : Str) (inode : Handle) (record : Bytes)
    (s after : FS) : Prop where
  sound : StagingSound storage uploadId inode record after
  gone : s.node (stagingPlace storage uploadId) = none → after.node (stagingPlace storage uploadId) = none

section Winding
variable {storage : FsStorage} {uploadId : Str} {inode : Handle} {record : Bytes} {s after last : FS}
  {path : Path}

theorem winds_refl (sound : StagingSound storage uploadId inode record s) :
    Winds storage uploadId inode record s s := ⟨sound, fun gone => gone⟩

theorem winds_trans (first : Winds storage uploadId inode record s after)
    (second : Winds storage uploadId inode record after last) :
    Winds storage uploadId inode record s last :=
  ⟨second.sound, fun gone => second.gone (first.gone gone)⟩

/-- The directories above are not below. -/
theorem above_staging {above : Path} (upper : above <:+ uploadsName :: storage.dataRoot) :
    ¬ stagingPlace storage uploadId <:+ above := by
  intro inside
  have short := (inside.trans upper).length_le
  simp only [stagingPlace, List.length_cons] at short
  omega

/-- A file comes to a place that is none of a directory, and not to that of the record. -/
theorem winds_file {file : Nat} (sound : StagingSound storage uploadId inode record s)
    (seen : after.node = Function.update s.node path (some (.file file)))
    (same : after.nameMax = s.nameMax) (kept : after.data inode = s.data inode)
    (later : s.nextInode ≤ after.nextInode) (free : s.node path ≠ some .dir)
    (apart : path ≠ stagingPlace storage uploadId) (other : path ≠ recordPlace storage uploadId) :
    Winds storage uploadId inode record s after := by
  have dirs : ∀ dir, s.node dir = some .dir → after.node dir = some .dir := by
    intro dir inside
    have different : dir ≠ path := by
      rintro rfl
      exact free inside
    rw [seen, Function.update_of_ne different, inside]
  have staging : after.node (stagingPlace storage uploadId) = s.node (stagingPlace storage uploadId) := by
    rw [seen, Function.update_of_ne apart.symm]
  refine ⟨⟨?_, dirs _ sound.root, dirs _ sound.uploads, ?_, ?_, ?_, ?_, ?_⟩, ?_⟩
  · rw [same]
    exact sound.limit
  · rw [staging]
    exact sound.staging
  · intro entry below different
    rw [seen]
    by_cases here : entry = path
    · subst here
      rw [Function.update_self]
      exact nofun
    · rw [Function.update_of_ne here]
      exact sound.entries entry below different
  · rw [seen, Function.update_of_ne other.symm]
    exact sound.named
  · rw [kept]
    exact sound.written
  · exact lt_of_lt_of_le sound.old later
  · intro gone
    rw [staging, gone]

/-- A file is written that is not the record. -/
theorem winds_write (sound : StagingSound storage uploadId inode record s) {handle : Handle}
    (other : handle ≠ inode) (chunk : Bytes) :
    Winds storage uploadId inode record s (s.write handle chunk) := by
  refine ⟨⟨sound.limit, sound.root, sound.uploads, sound.staging, sound.entries, sound.named, ?_,
    sound.old⟩, fun gone => gone⟩
  rw [FS.write, FS.data_setData, Function.update_of_ne other.symm]
  exact sound.written

/-- A directory is made elsewhere. -/
theorem winds_dir (sound : StagingSound storage uploadId inode record s)
    (elsewhere : ¬ stagingPlace storage uploadId <:+ path) :
    Winds storage uploadId inode record s (s.mkdirAt path) := by
  have below : ∀ entry, stagingPlace storage uploadId <:+ entry →
      (s.mkdirAt path).node entry = s.node entry := by
    intro entry inside
    have different : entry ≠ path := by
      rintro rfl
      exact elsewhere inside
    rw [FS.node_mkdirAt, Function.update_of_ne different]
  have dirs : ∀ dir, s.node dir = some .dir → (s.mkdirAt path).node dir = some .dir := by
    intro dir inside
    exact FS.look_dir.mp (FS.mkdirAt_kept path (FS.look_dir.mpr inside))
  have staging := below (stagingPlace storage uploadId) (List.suffix_refl _)
  refine ⟨⟨sound.limit, dirs _ sound.root, dirs _ sound.uploads, ?_, ?_, ?_, sound.written, sound.old⟩, ?_⟩
  · rw [staging]
    exact sound.staging
  · intro entry inside different
    rw [below entry inside]
    exact sound.entries entry inside different
  · rw [below (recordPlace storage uploadId) (List.suffix_cons _ _)]
    exact sound.named
  · intro gone
    rw [staging, gone]

/-- Something goes, but not one of the directories above. -/
theorem winds_drop (sound : StagingSound storage uploadId inode record s)
    (root : path ≠ storage.dataRoot) (uploads : path ≠ uploadsName :: storage.dataRoot) :
    Winds storage uploadId inode record s (s.drop path) := by
  have fewer : ∀ other, (s.drop path).node other = s.node other ∨ (s.drop path).node other = none := by
    intro other
    rw [FS.node_drop]
    by_cases same : other = path
    · subst same
      exact .inr (Function.update_self ..)
    · exact .inl (Function.update_of_ne same ..)
  refine ⟨⟨sound.limit, ?_, ?_, ?_, ?_, ?_, sound.written, sound.old⟩, ?_⟩
  · rw [FS.node_drop, Function.update_of_ne root.symm]
    exact sound.root
  · rw [FS.node_drop, Function.update_of_ne uploads.symm]
    exact sound.uploads
  · rcases fewer (stagingPlace storage uploadId) with same | lost
    · rw [same]
      exact sound.staging
    · exact .inr lost
  · intro entry inside different
    rcases fewer entry with same | lost
    · rw [same]
      exact sound.entries entry inside different
    · rw [lost]
      exact nofun
  · rcases fewer (recordPlace storage uploadId) with same | lost
    · rw [same]
      exact sound.named
    · exact .inr lost
  · intro gone
    rcases fewer (stagingPlace storage uploadId) with same | lost
    · rw [same, gone]
    · exact lost

/-! What the calls do to it. -/

/-- A file is unlinked, whichever it is. -/
theorem winds_unlink (sound : StagingSound storage uploadId inode record s) (path : PathBuf) :
    Winds storage uploadId inode record s (s.unlink path).2 := by
  unfold FS.unlink
  cases located : s.locateFile path with
  | error e => exact winds_refl sound
  | ok file =>
      obtain ⟨found, handle⟩ := file
      obtain ⟨_, named⟩ := FS.locateFile_found located
      apply winds_drop sound
      · rintro rfl
        rw [sound.root] at named
        cases named
      · rintro rfl
        rw [sound.uploads] at named
        cases named

/-- A directory is removed that is the staging directory or in it. -/
theorem winds_rmdir (sound : StagingSound storage uploadId inode record s) {path : PathBuf}
    (within : ∀ found, s.locate path = .ok found → stagingPlace storage uploadId <:+ found) :
    Winds storage uploadId inode record s (s.rmdir path).2 := by
  rcases rmdir_changes s path with same | ⟨found, located, dropped⟩
  · rw [same]
    exact winds_refl sound
  · have inside := within found located
    rw [dropped]
    apply winds_drop sound
    · rintro rfl
      exact above_staging (List.suffix_cons _ _) inside
    · rintro rfl
      exact above_staging (List.suffix_refl _) inside

/-- A directory is made that is not in the staging directory. -/
theorem winds_mkdir (sound : StagingSound storage uploadId inode record s) {path : PathBuf}
    (elsewhere : ∀ found, s.locate path = .ok found → ¬ stagingPlace storage uploadId <:+ found) :
    Winds storage uploadId inode record s (s.mkdir path).2 := by
  unfold FS.mkdir
  cases located : s.locate path with
  | error e => exact winds_refl sound
  | ok found =>
      simp only []
      split
      · exact winds_refl sound
      · exact winds_dir sound (elsewhere found located)
      · exact winds_refl sound
      · exact winds_refl sound

/-- A temporary file is made, in whatever directory. -/
theorem winds_temp (sound : StagingSound storage uploadId inode record s) (uuid : isUuid uploadId = true)
    {dir : PathBuf} {answer : Except Errno (PathBuf × Handle)}
    (step : faultFree (.tempfileIn dir) s answer after) :
    Winds storage uploadId inode record s after ∧ ∀ made, answer = .ok made → made.2 ≠ inode := by
  rcases temp_made step with ⟨e, _, rfl, rfl, _⟩ | ⟨name, place, temp, located, absent, rfl, rfl⟩
  · exact ⟨winds_refl sound, nofun⟩
  · -- The name tells the file from the staging directory and from its record.
    have head : place.head? = some name := by
      rw [FS.locate_join dir (temp_is_name temp)] at located
      cases upper : s.locate dir with
      | error e => simp [upper, Except.bind] at located
      | ok found =>
          rw [upper] at located
          have one : ∀ part ∈ [name], isName part = true := by
            intro part member
            rw [List.mem_singleton.mp member]
            exact temp_is_name temp
          rw [FS.walk_names one located]
          rfl
    have old := sound.old
    refine ⟨winds_file sound (FS.node_newFile s place) rfl ?_ (Nat.le_succ _) ?_ ?_ ?_, ?_⟩
    · rw [FS.data_newFile, Function.update_of_ne (Nat.ne_of_lt old)]
    · rw [FS.look_none.mp absent]
      exact nofun
    · rintro rfl
      obtain rfl := Option.some.inj head
      have short := temp_length temp
      rw [uuid_length uuid] at short
      exact absurd short (by decide)
    · rintro rfl
      obtain rfl := Option.some.inj head
      exact absurd temp (by decide)
    · rintro made same
      cases same
      exact Nat.ne_of_gt old

/-- A file is renamed to a place that is neither that of the directory nor that of its record. -/
theorem winds_rename (sound : StagingSound storage uploadId inode record s) (source : PathBuf)
    {target : PathBuf} (lands : ∀ found, s.locate target = .ok found →
      found ≠ stagingPlace storage uploadId ∧ found ≠ recordPlace storage uploadId) :
    Winds storage uploadId inode record s (s.rename source target).2 := by
  unfold FS.rename
  split
  · exact winds_refl sound
  · exact winds_refl sound
  · next before found leaves arrives =>
      split
      · exact winds_refl sound
      · exact winds_refl sound
      · exact winds_refl sound
      · next file named free =>
          have root : before ≠ storage.dataRoot := by
            rintro rfl
            rw [sound.root] at named
            cases named
          have uploads : before ≠ uploadsName :: storage.dataRoot := by
            rintro rfl
            rw [sound.uploads] at named
            cases named
          have first := winds_drop sound root uploads
          have seen : (s.move before found).node =
              Function.update (s.drop before).node found (some (.file file)) := by
            rw [FS.node_drop, FS.node_move s named]
          have vacant : (s.drop before).node found ≠ some .dir := by
            rw [FS.node_drop]
            by_cases same : found = before
            · subst same
              rw [Function.update_self]
              exact nofun
            · rw [Function.update_of_ne same]
              exact free
          obtain ⟨apart, other⟩ := lands found arrives
          exact winds_trans first (winds_file first.sound seen (FS.limit_move ..)
            (by rw [FS.data_move]; rfl) (by rw [FS.next_move]; rfl) vacant apart other)

end Winding

/-! ### The calls -/

namespace UploadCall

/-- The calls that end an upload. -/
def Finishes : UploadCall → Prop
  | .uploadPart _ _ _ => False
  | _ => True

def Completes : UploadCall → Prop
  | .completeMultipartUpload _ _ _ => True
  | _ => False

/-- What a call answers when there is no such upload. A part number is looked at first, and
completing names the record that it does not find. -/
def refusal (storage : FsStorage) (uploadId : Str) : UploadCall → StorageError
  | .uploadPart _ partNumber _ =>
      if partNumber ≤ 0 then .InvalidPartNumber partNumber else .NoSuchUpload uploadId
  | .completeMultipartUpload _ _ _ =>
      .NoSuchUpload ((storage.uploadDir uploadId).join multipartJsonName).display
  | .abortMultipartUpload _ => .NoSuchUpload uploadId

end UploadCall

/-- Whenever a completion has come to the last step of its removal, the staging directory was
empty or gone. -/
def SweptClean {Thread : Type} (storage : FsStorage) (uploadId : Str) (calls : Thread → UploadCall)
    (past : List (Event Thread Reply)) : Prop :=
  ∀ thread, (calls thread).Completes →
    (⟨thread, .rmdir (storage.uploadDir uploadId), .error .ENOTEMPTY⟩ : Event Thread Reply) ∉ past

theorem swept_lasting {Thread : Type} {storage : FsStorage} {uploadId : Str}
    {calls : Thread → UploadCall} (past : List (Event Thread Reply)) (event : Event Thread Reply)
    (swept : SweptClean storage uploadId calls (past ++ [event])) :
    SweptClean storage uploadId calls past :=
  fun thread completes member => swept thread completes (List.mem_append_left _ member)

/-- The threads that know that the directory is gone are right. -/
structure Clearing {Thread : Type} (storage : FsStorage) (uploadId : Str) (inode : Handle)
    (record : Bytes) (known : Thread → Bool) (_ : List (Event Thread Reply)) (s : FS) : Prop where
  sound : StagingSound storage uploadId inode record s
  gone : ∀ thread, known thread = true → s.node (stagingPlace storage uploadId) = none

/-- A program of a thread keeps that in the runs in which completions sweep clean. -/
abbrev Clears {Thread : Type} [DecidableEq Thread] (storage : FsStorage) (uploadId : Str)
    (inode : Handle) (record : Bytes) (calls : Thread → UploadCall) {Error Value : Type}
    (thread : Thread) (program : Prog Call Reply Error Value)
    (post : Bool → Except Error Value → Prop) (flag : Bool) : Prop :=
  tracks faultFree (recorded thread)
    (among (Guarded (SweptClean storage uploadId calls) (Clearing storage uploadId inode record)) thread)
    program (guard post) (some flag)

section Calls
variable {Thread : Type} [DecidableEq Thread] {storage : FsStorage} {uploadId : Str} {inode : Handle}
  {record : Bytes} {calls : Thread → UploadCall} {thread : Thread} {flag : Bool} {Error Value : Type}
  {post : Bool → Except Error Value → Prop}

/-- One step of a thread. -/
theorem clears_step {call : Call} {next : Reply call → Prog Call Reply Error Value}
    (step : ∀ past s reply after, StagingSound storage uploadId inode record s →
      SweptClean storage uploadId calls (past ++ [⟨thread, call, reply⟩]) → faultFree call s reply after →
      ∃ flag', Winds storage uploadId inode record s after ∧
        (flag' = true → flag = true ∨ after.node (stagingPlace storage uploadId) = none) ∧
        Clears storage uploadId inode record calls thread (next reply) post flag') :
    Clears storage uploadId inode record calls thread (.call call next) post flag := by
  apply tracks_guarded swept_lasting
  intro known past s reply after swept clearing taken
  obtain ⟨flag', winds, told, rest⟩ := step past s reply after clearing.sound swept taken
  refine ⟨flag', ⟨winds.sound, ?_⟩, rest⟩
  intro other knows
  by_cases same : other = thread
  · subst same
    rw [Function.update_self] at knows
    rcases told knows with former | gone
    · exact winds.gone (clearing.gone other (by rw [Function.update_self, former]))
    · exact gone
  · have former := clearing.gone other
    rw [Function.update_of_ne same] at knows former
    exact winds.gone (former knows)

/-- A step from which the thread learns nothing about the directory. -/
theorem clears_flow {call : Call} {next : Reply call → Prog Call Reply Error Value}
    (step : ∀ s reply after, StagingSound storage uploadId inode record s → faultFree call s reply after →
      Winds storage uploadId inode record s after ∧
        Clears storage uploadId inode record calls thread (next reply) post flag) :
    Clears storage uploadId inode record calls thread (.call call next) post flag := by
  apply clears_step
  intro past s reply after sound _ taken
  obtain ⟨winds, rest⟩ := step s reply after sound taken
  exact ⟨flag, winds, fun knows => .inl knows, rest⟩

/-- A call that only looks. -/
theorem clears_look {call : Call} {next : Reply call → Prog Call Reply Error Value}
    (quiet : call.quiet = true)
    (rest : ∀ reply, Clears storage uploadId inode record calls thread (next reply) post flag) :
    Clears storage uploadId inode record calls thread (.call call next) post flag := by
  apply clears_flow
  intro s reply after sound taken
  obtain rfl := quiet_same quiet taken
  exact ⟨winds_refl sound, rest reply⟩

theorem clears_bind {Result : Type} {program : Prog Call Reply Error Value}
    {rest : Value → Prog Call Reply Error Result} {final : Bool → Except Error Result → Prop}
    (first : Clears storage uploadId inode record calls thread program
      (fun flag' outcome => match outcome with
        | .ok value => Clears storage uploadId inode record calls thread (rest value) final flag'
        | .error error => final flag' (.error error)) flag) :
    Clears storage uploadId inode record calls thread (program >>= rest) final flag :=
  tracks_guarded_bind swept_lasting first

theorem clears_mono {program : Prog Call Reply Error Value}
    {strong weak : Bool → Except Error Value → Prop}
    (cleared : Clears storage uploadId inode record calls thread program strong flag)
    (weaker : ∀ flag outcome, strong flag outcome → weak flag outcome) :
    Clears storage uploadId inode record calls thread program weak flag :=
  tracks_guarded_mono cleared weaker

/-- A program has ended. -/
theorem clears_done {value : Value} (held : post flag (.ok value)) :
    Clears storage uploadId inode record calls thread (.done value) post flag := by
  rintro _ ⟨⟩
  exact held

theorem clears_fail {error : Error} (held : post flag (.error error)) :
    Clears storage uploadId inode record calls thread (.fail error) post flag := by
  rintro _ ⟨⟩
  exact held

theorem clears_attempt {Failure : Type} {program : Prog Call Reply Error Value}
    {post : Bool → Except Failure (Except Error Value) → Prop}
    (first : Clears storage uploadId inode record calls thread program
      (fun flag' outcome => post flag' (.ok outcome)) flag) :
    Clears storage uploadId inode record calls thread program.attempt post flag :=
  tracks_attempt.mpr first

/-! ### The helpers of fs.rs -/

/-- A path of names that leads out of the staging directory. -/
def Outside (storage : FsStorage) (uploadId : Str) (path : PathBuf) : Prop :=
  (∀ part ∈ path.rel, isName part = true) ∧
    ¬ stagingPlace storage uploadId <:+ path.rel.reverse ++ path.base

omit [DecidableEq Thread] in
theorem outside_parent {path : PathBuf} (outside : Outside storage uploadId path) :
    Outside storage uploadId path.parent := by
  obtain ⟨names, away⟩ := outside
  obtain ⟨base, rel⟩ := path
  cases rel with
  | nil => exact ⟨nofun, fun inside => away (inside.trans (List.tail_suffix base))⟩
  | cons part rest =>
      refine ⟨fun other member => names other (List.mem_of_mem_dropLast member), fun inside => away ?_⟩
      have shorter : (part :: rest).dropLast.reverse ++ base <:+ (part :: rest).reverse ++ base := by
        rw [← List.dropLast_append_getLast (List.cons_ne_nil part rest)]
        simp
      exact inside.trans shorter

theorem clears_mkdir {path : PathBuf} (outside : Outside storage uploadId path)
    {next : Except Errno Unit → Prog Call Reply Error Value}
    (rest : ∀ reply, Clears storage uploadId inode record calls thread (next reply) post flag) :
    Clears storage uploadId inode record calls thread (.call (.mkdir path) next) post flag := by
  apply clears_flow
  intro s reply after sound step
  obtain ⟨rfl, rfl⟩ := exec_taken (fun _ => rfl) step
  refine ⟨winds_mkdir sound fun found located => ?_, rest _⟩
  rw [FS.locate_names outside.1 located]
  exact outside.2

theorem clears_createDirUpTo (height : Nat) {path : PathBuf} (outside : Outside storage uploadId path)
    (flag : Bool) :
    Clears storage uploadId inode record calls thread (createDirUpTo height path) (fun _ _ => True) flag := by
  refine createDirUpTo_rule (fun path program => Outside storage uploadId path → ∀ flag,
    Clears storage uploadId inode record calls thread program (fun _ _ => True) flag)
    ?_ ?_ ?_ ?_ ?_ height path outside flag
  · exact fun _ _ _ => clears_done trivial
  · exact fun _ _ _ _ => clears_fail trivial
  · intro path next goes outside flag
    exact clears_mkdir outside fun reply => goes reply outside flag
  · intro path next goes outside flag
    exact clears_look rfl fun reply => goes reply outside flag
  · intro path parents rest climbs goes outside flag
    apply clears_bind
    apply clears_mono (climbs (outside_parent outside) flag)
    intro flag' outcome _
    cases outcome with
    | error e => exact trivial
    | ok _ => exact goes outside flag'

/-- Writing to a file that is not the record. -/
theorem clears_write {handle : Handle} (other : handle ≠ inode) {chunk : Bytes}
    {next : Except Errno Unit → Prog Call Reply Error Value}
    (rest : Clears storage uploadId inode record calls thread (next (.ok ())) post flag) :
    Clears storage uploadId inode record calls thread (.call (.write handle chunk) next) post flag := by
  apply clears_flow
  intro s reply after sound step
  obtain ⟨rfl, rfl⟩ := exec_taken (fun _ => rfl) step
  exact ⟨winds_write sound other chunk, rest⟩

/-- A temporary file is filled and renamed or removed. -/
theorem clears_installFile (uuid : isUuid uploadId = true) {dir target : PathBuf}
    {fill : Handle → Op Value} (flag : Bool)
    (fills : ∀ handle, handle ≠ inode →
      Clears storage uploadId inode record calls thread (fill handle) (fun _ _ => True) flag)
    (lands : ∀ (s : FS) found, s.locate target = .ok found →
      found ≠ stagingPlace storage uploadId ∧ found ≠ recordPlace storage uploadId) :
    Clears storage uploadId inode record calls thread (installFile dir fill target) (fun _ _ => True)
      flag := by
  have dropped : ∀ (path : PathBuf) (error : StorageError) (flag : Bool),
      Clears storage uploadId inode record calls thread (.call (.unlink path) fun _ => .fail error : Op Value)
        (fun _ _ => True) flag := by
    intro path error flag
    apply clears_flow
    intro s reply after sound step
    obtain ⟨rfl, rfl⟩ := exec_taken (fun _ => rfl) step
    exact ⟨winds_unlink sound path, clears_fail trivial⟩
  rw [install_steps]
  apply clears_flow
  intro s reply after sound step
  obtain ⟨winds, other⟩ := winds_temp sound uuid step
  refine ⟨winds, ?_⟩
  cases reply with
  | error e => exact clears_fail trivial
  | ok made =>
      apply clears_bind
      apply clears_attempt
      apply clears_mono (fills made.2 (other made rfl))
      intro flag' outcome _
      cases outcome with
      | error error => exact dropped made.1 error flag'
      | ok value =>
          apply clears_flow
          intro s renamed after sound step
          obtain ⟨rfl, rfl⟩ := exec_taken (fun _ => rfl) step
          refine ⟨winds_rename sound made.1 (lands s), ?_⟩
          cases (s.rename made.1 target).1 with
          | error e => exact dropped made.1 _ flag'
          | ok _ => exact clears_done trivial

theorem clears_stream {handle : Handle} (other : handle ≠ inode) (body : Body) (hasher : EtagHasher)
    (bytesWritten : Nat) :
    Clears storage uploadId inode record calls thread (streamToFile handle body hasher bytesWritten)
      (fun _ _ => True) flag := by
  induction body generalizing hasher bytesWritten with
  | nil =>
      apply clears_look rfl
      intro reply
      cases reply with
      | error e => exact clears_fail trivial
      | ok _ => exact clears_done trivial
  | cons piece rest ih =>
      cases piece with
      | error e => exact clears_fail trivial
      | ok chunk => exact clears_write other (ih _ _)

theorem clears_assemble {handle : Handle} (other : handle ≠ inode) (uploadDir : PathBuf)
    (parts : List Int) (hasher : EtagHasher) (bytesWritten : Nat) :
    Clears storage uploadId inode record calls thread
      (assembleParts uploadDir handle parts hasher bytesWritten) (fun _ _ => True) flag := by
  induction parts generalizing hasher bytesWritten with
  | nil =>
      apply clears_look rfl
      intro reply
      cases reply with
      | error e => exact clears_fail trivial
      | ok _ => exact clears_done trivial
  | cons number rest ih =>
      apply clears_look rfl
      intro opened
      cases opened with
      | error e => exact clears_fail trivial
      | ok part =>
          apply clears_look rfl
          intro bytes
          cases bytes with
          | error e => exact clears_fail trivial
          | ok chunk => exact clears_write other (ih _ _)

theorem clears_writeJson (uuid : isUuid uploadId = true) {Record : Type} {codec : Codec Record}
    {path : PathBuf} {value : Record} (flag : Bool)
    (lands : ∀ (s : FS) found, s.locate path = .ok found →
      found ≠ stagingPlace storage uploadId ∧ found ≠ recordPlace storage uploadId) :
    Clears storage uploadId inode record calls thread (writeJson codec path value) (fun _ _ => True)
      flag := by
  unfold writeJson
  apply clears_installFile uuid flag _ lands
  intro handle other
  apply clears_write other
  apply clears_look rfl
  intro reply
  cases reply with
  | error e => exact clears_fail trivial
  | ok _ => exact clears_done trivial

omit [DecidableEq Thread] in
/-- Where the id leads while `.uploads` is there. -/
theorem sound_located {s : FS} (sound : StagingSound storage uploadId inode record s)
    (uuid : isUuid uploadId = true) :
    s.locate (storage.uploadDir uploadId) = .ok (stagingPlace storage uploadId) := by
  have root : s.look storage.dataRoot = some .dir := FS.look_dir.mpr sound.root
  have uploads : s.look (uploadsName :: storage.dataRoot) = some .dir := FS.look_dir.mpr sound.uploads
  have first : s.locate storage.uploadsRoot = .ok (uploadsName :: storage.dataRoot) :=
    FS.locate_name (locate_root storage s) root (by decide) (fits_limit sound.limit (by decide))
  exact FS.locate_name first uploads (uuid_is_name uuid)
    (fits_limit sound.limit (by simp [uuid_length uuid]))

/-- Whoever reads the record reads the one that the upload began with. -/
theorem clears_readRecord (uuid : isUuid uploadId = true) :
    Clears storage uploadId inode record calls thread
      (readFile ((storage.uploadDir uploadId).join multipartJsonName))
      (fun _ outcome => ∀ bytes, outcome = .ok bytes → bytes = record) flag := by
  have leads := upload_leads storage (.inr (uuid_is_name uuid))
  unfold readFile
  apply clears_flow
  intro s opened after sound step
  obtain ⟨rfl, rfl⟩ := exec_taken (fun _ => rfl) step
  refine ⟨winds_refl sound, ?_⟩
  cases found : after.locateFile ((storage.uploadDir uploadId).join multipartJsonName) with
  | error e =>
      simp only [FS.open, found, Except.map]
      exact clears_fail (by rintro _ ⟨⟩)
  | ok file =>
      simp only [FS.open, found, Except.map]
      obtain ⟨place, named⟩ := FS.locateFile_found found
      obtain same : file.1 = recordPlace storage uploadId := leads.entry after _ _ (by decide) place
      have own : file.2 = inode := by
        rw [same] at named
        rcases sound.named with there | lost
        · rw [there] at named
          cases named
          rfl
        · rw [lost] at named
          cases named
      rw [own]
      apply clears_flow
      intro later bytes after still step
      obtain ⟨rfl, rfl⟩ := exec_taken (fun _ => rfl) step
      refine ⟨winds_refl still, clears_done ?_⟩
      rintro _ ⟨⟩
      exact still.written

/-- Removing the files that a tree walk has found. -/
theorem clears_removeFound {entries : List (Path × Bool)}
    (inside : ∀ entry ∈ entries, stagingPlace storage uploadId <:+ entry.1 ∧
      entry.1 ≠ stagingPlace storage uploadId ∧ entry.2 = false) :
    Clears storage uploadId inode record calls thread (removeFound entries)
      (fun _ outcome => outcome = .ok ()) flag := by
  induction entries with
  | nil => exact clears_done rfl
  | cons entry rest ih =>
      obtain ⟨path, isDir⟩ := entry
      obtain ⟨below, different, file⟩ := inside (path, isDir) List.mem_cons_self
      obtain rfl : isDir = false := file
      have later := ih fun other member => inside other (List.mem_cons_of_mem _ member)
      apply clears_flow
      intro s reply after sound step
      obtain ⟨rfl, rfl⟩ := exec_taken (fun _ => rfl) step
      refine ⟨winds_unlink sound _, ?_⟩
      -- Nothing but a file has ever been there, so it is unlinked or gone already.
      have located : s.locate ⟨path, []⟩ = .ok path := rfl
      cases there : s.look path with
      | none =>
          rw [FS.unlink_absent located there]
          exact later
      | some kind =>
          cases kind with
          | dir => exact absurd (FS.look_dir.mp there) (sound.entries path below different)
          | file content =>
              rw [FS.unlink_file located there]
              exact later

/-- After a removal the directory is gone, unless a file has come into it and the removal says
so; and then it is none of a completion. -/
theorem clears_removeUpload (uuid : isUuid uploadId = true) (flag : Bool) :
    Clears storage uploadId inode record calls thread (removeDirAll (storage.uploadDir uploadId))
      (fun flag' outcome => flag' = true ∨
        outcome = .error .ENOTEMPTY ∧ ¬ (calls thread).Completes) flag := by
  unfold removeDirAll
  simp only [Prog.send_bind]
  apply clears_step
  intro _ s reply after sound _ step
  have located := sound_located sound uuid
  obtain ⟨rfl, ⟨e, lost, rfl⟩ | ⟨dir, entries, found, rfl, listed⟩⟩ := tree_listed step
  · -- The directory is gone before the walk.
    have gone : after.node (stagingPlace storage uploadId) = none := by
      rcases sound.staging with inside | gone
      · rw [FS.locateDir_dir located (FS.look_dir.mpr inside)] at lost
        cases lost
      · exact gone
    exact ⟨true, winds_refl sound, fun _ => .inr gone, clears_fail (.inl rfl)⟩
  refine ⟨flag, winds_refl sound, fun knows => .inl knows, ?_⟩
  obtain rfl : stagingPlace storage uploadId = dir :=
    Except.ok.inj (located.symm.trans (FS.locateDir_ok found))
  have files : ∀ entry ∈ entries, stagingPlace storage uploadId <:+ entry.1 ∧
      entry.1 ≠ stagingPlace storage uploadId ∧ entry.2 = false := by
    intro entry member
    obtain ⟨_, ⟨below, different⟩, kind⟩ := listed entry member
    refine ⟨below, different, Bool.eq_false_iff.mpr fun directory => ?_⟩
    exact sound.entries entry.1 below different (FS.look_dir.mp (kind.mp directory))
  simp only [Prog.ofExcept, Prog.done_bind]
  apply clears_bind
  apply clears_mono (clears_removeFound files)
  rintro flag' _ rfl
  simp only []
  apply clears_step
  intro past s reply after sound swept step
  obtain ⟨rfl, rfl⟩ := exec_taken (fun _ => rfl) step
  have located := sound_located sound uuid
  have winds : Winds storage uploadId inode record s (s.rmdir (storage.uploadDir uploadId)).2 := by
    apply winds_rmdir sound
    intro found arrived
    rw [Except.ok.inj (arrived.symm.trans located)]
  rcases sound.staging with inside | gone
  · have directory := FS.locateDir_dir located (FS.look_dir.mpr inside)
    have plain := join_lastPart storage.uploadsRoot (uuid_is_name uuid)
    by_cases childless : ∀ name, s.look (name :: stagingPlace storage uploadId) = none
    · have removed := FS.rmdir_empty directory plain (List.cons_ne_nil _ _) childless
      simp only [removed] at winds ⊢
      refine ⟨true, winds, fun _ => .inr ?_, clears_done (.inl rfl)⟩
      rw [FS.node_drop, Function.update_self]
    · have entries : ∃ name, s.look (name :: stagingPlace storage uploadId) ≠ none :=
        not_forall.mp childless
      have full := FS.rmdir_full directory plain (List.cons_ne_nil _ _) entries
      simp only [full] at winds swept ⊢
      refine ⟨flag', winds, fun knows => .inl knows, clears_fail (.inr ⟨rfl, fun completes => ?_⟩)⟩
      exact swept thread completes (List.mem_append_right _ (List.mem_singleton.mpr rfl))
  · have lost := FS.rmdir_lost (FS.locateDir_absent located (FS.look_none.mpr gone))
    simp only [lost] at winds ⊢
    exact ⟨true, winds, fun _ => .inr gone, clears_done (.inl rfl)⟩

end Calls

/-! ### The requests -/

section Requests
variable {storage : FsStorage} {uploadId bucket key encoded : Str} {place : Path} {s : FS}

/-- What belongs to a bucket is not staged. -/
theorem bucket_apart (valid : validateBucketName bucket = .ok ())
    (inside : bucket :: storage.dataRoot <:+ place) : ¬ uploadsName :: storage.dataRoot <:+ place := by
  intro staged
  have nested := List.suffix_of_suffix_length_le inside staged (by simp)
  have same := nested.eq_of_length (by simp)
  exact bucket_not_uploads valid (List.cons.inj same).1

theorem bucket_unstaged (valid : validateBucketName bucket = .ok ())
    (inside : bucket :: storage.dataRoot <:+ place) :
    place ≠ stagingPlace storage uploadId ∧ place ≠ recordPlace storage uploadId := by
  constructor
  · rintro rfl
    exact bucket_apart valid inside (List.suffix_cons _ _)
  · rintro rfl
    exact bucket_apart valid inside ((List.suffix_cons _ _).trans (List.suffix_cons _ _))

theorem outside_objects (valid : validateBucketName bucket = .ok ()) :
    Outside storage uploadId (storage.objectsDir bucket) := by
  obtain ⟨_, _, _, slash, _⟩ := name_parts (bucket_is_name valid)
  have dots : '/' ∉ objectsName := by decide
  have shape : storage.objectsDir bucket = ⟨storage.dataRoot, [bucket, objectsName]⟩ := by
    simp [FsStorage.objectsDir, FsStorage.bucketPath, FsStorage.rootPath, join_name _ slash, join_name _ dots]
  rw [shape]
  constructor
  · intro part member
    rcases List.mem_cons.mp member with rfl | last
    · exact bucket_is_name valid
    · rw [List.mem_singleton.mp last]
      decide
  · intro staged
    have inside : bucket :: storage.dataRoot <:+ [bucket, objectsName].reverse ++ storage.dataRoot :=
      List.suffix_cons objectsName (bucket :: storage.dataRoot)
    exact bucket_apart valid inside ((List.suffix_cons _ _).trans staged)

theorem object_lands (valid : validateBucketName bucket = .ok ()) (admitted : encodeKey key = .ok encoded)
    (located : s.locate (storage.objectPath bucket encoded) = .ok place) :
    place ≠ stagingPlace storage uploadId ∧ place ≠ recordPlace storage uploadId := by
  apply bucket_unstaged valid
  rcases (located_object valid admitted located).2 with ⟨_, rfl⟩ | ⟨_, rfl⟩
  · exact (List.suffix_cons _ _).trans (List.suffix_cons _ _)
  · exact List.suffix_cons _ _

theorem sidecar_lands (valid : validateBucketName bucket = .ok ()) (admitted : encodeKey key = .ok encoded)
    (located : s.locate (storage.metaPath bucket encoded) = .ok place) :
    place ≠ stagingPlace storage uploadId ∧ place ≠ recordPlace storage uploadId := by
  apply bucket_unstaged valid
  rw [(located_sidecar valid admitted located).1]
  exact (List.suffix_cons _ _).trans (List.suffix_cons _ _)

theorem part_lands (uuid : isUuid uploadId = true) {partNumber : Int}
    (located : s.locate (storage.partPath uploadId partNumber) = .ok place) :
    place ≠ stagingPlace storage uploadId ∧ place ≠ recordPlace storage uploadId := by
  have leads := upload_leads storage (.inr (uuid_is_name uuid))
  obtain rfl := leads.entry s _ place (part_is_name partNumber) located
  constructor
  · intro same
    exact List.cons_ne_self _ _ same
  · intro same
    exact part_not_meta partNumber (List.cons.inj same).1

variable {Thread : Type} [DecidableEq Thread] {crates : Crates} {inode : Handle}
  {multipartMeta : MultipartMeta} {calls : Thread → UploadCall} {thread : Thread}

/-- A thread that has ended the upload knows that the directory is gone. -/
def Knows (call : UploadCall) (flag : Bool) (outcome : Outcome) : Prop :=
  call.Finishes → ∀ response, outcome = .ok response → flag = true

omit [DecidableEq Thread] in
theorem knows_failed {call : UploadCall} {flag : Bool} (error : StorageError) :
    Knows call flag (.error error) := fun _ => nofun

theorem clears_uploadPart (uuid : isUuid uploadId = true) (partNumber : Int) (body : Body) :
    Clears storage uploadId inode (crates.multipartMeta.encode multipartMeta) calls thread
      (handle crates storage (.uploadPart bucket uploadId partNumber body))
      (Knows (.uploadPart bucket partNumber body)) false := by
  have unfinished : ∀ flag outcome, Knows (.uploadPart bucket partNumber body) flag outcome :=
    fun _ _ finishes => absurd finishes not_false
  unfold handle uploadPart
  by_cases small : partNumber ≤ 0
  · simp only [small, if_true]
    exact clears_fail (unfinished _ _)
  · simp only [small, if_false, Prog.send_bind]
    apply clears_look rfl
    intro there
    cases there with
    | false => exact clears_fail (unfinished _ _)
    | true =>
        simp only [Bool.not_true, Bool.false_eq_true, if_false]
        apply clears_bind
        apply clears_bind
        apply clears_mono (clears_installFile uuid false
          (fun handle other => clears_stream other body .new 0) fun s found => part_lands uuid)
        intro flag outcome _
        cases outcome with
        | error e => exact unfinished _ _
        | ok value => exact clears_done (clears_done (unfinished _ _))

theorem clears_abort (uuid : isUuid uploadId = true) :
    Clears storage uploadId inode (crates.multipartMeta.encode multipartMeta) calls thread
      (handle crates storage (.abortMultipartUpload bucket uploadId))
      (Knows (.abortMultipartUpload bucket)) false := by
  unfold handle abortMultipartUpload
  apply clears_bind
  apply clears_bind
  apply clears_attempt
  apply clears_mono (clears_removeUpload uuid false)
  intro flag outcome removed
  cases outcome with
  | ok _ =>
      rcases removed with rfl | ⟨full, _⟩
      · exact clears_done (clears_done fun _ _ _ => rfl)
      · cases full
  | error e => cases e <;> exact clears_fail (knows_failed _)

theorem clears_complete (uuid : isUuid uploadId = true)
    (valid : validateBucketName multipartMeta.bucket = .ok ()) (parts : List Int)
    (own : calls thread = .completeMultipartUpload bucket key parts) :
    Clears storage uploadId inode (crates.multipartMeta.encode multipartMeta) calls thread
      (handle crates storage (.completeMultipartUpload bucket key uploadId parts))
      (Knows (.completeMultipartUpload bucket key parts)) false := by
  unfold handle completeMultipartUpload readMultipartMeta readJson
  apply clears_bind
  apply clears_bind
  apply clears_bind
  apply clears_attempt
  apply clears_mono (clears_readRecord uuid)
  intro flag outcome read
  cases outcome with
  | error e => cases e <;> exact clears_fail (knows_failed _)
  | ok bytes =>
  obtain rfl := read bytes rfl
  simp only [Codec.decode_encode]
  apply clears_done
  apply clears_bind
  apply tracks_ioOp.mpr
  apply clears_mono (clears_createDirUpTo _ (outside_objects valid) flag)
  intro flag outcome _
  cases outcome with
  | error e => exact knows_failed _
  | ok _ =>
  simp only [Except.mapError]
  cases admitted : encodeKey key with
  | error e => exact clears_fail (knows_failed _)
  | ok encoded =>
  simp only [lift, Prog.ofExcept, Prog.done_bind]
  apply clears_bind
  apply clears_mono (clears_installFile uuid flag (fun handle other => clears_assemble other _ _ .new 0)
    fun s found => object_lands valid admitted)
  intro flag outcome _
  cases outcome with
  | error e => exact knows_failed _
  | ok assembled =>
  simp only [Prog.send_bind]
  apply clears_look rfl
  intro time
  apply clears_bind
  apply clears_mono (clears_writeJson uuid flag fun s found => sidecar_lands valid admitted)
  intro flag outcome _
  cases outcome with
  | error e => exact knows_failed _
  | ok _ =>
  apply clears_bind
  apply clears_attempt
  apply clears_mono (clears_removeUpload uuid flag)
  intro flag outcome removed
  rcases removed with rfl | ⟨_, incomplete⟩
  · exact clears_done (clears_done fun _ _ _ => rfl)
  · rw [own] at incomplete
    exact absurd trivial incomplete

end Requests

/-! ### After the end -/

/-- The upload is over: its directory is gone, and every call on it is refused and changes
nothing, alone or beside any others. -/
structure DeadUpload (crates : Crates) (storage : FsStorage) (uploadId : Str) (s : FS) : Prop where
  gone : s.look (stagingPlace storage uploadId) = none
  refuses : ∀ call : UploadCall, wp faultFree (handle crates storage (call.request uploadId))
    (fun outcome after => outcome = .error (call.refusal storage uploadId) ∧ after = s) s
  together : ∀ {Later : Type} [DecidableEq Later] (later : Later → UploadCall)
    {last : Later → Op Response} {events : List (Event Later Reply)} {after : FS},
    Interleaves (fun _ => faultFree) (fun thread => handle crates storage ((later thread).request uploadId))
      s events last after →
    after = s ∧ ∀ thread outcome, last thread = ended outcome →
      outcome = .error ((later thread).refusal storage uploadId)

section Refusing
variable {crates : Crates} {storage : FsStorage} {uploadId : Str} {s : FS}

/-- The id leads nowhere. -/
def Nowhere (storage : FsStorage) (uploadId : Str) (s : FS) : Prop :=
  s.locate (storage.uploadDir uploadId) = .error .ENOENT ∨
    s.locate (storage.uploadDir uploadId) = .ok (stagingPlace storage uploadId) ∧
      s.look (stagingPlace storage uploadId) = none

theorem nowhere_exists (nowhere : Nowhere storage uploadId s) :
    s.exists (storage.uploadDir uploadId) = false := by
  rcases nowhere with lost | ⟨located, gone⟩
  · exact FS.exists_lost lost
  · rw [FS.exists_located located, gone]
    rfl

theorem nowhere_dir (nowhere : Nowhere storage uploadId s) :
    s.locateDir (storage.uploadDir uploadId) = .error .ENOENT := by
  rcases nowhere with lost | ⟨located, gone⟩
  · exact FS.locateDir_lost lost
  · exact FS.locateDir_absent located gone

theorem nowhere_record (nowhere : Nowhere storage uploadId s) :
    s.open ((storage.uploadDir uploadId).join multipartJsonName) = .error .ENOENT := by
  rcases nowhere with lost | ⟨located, gone⟩
  · exact FS.open_lost (FS.locate_name_lost lost (by decide))
  · exact FS.open_lost (FS.locate_name_absent located gone (by decide))

theorem nowhere_refuses (nowhere : Nowhere storage uploadId s) (call : UploadCall) :
    wp faultFree (handle crates storage (call.request uploadId))
      (fun outcome after => outcome = .error (call.refusal storage uploadId) ∧ after = s) s := by
  cases call with
  | uploadPart bucket partNumber body =>
      unfold UploadCall.request handle uploadPart UploadCall.refusal
      by_cases small : partNumber ≤ 0
      · simp only [small, if_true]
        exact ⟨rfl, rfl⟩
      · simp only [small, if_false, Prog.send_bind, Prog.call_bind, wp_exists, nowhere_exists nowhere]
        exact ⟨rfl, rfl⟩
  | completeMultipartUpload bucket key parts =>
      have lost : fileContents s ((storage.uploadDir uploadId).join multipartJsonName) = .error .ENOENT := by
        rw [fileContents, nowhere_record nowhere]
        rfl
      unfold UploadCall.request handle completeMultipartUpload readMultipartMeta
      rw [wp_bind, wp_bind, wp_readJson, lost]
      exact ⟨rfl, rfl⟩
  | abortMultipartUpload bucket =>
      unfold UploadCall.request handle abortMultipartUpload removeDirAll
      rw [wp_bind, wp_bind, wp_attempt]
      simp only [Prog.send_bind, wp_readTree_lost (nowhere_dir nowhere)]
      exact ⟨rfl, rfl⟩

/-- A thread that sees nothing but this state is refused. -/
theorem nowhere_tracks {World Ghost : Type} {advance : World → (call : Call) → Reply call → World}
    {ghost : Ghost} (nowhere : Nowhere storage uploadId s) (call : UploadCall) :
    tracks faultFree advance (fun _ _ t => t = s) (handle crates storage (call.request uploadId))
      (fun _ outcome => outcome = .error (call.refusal storage uploadId)) ghost := by
  cases call with
  | uploadPart bucket partNumber body =>
      unfold UploadCall.request handle uploadPart UploadCall.refusal
      by_cases small : partNumber ≤ 0
      · simp only [small, if_true]
        rfl
      · simp only [small, if_false, Prog.send_bind, Prog.call_bind]
        apply tracks_exec
        rintro world t rfl
        refine ⟨false, t, fun _ => ?_, ghost, rfl, rfl⟩
        exact congrArg (fun found => some (found, t)) (nowhere_exists nowhere)
  | completeMultipartUpload bucket key parts =>
      unfold UploadCall.request handle completeMultipartUpload readMultipartMeta readJson readFile
      apply tracks_exec
      rintro world t rfl
      refine ⟨.error .ENOENT, t, fun _ => ?_, ghost, rfl, rfl⟩
      exact congrArg (fun found => some (found, t)) (nowhere_record nowhere)
  | abortMultipartUpload bucket =>
      unfold UploadCall.request handle abortMultipartUpload removeDirAll
      apply tracks_exec
      rintro world t rfl
      refine ⟨.error .ENOENT, t, fun choice => ?_, ghost, rfl, rfl⟩
      simp [Call.perform, FS.readTree, nowhere_dir nowhere]

/-- Nothing has become of the state. -/
def Unmoved (s : FS) {Later : Type} (_ : Later → Unit) (_ : List (Event Later Reply)) (t : FS) : Prop :=
  t = s

theorem nowhere_dead (nowhere : Nowhere storage uploadId s)
    (gone : s.look (stagingPlace storage uploadId) = none) : DeadUpload crates storage uploadId s where
  gone := gone
  refuses := nowhere_refuses nowhere
  together := by
    intro Later _ later last events after run
    have tracked : ∀ thread, tracks faultFree (recorded thread) (among (Unmoved s) thread)
        (handle crates storage ((later thread).request uploadId))
        (fun _ outcome => outcome = .error ((later thread).refusal storage uploadId)) () :=
      fun thread => nowhere_tracks nowhere (later thread)
    have begins : Unmoved s (fun _ : Later => ()) [] s := rfl
    obtain ⟨_, same, rest⟩ := pool_tracks tracked begins run
    refine ⟨same, fun thread outcome done => ?_⟩
    have final := rest thread
    rw [done] at final
    have refused := tracks_ended final
    exact refused

theorem sound_nowhere {inode : Handle} {record : Bytes}
    (sound : StagingSound storage uploadId inode record s) (uuid : isUuid uploadId = true)
    (gone : s.look (stagingPlace storage uploadId) = none) : Nowhere storage uploadId s :=
  .inr ⟨sound_located sound uuid, gone⟩

end Refusing

/-! ### Overlapping calls -/

section Overlapping
variable {Thread : Type} [DecidableEq Thread] {crates : Crates} {storage : FsStorage} {start t : FS}
  {store : Store} {uploadId : Str} {calls : Thread → UploadCall} {last : Thread → Op Response}
  {events : List (Event Thread Reply)}

/-- An upload that is going on. -/
theorem staging_begins (holds : Holds crates storage start store) {upload : Upload}
    (live : store.staged.lookup uploadId = some upload) :
    ∃ inode, StagingSound storage uploadId inode (crates.multipartMeta.encode upload.record) start := by
  have seen := look_staged holds uploadId
  obtain ⟨uploads, exist, _⟩ := staged_some live
  have record := seen [multipartJsonName]
  simp only [live, Option.bind_some, Upload.view, if_true] at record
  obtain ⟨inode, named, written⟩ := FS.look_file.mp record
  refine ⟨inode, holds.limit, FS.look_dir.mp (look_root holds), ?_, .inl ?_, ?_, .inl named, written,
    start.fresh _ _ named⟩
  · exact FS.look_dir.mp (by simp [look_uploads holds, exist])
  · exact FS.look_dir.mp (by simp [stagingPlace, look_upload holds, live])
  · rintro path ⟨inner, rfl⟩ different directory
    have inside := seen inner.reverse
    rw [List.reverse_reverse] at inside
    rw [show start.look (inner ++ uploadId :: uploadsName :: storage.dataRoot) = some .dir from
      FS.look_dir.mpr directory, live, Option.bind_some] at inside
    -- An upload shows files only, below its directory.
    cases shape : inner.reverse with
    | nil =>
        rw [List.reverse_eq_nil_iff.mp shape] at different
        exact different rfl
    | cons name deeper =>
        rw [shape] at inside
        cases deeper with
        | nil =>
            simp only [Upload.view] at inside
            split_ifs at inside
            · cases inside
            · cases part : upload.parts.lookup name <;> simp [part] at inside
        | cons more deepest => simp [Upload.view] at inside

end Overlapping

/-- What is left to do when the tree walk has found these entries. -/
def removeRest (path : PathBuf) (entries : List (Path × Bool)) : IoOp Unit := do
  removeFound entries
  match ← Sys.rmdir path with
  | .ok () => pure ()
  | .error .ENOENT => pure ()
  | .error e => throw e

/-- Files that were found and are still none but files are removed; the rest is kept. -/
theorem wp_removeFound_files {entries : List (Path × Bool)} {s : FS}
    (files : ∀ entry ∈ entries, entry.2 = false ∧ s.look entry.1 ≠ some .dir) :
    wp faultFree (removeFound entries) (fun outcome after => outcome = .ok () ∧
      after.nameMax = s.nameMax ∧
      ∀ path, (∀ entry ∈ entries, entry.1 ≠ path) → after.look path = s.look path) s := by
  induction entries generalizing s with
  | nil => exact ⟨rfl, rfl, fun _ _ => rfl⟩
  | cons entry rest ih =>
      obtain ⟨path, isDir⟩ := entry
      obtain ⟨file, lasting⟩ := files (path, isDir) List.mem_cons_self
      obtain rfl : isDir = false := file
      have located : s.locate ⟨path, []⟩ = .ok path := rfl
      have others : ∀ other ∈ rest, other.2 = false ∧ s.look other.1 ≠ some .dir :=
        fun other member => files other (List.mem_cons_of_mem _ member)
      unfold removeFound
      simp only [Bool.false_eq_true, if_false, Prog.send_bind, wp_unlink]
      cases there : s.look path with
      | none =>
          rw [FS.unlink_absent located there]
          apply wp_mono (ih others)
          rintro outcome after ⟨done, limit, kept⟩
          exact ⟨done, limit, fun other apart => kept other fun found member =>
            apart found (List.mem_cons_of_mem _ member)⟩
      | some kind =>
          cases kind with
          | dir => exact absurd there lasting
          | file content =>
              rw [FS.unlink_file located there]
              have still : ∀ other ∈ rest, other.2 = false ∧ (s.drop path).look other.1 ≠ some .dir := by
                intro other member
                refine ⟨(others other member).1, ?_⟩
                rw [FS.look_drop]
                by_cases same : other.1 = path
                · rw [same, Function.update_self]
                  exact nofun
                · rw [Function.update_of_ne same]
                  exact (others other member).2
              apply wp_mono (ih still)
              rintro outcome after ⟨done, limit, kept⟩
              refine ⟨done, limit, fun other apart => ?_⟩
              rw [kept other fun found member => apart found (List.mem_cons_of_mem _ member),
                FS.look_drop, Function.update_of_ne (apart (path, false) List.mem_cons_self).symm]

/-- A removal that has not found a file which is there by now stops at the directory. -/
theorem wp_removeRest_full {storage : FsStorage} {uploadId : Str} {inode : Handle} {record : Bytes}
    {entries : List (Path × Bool)} {s : FS} {name : Str}
    (sound : StagingSound storage uploadId inode record s) (uuid : isUuid uploadId = true)
    (there : s.look (stagingPlace storage uploadId) = some .dir)
    (inside : ∀ entry ∈ entries, entry.2 = false ∧ stagingPlace storage uploadId <:+ entry.1 ∧
      entry.1 ≠ stagingPlace storage uploadId)
    (late : s.look (name :: stagingPlace storage uploadId) ≠ none)
    (missed : ∀ entry ∈ entries, entry.1 ≠ name :: stagingPlace storage uploadId) :
    wp faultFree (removeRest (storage.uploadDir uploadId) entries) (fun outcome after =>
      outcome = .error .ENOTEMPTY ∧ after.look (stagingPlace storage uploadId) = some .dir ∧
        after.locate (storage.uploadDir uploadId) = .ok (stagingPlace storage uploadId)) s := by
  have files : ∀ entry ∈ entries, entry.2 = false ∧ s.look entry.1 ≠ some .dir := by
    intro entry member
    obtain ⟨file, below, different⟩ := inside entry member
    exact ⟨file, fun directory => sound.entries entry.1 below different (FS.look_dir.mp directory)⟩
  have above : ∀ path, path <:+ uploadsName :: storage.dataRoot → ∀ entry ∈ entries, entry.1 ≠ path := by
    rintro path upper entry member rfl
    exact above_staging upper (inside entry member).2.1
  unfold removeRest
  rw [wp_bind]
  apply wp_mono (wp_removeFound_files files)
  rintro _ after ⟨rfl, limit, kept⟩
  have root : after.look storage.dataRoot = some .dir := by
    rw [kept _ (above _ (List.suffix_cons _ _)), FS.look_dir.mpr sound.root]
  have uploads : after.look (uploadsName :: storage.dataRoot) = some .dir := by
    rw [kept _ (above _ (List.suffix_refl _)), FS.look_dir.mpr sound.uploads]
  have still : after.look (stagingPlace storage uploadId) = some .dir := by
    rw [kept _ fun entry member => (inside entry member).2.2, there]
  have full : after.look (name :: stagingPlace storage uploadId) ≠ none := by
    rw [kept _ missed]
    exact late
  have limited : after.nameMax = none ∨ after.nameMax = some 255 := limit ▸ sound.limit
  have first : after.locate storage.uploadsRoot = .ok (uploadsName :: storage.dataRoot) :=
    FS.locate_name (locate_root storage after) root (by decide) (fits_limit limited (by decide))
  have located : after.locate (storage.uploadDir uploadId) = .ok (stagingPlace storage uploadId) :=
    FS.locate_name first uploads (uuid_is_name uuid) (fits_limit limited (by simp [uuid_length uuid]))
  have plain := join_lastPart storage.uploadsRoot (uuid_is_name uuid)
  have refused := FS.rmdir_full (FS.locateDir_dir located still) plain (List.cons_ne_nil _ _) ⟨name, full⟩
  simp only [Prog.send_bind, wp_rmdir, refused]
  exact ⟨rfl, still, located⟩

theorem complete_handled (crates : Crates) (storage : FsStorage) (bucket key uploadId : Str)
    (parts : List Int) :
    handle crates storage (.completeMultipartUpload bucket key uploadId parts) =
      installUpload crates storage key uploadId parts >>= fun objMeta =>
        (removeDirAll (storage.uploadDir uploadId)).attempt >>= fun _ => pure (.object objMeta) := by
  simp only [handle, complete_steps, Prog.bind_assoc, Prog.pure_eq, Prog.done_bind]

/-- A part that comes to an upload which is still there. -/
theorem part_arrives {crates : Crates} {storage : FsStorage} {uploadId : Str} {t : FS} {placed : Store}
    {upload : Upload} (holds : Holds crates storage t placed) (unlimited : t.nameMax = none)
    (uuid : isUuid uploadId = true) (live : placed.staged.lookup uploadId = some upload) (bucket : Str) :
    ∃ etag inode record u, Runs faultFree (uploadPart crates storage bucket uploadId 1 []) t (.ok etag) u ∧
      StagingSound storage uploadId inode record u ∧
      u.look (stagingPlace storage uploadId) = some .dir ∧
      u.look (FsStorage.partName 1 :: stagingPlace storage uploadId) ≠ none := by
  obtain ⟨outcome, u, run, rfl, uploaded⟩ := wp_returns (part_refines holds unlimited bucket uuid 1 [])
  rw [Store.part_made crates _ live (by decide) rfl] at run uploaded
  simp only [] at run uploaded
  have alive := Store.live_setUpload placed uploadId
    { upload with parts := upload.parts.insert (FsStorage.partName 1) (delivered []) }
  obtain ⟨inode, sound⟩ := staging_begins uploaded alive
  refine ⟨_, inode, _, u, run, sound, ?_, ?_⟩
  · simp only [stagingPlace, look_upload uploaded, alive, Option.map_some]
  · have present := look_staged uploaded uploadId [FsStorage.partName 1]
    simp only [alive, Option.bind_some, Upload.view, if_neg (part_not_meta 1), Finmap.lookup_insert,
      Option.map_some] at present
    intro absent
    cases absent.symm.trans present

namespace Reference

/-- The upload of `a` has no parts; all of it is in place but its directory, which is still
there with the record in it. -/
theorem upload_installed : ∃ uploadId s store t placed upload objMeta, isUuid uploadId = true ∧
    Holds Crates.reference storage s store ∧ store.staged.lookup uploadId = some upload ∧
    Runs faultFree (installUpload Crates.reference storage "a".toList uploadId []) s (.ok objMeta) t ∧
    Holds Crates.reference storage t placed ∧ t.nameMax = none ∧
    placed.staged.lookup uploadId = some upload ∧ upload.parts = ∅ := by
  obtain ⟨uploadId, _, s, store, info, uuid, _, _, unlimited, holds, _, live, present⟩ := upload_begun
  have installs := wp_limited (install_refines holds "a".toList uuid [] nofun)
  obtain ⟨outcome, t, run, ⟨time, same, installed⟩, limit⟩ := wp_returns installs
  have admitted : encodeKey "a".toList = .ok "a".toList := by decide
  have nonempty : "a".toList ≠ [] := by decide
  have succeeded : ∃ objMeta, (store.completeWithin Crates.reference storage s.nameMax "a".toList uploadId
      [] time).1 = .ok objMeta := by
    simp only [Store.completeWithin, live, admitted, List.insertionSort_nil, Store.assembled, nonempty,
      if_false, present, Option.getD_some, Bucket.fresh, unlimited, exceeds, Bool.false_eq_true]
    exact ⟨_, rfl⟩
  obtain ⟨objMeta, done⟩ := succeeded
  rw [done] at same
  subst same
  obtain ⟨placed, upload, reached, former, still, _⟩ := installed
  obtain rfl := Option.some.inj (live.symm.trans former)
  exact ⟨uploadId, s, store, t, placed, _, objMeta, uuid, holds, live, run, reached,
    limit.trans unlimited, still, rfl⟩

end Reference

/-- A completion and the upload of a part. -/
def completeAndPart : Bool → UploadCall
  | false => .completeMultipartUpload Reference.bucket "a".toList []
  | true => .uploadPart Reference.bucket 1 []

end Ferrobucket
