import Ferrobucket.Files
import Ferrobucket.Lib.Steps
import Ferrobucket.Requests
/-! Where the requests on an upload reach. The id comes from the client and is joined
into a path, so the three requests are confined to one staging directory exactly if the
id is the name of one, or no name at all. -/
namespace Ferrobucket
open Text Posix Program

/-- The requests on an upload. -/
inductive UploadCall where
  | uploadPart (bucket : Str) (partNumber : Int) (body : Body)
  | completeMultipartUpload (bucket key : Str) (parts : List Int)
  | abortMultipartUpload (bucket : Str)

def UploadCall.request (uploadId : Str) : UploadCall → Request
  | .uploadPart bucket partNumber body => .uploadPart bucket uploadId partNumber body
  | .completeMultipartUpload bucket key parts => .completeMultipartUpload bucket key uploadId parts
  | .abortMultipartUpload bucket => .abortMultipartUpload bucket uploadId

/-- The staging directory of the id, taken as one name, and everything below it. -/
def UploadArea (storage : FsStorage) (uploadId : Str) (path : Path) : Prop :=
  (uploadId :: uploadsName :: storage.dataRoot) <:+ path

/-- The record of the upload as a file system has it. -/
def Recorded (crates : Crates) (storage : FsStorage) (s : FS) (uploadId : Str)
    (record : MultipartMeta) : Prop :=
  ∃ bytes, fileContents s ((storage.uploadDir uploadId).join multipartJsonName) = .ok bytes ∧
    crates.multipartMeta.decode bytes = .ok record

namespace UploadCall
variable (crates : Crates) (storage : FsStorage) (uploadId : Str) (s : FS)

/-- What the call is for: the staging directory, and for completing also the object and the
sidecar of its target. -/
def Touches (call : UploadCall) (path : Path) : Prop :=
  UploadArea storage uploadId path ∨
    match call with
    | .completeMultipartUpload _ key _ => ∃ record encoded,
        Recorded crates storage s uploadId record ∧ encodeKey key = .ok encoded ∧
          (s.locate (storage.objectPath record.bucket encoded) = .ok path ∨
            s.locate (storage.metaPath record.bucket encoded) = .ok path)
    | _ => False

/-- The temporary files that the object and the sidecar are renamed from. -/
def Temporary (call : UploadCall) (path : Path) : Prop :=
  match call with
  | .completeMultipartUpload _ _ _ => ∃ record name, Recorded crates storage s uploadId record ∧
      isTempName name = true ∧
        (s.locate ((storage.objectsDir record.bucket).join name) = .ok path ∨
          s.locate ((storage.metaDir record.bucket).join name) = .ok path)
  | _ => False

/-- Wherever the call is cut it has changed nothing but what it is for and its temporary
files, and at its end nothing but what it is for. -/
structure Confined (call : UploadCall) : Prop where
  along : ∀ count after,
    Cut faultFree count (handle crates storage (call.request uploadId)) s after →
    ∀ path, ¬ call.Touches crates storage uploadId s path →
      ¬ call.Temporary crates storage uploadId s path → after.look path = s.look path
  ended : ∀ outcome after,
    Runs faultFree (handle crates storage (call.request uploadId)) s outcome after →
    ∀ path, ¬ call.Touches crates storage uploadId s path → after.look path = s.look path

/-- Completing needs no directory that is not there. -/
def Ready (call : UploadCall) : Prop :=
  match call with
  | .completeMultipartUpload _ _ _ => ∀ record, Recorded crates storage s uploadId record →
      ∃ dir, s.locate (storage.objectsDir record.bucket) = .ok dir ∧ s.look dir = some .dir
  | _ => True

end UploadCall

/-! ### What a write does on its way -/

/-- Only files have changed, and only where it is allowed. -/
structure Settled (allowed : Path → Prop) (base after : FS) : Prop where
  kept : ∀ path, ¬ allowed path → after.look path = base.look path
  dirs : ∀ path, after.look path = some .dir → base.look path = some .dir
  limit : after.nameMax = base.nameMax

section Settling
variable {allowed : Path → Prop} {base s after : FS}

theorem settled_refl : Settled allowed base base := ⟨fun _ _ => rfl, fun _ inside => inside, rfl⟩

theorem settled_locate (settled : Settled allowed base s) {path : PathBuf} {found : Path}
    (located : s.locate path = .ok found) : base.locate path = .ok found :=
  FS.locate_kept settled.dirs settled.limit.symm located

theorem settled_same (settled : Settled allowed base s) (becomes : Becomes s s.look after) :
    Settled allowed base after := by
  refine ⟨?_, ?_, becomes.limit.trans settled.limit⟩
  · intro path outside
    rw [becomes.look]
    exact settled.kept path outside
  · intro path inside
    rw [becomes.look] at inside
    exact settled.dirs path inside

theorem settled_stored (settled : Settled allowed base s) {found : Path} {content : Bytes}
    (inside : allowed found)
    (becomes : Becomes s (Function.update s.look found (some (.file content))) after) :
    Settled allowed base after := by
  refine ⟨?_, ?_, becomes.limit.trans settled.limit⟩
  · intro path outside
    have other : path ≠ found := fun same => outside (same ▸ inside)
    rw [becomes.look, Function.update_of_ne other]
    exact settled.kept path outside
  · intro path directory
    rw [becomes.look] at directory
    by_cases same : path = found
    · subst same
      rw [Function.update_self] at directory
      cases directory
    · rw [Function.update_of_ne same] at directory
      exact settled.dirs path directory

end Settling

/-- Where a request on an upload is. -/
inductive Phase where
  | unmoved
  | settled
  | writing (temp : Temp)
  | removing

/-- What has changed since `base` in each phase. While a temporary file is written, the rest
of the tree is that of some settled state. -/
def Progress (allowed temporary : Path → Prop) (base : FS) (_ : Unit) : Phase → FS → Prop
  | .unmoved, s => s = base
  | .settled, s => Settled allowed base s
  | .writing temp, s => ∃ before content, Settled allowed base before ∧
      Staged before temp.place content s ∧ before.locate temp.name = .ok temp.place ∧
      s.node temp.place = some (.file temp.inode) ∧ (allowed temp.place ∨ temporary temp.place)
  | .removing, s => ∀ path, ¬ allowed path → s.look path = base.look path

/-- Between writes. -/
def Phase.Calm : Phase → Prop
  | .unmoved | .settled => True
  | _ => False

/-- Not in the middle of a write. -/
def Phase.Rests : Phase → Prop
  | .writing _ => False
  | _ => True

theorem calm_settled {allowed temporary : Path → Prop} {base s : FS} {phase : Phase} (calm : phase.Calm)
    (progress : Progress allowed temporary base () phase s) : Settled allowed base s := by
  cases phase with
  | unmoved =>
      obtain rfl := progress
      exact settled_refl
  | settled => exact progress
  | _ => exact absurd calm not_false

theorem unmoved_calm : Phase.Calm .unmoved := trivial

theorem calm_rests {phase : Phase} (calm : phase.Calm) : phase.Rests := by
  cases phase with
  | writing temp => exact calm
  | _ => exact trivial

section Writing
variable {allowed temporary : Path → Prop} {base s : FS} {temp : Temp}

theorem writing_located (writing : Progress allowed temporary base () (.writing temp) s) :
    s.locate temp.name = .ok temp.place := by
  obtain ⟨before, content, _, staged, located, _⟩ := writing
  exact staged_locate staged located

theorem writing_write (writing : Progress allowed temporary base () (.writing temp) s) (chunk : Bytes) :
    Progress allowed temporary base () (.writing temp) (s.write temp.inode chunk) := by
  obtain ⟨before, content, settled, staged, located, named, place⟩ := writing
  refine ⟨before, s.data temp.inode ++ chunk, settled, ⟨staged.absent, ?_, ?_, ?_⟩, located, ?_, place⟩
  · rw [FS.write, FS.look_setData _ named, staged.becomes.look, Function.update_idem]
  · exact staged.becomes.limit
  · exact staged.becomes.issued
  · rw [FS.write, FS.node_setData]
    exact named

theorem writing_drop (writing : Progress allowed temporary base () (.writing temp) s) :
    Progress allowed temporary base () .settled (s.drop temp.place) := by
  obtain ⟨before, content, settled, staged, _⟩ := writing
  exact settled_same settled (staged_drop staged)

/-- The rename: it succeeds, or nothing happens. -/
theorem writing_rename (writing : Progress allowed temporary base () (.writing temp) s)
    {target : PathBuf} (lands : ∀ found, base.locate target = .ok found → allowed found) :
    (∃ e, s.rename temp.name target = (.error e, s)) ∨
    (∃ after, s.rename temp.name target = (.ok (), after) ∧
      Progress allowed temporary base () .settled after) := by
  have tmp := writing_located writing
  obtain ⟨before, content, settled, staged, _⟩ := writing
  have file := staged_file staged
  cases arrival : s.locate target with
  | error e => exact .inl ⟨e, FS.rename_lost tmp arrival⟩
  | ok found =>
      by_cases directory : s.look found = some .dir
      · exact .inl ⟨.EISDIR, FS.rename_onto_dir tmp arrival file directory⟩
      · -- The directories are those of the state before the temporary file.
        have dirs : ∀ path, s.look path = some .dir → before.look path = some .dir := by
          intro path inside
          rw [staged.becomes.look] at inside
          by_cases same : path = temp.place
          · subst same
            rw [Function.update_self] at inside
            cases inside
          · rwa [Function.update_of_ne same] at inside
        have landing : before.locate target = .ok found :=
          FS.locate_kept dirs staged.becomes.limit.symm arrival
        have inside := lands found (settled_locate settled landing)
        exact .inr ⟨s.move temp.place found, FS.rename_file tmp arrival file directory,
          settled_stored settled inside (staged_move staged found)⟩

end Writing
/-! ### The helpers of fs.rs, followed step by step -/

section Following
variable {allowed temporary : Path → Prop} {base : FS} {Value : Type}

/-- Following a program from one phase. -/
abbrev Follows (allowed temporary : Path → Prop) (base : FS) {Error : Type}
    (program : Prog Call Reply Error Value) (post : Phase → Except Error Value → Prop)
    (phase : Phase) : Prop :=
  tracks faultFree stays (Progress allowed temporary base) program post phase

theorem follows_installFile {dir target : PathBuf} {fill : Handle → Op Value} {phase : Phase}
    (calm : phase.Calm)
    (temps : ∀ name found, isTempName name = true → base.locate (dir.join name) = .ok found →
      allowed found ∨ temporary found)
    (lands : ∀ found, base.locate target = .ok found → allowed found)
    (fills : ∀ temp, Follows allowed temporary base (fill temp.inode)
      (fun after _ => after = .writing temp) (.writing temp)) :
    Follows allowed temporary base (installFile dir fill target)
      (fun after _ => after.Calm) phase := by
  rw [install_steps]
  rintro ⟨⟩ s reply after holds step
  have settled := calm_settled calm holds
  rcases temp_made step with ⟨e, _, rfl, rfl, _⟩ | ⟨name, place, isTemp, located, absent, rfl, rfl⟩
  · exact ⟨phase, holds, calm⟩
  · refine ⟨.writing ⟨dir.join name, place, s.nextInode⟩, ⟨s, [], settled, staged_newFile absent,
      located, by simp, temps name place isTemp (settled_locate settled located)⟩, ?_⟩
    -- The temporary file is unlinked or renamed; either way it is gone.
    have dropped : ∀ (error : StorageError), Follows allowed temporary base
        (.call (.unlink (dir.join name)) fun _ => .fail error : Op Value)
        (fun after _ => after.Calm)
        (.writing ⟨dir.join name, place, s.nextInode⟩) := by
      intro error
      apply tracks_exec
      rintro ⟨⟩ state writing
      have tmp := writing_located writing
      obtain ⟨_, _, _, staged, _⟩ := id writing
      refine ⟨.ok (), state.drop place, fun _ => ?_, .settled, writing_drop writing, trivial⟩
      exact congrArg some (FS.unlink_file tmp (staged_file staged))
    have filled := fills ⟨dir.join name, place, s.nextInode⟩
    simp only []
    rw [tracks_bind, tracks_attempt]
    apply tracks_mono filled
    rintro _ outcome rfl
    cases outcome with
    | error error => exact dropped error
    | ok value =>
        apply tracks_exec
        rintro ⟨⟩ state writing
        rcases writing_rename writing lands with ⟨e, refused⟩ | ⟨after, renamed, still⟩
        · exact ⟨.error e, state, fun _ => congrArg some refused, _, writing, dropped _⟩
        · exact ⟨.ok (), after, fun _ => congrArg some renamed, .settled, still, trivial⟩

theorem follows_stream (temp : Temp) (body : Body) (hasher : EtagHasher) (bytesWritten : Nat) :
    Follows allowed temporary base (streamToFile temp.inode body hasher bytesWritten)
      (fun after _ => after = .writing temp) (.writing temp) := by
  induction body generalizing hasher bytesWritten with
  | nil => exact tracks_quiet rfl fun reply => by cases reply <;> rfl
  | cons piece rest ih =>
      cases piece with
      | error e => rfl
      | ok chunk =>
          apply tracks_exec
          rintro ⟨⟩ s writing
          exact ⟨.ok (), _, fun _ => rfl, _, writing_write writing chunk, ih _ _⟩

theorem follows_assemble (uploadDir : PathBuf) (temp : Temp) (parts : List Int) (hasher : EtagHasher)
    (bytesWritten : Nat) :
    Follows allowed temporary base (assembleParts uploadDir temp.inode parts hasher bytesWritten)
      (fun after _ => after = .writing temp) (.writing temp) := by
  induction parts generalizing hasher bytesWritten with
  | nil => exact tracks_quiet rfl fun reply => by cases reply <;> rfl
  | cons number rest ih =>
      refine tracks_quiet rfl fun opened => ?_
      cases opened with
      | error e => rfl
      | ok part =>
          refine tracks_quiet rfl fun bytes => ?_
          cases bytes with
          | error e => rfl
          | ok chunk =>
              apply tracks_exec
              rintro ⟨⟩ s writing
              exact ⟨.ok (), _, fun _ => rfl, _, writing_write writing chunk, ih _ _⟩

theorem follows_writeJson {Record : Type} {codec : Codec Record} {dir : PathBuf} {name : Str}
    {record : Record} {phase : Phase} (slash : '/' ∉ name)
    (calm : phase.Calm)
    (temps : ∀ name found, isTempName name = true → base.locate (dir.join name) = .ok found →
      allowed found ∨ temporary found)
    (lands : ∀ found, base.locate (dir.join name) = .ok found → allowed found) :
    Follows allowed temporary base (writeJson codec (dir.join name) record)
      (fun after _ => after.Calm) phase := by
  unfold writeJson
  rw [parent_join dir slash]
  apply follows_installFile calm temps lands
  intro temp
  apply tracks_exec
  rintro ⟨⟩ s writing
  refine ⟨.ok (), _, fun _ => rfl, _, writing_write writing _, ?_⟩
  exact tracks_quiet rfl fun reply => by cases reply <;> rfl

/-- An entry that is gone already does not end a removal. -/
theorem follows_gone {rest : IoOp Unit}
    (later : Follows allowed temporary base rest (fun after _ => after = .removing) .removing)
    (reply : Except Errno Unit) :
    Follows allowed temporary base
      (match reply with
        | .ok () => rest
        | .error .ENOENT => rest
        | .error e => throw e) (fun after _ => after = .removing) .removing := by
  cases reply with
  | ok _ => exact later
  | error e => cases e <;> first | exact later | rfl

/-- Removing what a tree walk found. -/
theorem follows_removeFound {entries : List (Path × Bool)}
    (inside : ∀ entry ∈ entries, allowed entry.1) :
    Follows allowed temporary base (removeFound entries) (fun after _ => after = .removing)
      .removing := by
  induction entries with
  | nil => rfl
  | cons entry rest ih =>
      obtain ⟨path, isDir⟩ := entry
      have here := inside (path, isDir) List.mem_cons_self
      have later := ih fun other member => inside other (List.mem_cons_of_mem _ member)
      have removed : ∀ (s : FS), Progress allowed temporary base () .removing s →
          Progress allowed temporary base () .removing (s.drop path) := by
        intro s removing other outside
        have different : other ≠ path := fun same => outside (same ▸ here)
        rw [FS.look_drop, Function.update_of_ne different]
        exact removing other outside
      cases isDir with
      | true =>
          apply tracks_exec
          rintro ⟨⟩ s removing
          refine ⟨(s.rmdir ⟨path, []⟩).1, (s.rmdir ⟨path, []⟩).2, fun _ => rfl, .removing, ?_,
            follows_gone later _⟩
          rcases rmdir_changes s ⟨path, []⟩ with same | ⟨found, located, dropped⟩
          · rwa [same]
          · cases located
            rw [dropped]
            exact removed s removing
      | false =>
          apply tracks_exec
          rintro ⟨⟩ s removing
          refine ⟨(s.unlink ⟨path, []⟩).1, (s.unlink ⟨path, []⟩).2, fun _ => rfl, .removing, ?_,
            follows_gone later _⟩
          rcases unlink_changes s ⟨path, []⟩ with same | ⟨found, located, dropped⟩
          · rwa [same]
          · cases located
            rw [dropped]
            exact removed s removing

/-- Removing a directory that the path can only lead to. -/
theorem follows_removeDirAll {path : PathBuf} {dir : Path} {phase : Phase} (calm : phase.Calm)
    (leads : ∀ (s : FS) found, s.locate path = .ok found → found = dir)
    (inside : ∀ other, dir <:+ other → allowed other) :
    Follows allowed temporary base (removeDirAll path)
      (fun after _ => after.Rests) phase := by
  unfold removeDirAll
  simp only [Prog.send_bind]
  rintro ⟨⟩ s reply after holds step
  obtain ⟨rfl, read⟩ := tree_read step
  rcases read with ⟨e, rfl⟩ | ⟨found, entries, located, rfl, below⟩
  · exact ⟨phase, holds, calm_rests calm⟩
  · obtain rfl := leads _ found located
    refine ⟨.removing, (calm_settled calm holds).kept, ?_⟩
    simp only [Prog.ofExcept, Prog.done_bind]
    rw [tracks_bind]
    apply tracks_mono (follows_removeFound fun entry member => inside _ (below entry member))
    rintro _ outcome rfl
    cases outcome with
    | error e => exact trivial
    | ok _ =>
        apply tracks_exec
        rintro ⟨⟩ s removing
        refine ⟨(s.rmdir path).1, (s.rmdir path).2, fun _ => rfl, .removing, ?_, ?_⟩
        · rcases rmdir_changes s path with same | ⟨place, arrived, dropped⟩
          · rwa [same]
          · obtain rfl := leads s place arrived
            rw [dropped]
            intro other outside
            have different : other ≠ place := fun same =>
              outside (inside other (same ▸ List.suffix_refl _))
            rw [FS.look_drop, Function.update_of_ne different]
            exact removing other outside
        · cases (s.rmdir path).1 with
          | ok _ => exact trivial
          | error e => cases e <;> exact trivial

theorem progress_kept {phase : Phase} {s : FS} (progress : Progress allowed temporary base () phase s)
    {path : Path} (outside : ¬ allowed path) (ordinary : ¬ temporary path) :
    s.look path = base.look path := by
  cases phase with
  | unmoved =>
      obtain rfl := progress
      rfl
  | settled => exact progress.kept path outside
  | writing temp =>
      obtain ⟨before, content, settled, staged, _, _, place⟩ := progress
      have different : path ≠ temp.place := by
        rintro rfl
        exact place.elim outside ordinary
      rw [staged.becomes.look, Function.update_of_ne different]
      exact settled.kept path outside
  | removing => exact progress path outside

theorem rests_kept {phase : Phase} {s : FS} (progress : Progress allowed temporary base () phase s)
    (rests : phase.Rests) {path : Path} (outside : ¬ allowed path) : s.look path = base.look path := by
  cases phase with
  | unmoved =>
      obtain rfl := progress
      rfl
  | settled => exact progress.kept path outside
  | writing temp => exact absurd rests not_false
  | removing => exact progress path outside

end Following

/-- A call that can be followed to a phase in which it rests is confined. -/
theorem confined_of_follows {crates : Crates} {storage : FsStorage} {uploadId : Str} {s : FS}
    {call : UploadCall}
    (follows : Follows (call.Touches crates storage uploadId s)
      (call.Temporary crates storage uploadId s) s
      (handle crates storage (call.request uploadId)) (fun phase _ => phase.Rests) .unmoved) :
    call.Confined crates storage uploadId s := by
  constructor
  · intro count after cut path outside ordinary
    obtain ⟨phase, progress⟩ := tracks_cut follows rfl cut
    exact progress_kept progress outside ordinary
  · intro outcome after run path outside
    obtain ⟨phase, progress, rests⟩ := tracks_runs follows rfl run
    exact rests_kept progress rests outside

/-! ### The three requests -/

/-- Whatever the state, the id leads to the staging directory of its name, or nowhere. -/
structure Leads (storage : FsStorage) (uploadId : Str) : Prop where
  dir : ∀ (s : FS) found, s.locate (storage.uploadDir uploadId) = .ok found →
    found = uploadId :: uploadsName :: storage.dataRoot
  entry : ∀ (s : FS) name found, isName name = true →
    s.locate ((storage.uploadDir uploadId).join name) = .ok found →
    found = name :: uploadId :: uploadsName :: storage.dataRoot

theorem upload_leads (storage : FsStorage) {uploadId : Str}
    (plain : '\u0000' ∈ uploadId ∨ isName uploadId = true) : Leads storage uploadId := by
  have uploads : isName uploadsName = true := by decide
  rcases plain with nul | named
  · -- A path with a NUL byte leads nowhere.
    obtain ⟨part, piece, inside⟩ := splitOn_covers nul (by decide : '\u0000' ≠ '/')
    have member : part ∈ (storage.uploadDir uploadId).rel := by
      unfold FsStorage.uploadDir PathBuf.join
      split
      · exact piece
      · exact List.mem_append_right _ piece
    constructor
    · intro s found located
      rw [FS.locate_nul s member inside] at located
      cases located
    · intro s name found good located
      obtain ⟨_, _, _, slash, _⟩ := name_parts good
      rw [join_name _ slash] at located
      rw [FS.locate_nul s (List.mem_append_left _ member) inside] at located
      cases located
  · obtain ⟨_, _, _, slash, _⟩ := name_parts named
    obtain ⟨_, _, _, uploadsSlash, _⟩ := name_parts uploads
    have shape : storage.uploadDir uploadId = ⟨storage.dataRoot, [uploadsName, uploadId]⟩ := by
      unfold FsStorage.uploadDir FsStorage.uploadsRoot FsStorage.rootPath
      rw [join_name _ uploadsSlash, join_name _ slash]
      rfl
    constructor
    · intro s found located
      rw [shape] at located
      have names : ∀ part ∈ [uploadsName, uploadId], isName part = true := by simp [uploads, named]
      exact FS.locate_names names located
    · intro s name found good located
      obtain ⟨_, _, _, nameSlash, _⟩ := name_parts good
      rw [shape, join_name _ nameSlash] at located
      have names : ∀ part ∈ [uploadsName, uploadId] ++ [name], isName part = true := by
        simp [uploads, named, good]
      exact FS.locate_names names located

/-- A failure of the library is reported as an input or output error. -/
theorem tracks_ioOp {World Ghost Value : Type} {sem : Semantics Call Reply FS}
    {advance : World → (call : Call) → Reply call → World} {inv : World → Ghost → FS → Prop}
    {call : IoOp Value} {post : Ghost → Except StorageError Value → Prop} {ghost : Ghost} :
    tracks sem advance inv (ioOp call) post ghost ↔
      tracks sem advance inv call
        (fun ghost outcome => post ghost (outcome.mapError fun e => .Io (.os e))) ghost := by
  unfold ioOp
  rw [tracks_bind, tracks_attempt]
  constructor
  · intro tracked
    refine tracks_mono tracked ?_
    intro ghost outcome holds
    cases outcome <;> exact holds
  · intro tracked
    refine tracks_mono tracked ?_
    intro ghost outcome holds
    cases outcome <;> exact holds

section Requests
variable {crates : Crates} {storage : FsStorage} {uploadId : Str} {s : FS}
variable {allowed temporary : Path → Prop} {base : FS}

theorem follows_readJson {Record : Type} (codec : Codec Record) (missing : Str → StorageError)
    (path : PathBuf) :
    Follows allowed temporary base (readJson codec missing path) (fun phase outcome =>
      phase = .unmoved ∧ outcome = readOutcome codec (missing path.display) (fileContents base path))
      .unmoved := by
  unfold readJson readFile Follows
  rw [tracks_bind, tracks_attempt]
  simp only [Prog.send_bind]
  apply tracks_exec
  rintro ⟨⟩ state rfl
  refine ⟨_, _, fun _ => rfl, .unmoved, rfl, ?_⟩
  unfold fileContents
  cases state.open path with
  | error e => cases e <;> exact ⟨rfl, rfl⟩
  | ok handle =>
      apply tracks_exec
      rintro ⟨⟩ later rfl
      refine ⟨_, _, fun _ => rfl, .unmoved, rfl, ?_⟩
      simp only [Prog.ofExcept, tracks, Except.map, readOutcome]
      cases codec.decode (later.data handle) <;> exact ⟨rfl, rfl⟩

theorem follows_present {path : PathBuf} {found : Path} (located : base.locate path = .ok found)
    (inside : base.look found = some .dir) :
    Follows allowed temporary base (createDirAll path) (fun phase outcome =>
      phase = .unmoved ∧ outcome = .ok ()) .unmoved := by
  have present : base.look found ≠ none := by simp [inside]
  unfold createDirAll
  rw [createDirUpTo.eq_def]
  simp only [Prog.send_bind]
  apply tracks_exec
  rintro ⟨⟩ state rfl
  refine ⟨.error .EEXIST, state, fun _ => congrArg some (FS.mkdir_present located present), .unmoved,
    rfl, ?_⟩
  apply tracks_exec
  rintro ⟨⟩ later rfl
  have directory : later.isDir path = true := FS.isDir_located located inside
  exact ⟨true, later, fun _ => congrArg (fun found => some (found, later)) directory, .unmoved, rfl,
    rfl, rfl⟩

/-- The answer is only wrapped. -/
theorem follows_shown {Value : Type} {call : Op Value} (shown : Value → Response) {phase : Phase}
    (follows : Follows allowed temporary base call (fun phase _ => phase.Rests) phase) :
    Follows allowed temporary base (call >>= fun value => pure (shown value))
      (fun phase _ => phase.Rests) phase := by
  refine tracks_bind.mpr (tracks_mono follows ?_)
  intro phase outcome rests
  cases outcome <;> exact rests

theorem confined_uploadPart (leads : Leads storage uploadId) (bucket : Str) (partNumber : Int)
    (body : Body) :
    (UploadCall.uploadPart bucket partNumber body).Confined crates storage uploadId s := by
  apply confined_of_follows
  apply follows_shown
  unfold uploadPart
  by_cases small : partNumber ≤ 0
  · simp only [small, if_true]
    exact trivial
  · simp only [small, if_false, Prog.send_bind]
    refine tracks_quiet rfl fun there => ?_
    cases there with
    | false => exact trivial
    | true =>
        simp only [Bool.not_true, Bool.false_eq_true, if_false]
        rw [tracks_bind]
        have inside : ∀ {name found}, found = name :: uploadId :: uploadsName :: storage.dataRoot →
            UploadArea storage uploadId found := by
          rintro name found rfl
          exact List.suffix_cons _ _
        apply tracks_mono (follows_installFile unmoved_calm ?_ ?_ ?_)
        · rintro phase outcome calm
          cases outcome <;> exact calm_rests calm
        · intro name found temp located
          exact .inl (.inl (inside (leads.entry s name found (temp_is_name temp) located)))
        · intro found located
          exact .inl (inside (leads.entry s _ found (part_is_name partNumber) located))
        · intro temp
          exact follows_stream temp body .new 0

theorem confined_abort (leads : Leads storage uploadId) (bucket : Str) :
    (UploadCall.abortMultipartUpload bucket).Confined crates storage uploadId s := by
  apply confined_of_follows
  apply follows_shown
  unfold abortMultipartUpload
  refine tracks_bind.mpr (tracks_attempt.mpr ?_)
  apply tracks_mono (follows_removeDirAll unmoved_calm (fun state found located =>
    leads.dir state found located) fun other below => .inl below)
  rintro phase outcome rests
  cases outcome with
  | ok _ => exact rests
  | error e => cases e <;> exact rests

theorem confined_complete (leads : Leads storage uploadId) (bucket key : Str) (parts : List Int)
    (ready : (UploadCall.completeMultipartUpload bucket key parts).Ready crates storage uploadId s) :
    (UploadCall.completeMultipartUpload bucket key parts).Confined crates storage uploadId s := by
  apply confined_of_follows
  apply follows_shown
  unfold completeMultipartUpload readMultipartMeta
  refine tracks_bind.mpr (tracks_mono (follows_readJson _ _ _) ?_)
  rintro _ outcome ⟨rfl, read⟩
  cases outcome with
  | error e => exact trivial
  | ok record =>
  have recorded : Recorded crates storage s uploadId record := by
    unfold Recorded
    cases bytes : fileContents s ((storage.uploadDir uploadId).join multipartJsonName) with
    | error e =>
        rw [bytes] at read
        cases e <;> cases read
    | ok content =>
        rw [bytes] at read
        refine ⟨content, rfl, ?_⟩
        cases decoded : crates.multipartMeta.decode content with
        | error text => simp [readOutcome, decoded, Except.mapError] at read
        | ok found => simpa [readOutcome, decoded, Except.mapError, eq_comm] using read
  obtain ⟨dir, located, inside⟩ := ready record recorded
  refine tracks_bind.mpr (tracks_ioOp.mpr (tracks_mono (follows_present located inside) ?_))
  rintro _ _ ⟨rfl, rfl⟩
  simp only [Except.mapError]
  cases admitted : encodeKey key with
  | error e => exact trivial
  | ok encoded =>
  simp only [lift, Prog.ofExcept, Prog.done_bind]
  refine tracks_bind.mpr (tracks_mono (follows_installFile unmoved_calm ?_ ?_ ?_) ?_)
  · intro name found temp arrived
    exact .inr ⟨record, name, recorded, temp, .inl arrived⟩
  · intro found arrived
    exact .inr ⟨record, encoded, recorded, admitted, .inl arrived⟩
  · intro temp
    exact follows_assemble _ temp _ .new 0
  intro phase outcome calm
  cases outcome with
  | error e => exact calm_rests calm
  | ok assembled =>
  simp only [Prog.send_bind]
  refine tracks_quiet rfl fun time => ?_
  obtain ⟨_, _, _, slash, _⟩ := name_parts (encoded_sidecar_is_name admitted)
  refine tracks_bind.mpr (tracks_mono (follows_writeJson slash calm ?_ ?_) ?_)
  · intro name found temp arrived
    exact .inr ⟨record, name, recorded, temp, .inr arrived⟩
  · intro found arrived
    exact .inr ⟨record, encoded, recorded, admitted, .inr arrived⟩
  intro later outcome still
  cases outcome with
  | error e => exact calm_rests still
  | ok _ =>
  refine tracks_bind.mpr (tracks_attempt.mpr (tracks_mono (follows_removeDirAll still
    (fun state found arrived => leads.dir state found arrived) fun other below => .inl below) ?_))
  intro last outcome rests
  exact rests

end Requests
/-! ### Where any other id leads -/

/-- Where the parts lead if every directory on the way is there. -/
def resolve : Path → List Str → Path
  | here, [] => here
  | here, part :: rest =>
      if part = [] ∨ part = ['.'] then resolve here rest
      else if part = ['.', '.'] then resolve here.tail rest
      else resolve (part :: here) rest

/-- The directories on the way. -/
def trail : Path → List Str → List Path
  | here, [] => [here]
  | here, part :: rest =>
      here :: (if part = [] ∨ part = ['.'] then trail here rest
        else if part = ['.', '.'] then trail here.tail rest
        else trail (part :: here) rest)

theorem walk_trail {s : FS} (unlimited : s.nameMax = none) {here : Path} {parts : List Str}
    (there : ∀ path ∈ trail here parts, s.look path = some .dir) :
    s.walk here parts = .ok (resolve here parts) ∧ s.look (resolve here parts) = some .dir := by
  induction parts generalizing here with
  | nil => exact ⟨rfl, there here List.mem_cons_self⟩
  | cons part rest ih =>
      have inside := FS.look_dir.mp (there here List.mem_cons_self)
      have later := fun path member => there path (List.mem_cons_of_mem _ member)
      have short : s.tooLong part = false := by simp [FS.tooLong, unlimited, exceeds]
      simp only [FS.walk, resolve, inside, short, Bool.false_eq_true, if_false]
      split_ifs at later ⊢
      · exact ih later
      · exact ih later
      · exact ih later

/-- What is pushed on the way is an ordinary part; the rest is the start of the way. -/
theorem resolve_parts (here : Path) (parts : List Str) :
    ∃ pushed kept, resolve here parts = pushed ++ kept ∧ kept <:+ here ∧
      ∀ part ∈ pushed, part ∈ parts ∧ part ≠ [] ∧ part ≠ ['.'] ∧ part ≠ ['.', '.'] := by
  induction parts generalizing here with
  | nil => exact ⟨[], here, rfl, List.suffix_refl _, fun _ member => nomatch member⟩
  | cons part rest ih =>
      have among : ∀ {pushed : List Str}, (∀ other ∈ pushed, other ∈ rest ∧ other ≠ [] ∧
          other ≠ ['.'] ∧ other ≠ ['.', '.']) → ∀ other ∈ pushed, other ∈ part :: rest ∧ other ≠ [] ∧
          other ≠ ['.'] ∧ other ≠ ['.', '.'] :=
        fun all other member => ⟨List.mem_cons_of_mem _ (all other member).1, (all other member).2⟩
      unfold resolve
      split_ifs with stay up
      · obtain ⟨pushed, kept, whole, below, ordinary⟩ := ih here
        exact ⟨pushed, kept, whole, below, among ordinary⟩
      · obtain ⟨pushed, kept, whole, below, ordinary⟩ := ih here.tail
        exact ⟨pushed, kept, whole, below.trans (List.tail_suffix here), among ordinary⟩
      · obtain ⟨pushed, kept, whole, below, ordinary⟩ := ih (part :: here)
        rcases List.suffix_cons_iff.mp below with same | inside
        · refine ⟨pushed ++ [part], here, by simp [whole, same], List.suffix_refl _, ?_⟩
          intro other member
          rcases List.mem_append.mp member with first | last
          · exact among ordinary other first
          · obtain rfl := List.mem_singleton.mp last
            exact ⟨List.mem_cons_self, fun none => stay (.inl none), fun dot => stay (.inr dot), up⟩
        · exact ⟨pushed, kept, whole, inside, among ordinary⟩

/-- The parts of the path are `.uploads` and the parts of the id. -/
theorem upload_parts (storage : FsStorage) (uploadId : Str) :
    (storage.uploadDir uploadId).base <:+ storage.dataRoot ∧
      ∀ part ∈ (storage.uploadDir uploadId).rel,
        part = uploadsName ∨ part ∈ uploadId.splitOn '/' := by
  unfold FsStorage.uploadDir PathBuf.join
  split
  · exact ⟨List.nil_suffix, fun part member => .inr member⟩
  · refine ⟨List.suffix_refl _, fun part member => ?_⟩
    rcases List.mem_append.mp member with first | own
    · left
      have uploads : storage.uploadsRoot.rel = [uploadsName] := by
        obtain ⟨_, _, _, slash, _⟩ := name_parts (by decide : isName uploadsName = true)
        unfold FsStorage.uploadsRoot
        rw [join_name _ slash]
        rfl
      rwa [uploads, List.mem_singleton] at first
    · exact .inr own

/-- A name that is none never leads into its own staging directory. -/
theorem resolve_outside (storage : FsStorage) {uploadId : Str} (clean : '\u0000' ∉ uploadId)
    (unnamed : isName uploadId = false) :
    ¬ UploadArea storage uploadId
      (['x'] :: resolve (storage.uploadDir uploadId).base (storage.uploadDir uploadId).rel) := by
  intro area
  have shape := upload_parts storage uploadId
  obtain ⟨pushed, kept, whole, below, ordinary⟩ :=
    resolve_parts (storage.uploadDir uploadId).base (storage.uploadDir uploadId).rel
  have shorter := (below.trans shape.1).length_le
  obtain ⟨front, split⟩ := area
  rw [whole] at split
  have tail : kept <:+ uploadId :: uploadsName :: storage.dataRoot := by
    have inner : kept <:+ ['x'] :: (pushed ++ kept) := ⟨['x'] :: pushed, rfl⟩
    have outer : uploadId :: uploadsName :: storage.dataRoot <:+ ['x'] :: (pushed ++ kept) :=
      ⟨front, split⟩
    apply List.suffix_of_suffix_length_le inner outer
    simp only [List.length_cons]
    omega
  obtain ⟨middle, joined⟩ := tail
  have own : uploadId ∈ ['x'] :: pushed := by
    have cancelled : front ++ middle = ['x'] :: pushed := by
      have whole : front ++ middle ++ kept = ['x'] :: pushed ++ kept := by
        rw [List.append_assoc, joined, split]
        rfl
      exact List.append_cancel_right whole
    cases middle with
    | nil =>
        have lengths := congrArg List.length joined
        simp only [List.nil_append, List.length_cons] at lengths
        omega
    | cons first rest =>
        obtain rfl := (List.cons.inj joined).1
        rw [← cancelled]
        exact List.mem_append_right _ List.mem_cons_self
  have named : isName uploadId = true := by
    rcases List.mem_cons.mp own with rfl | member
    · decide
    · obtain ⟨part, nonempty, dot, dots⟩ := ordinary uploadId member
      rcases shape.2 uploadId part with rfl | piece
      · decide
      · have slash : '/' ∉ uploadId := fun inside => (mem_splitOn piece inside).2 rfl
        simp [isName, nonempty, dot, dots, slash, clean]
  rw [named] at unnamed
  cases unnamed

/-- The disk with these directories and all that contain them. -/
def Reference.grown (paths : List Path) : FS :=
  (paths.flatMap List.tails).foldr (fun path s => s.mkdirAt path) (Reference.blank none)

theorem look_grown (paths : List Path) (path : Path) :
    (Reference.grown paths).look path = if ∃ other ∈ paths, path <:+ other then some .dir else none := by
  have general : ∀ all : List Path, (all.foldr (fun path s => s.mkdirAt path) (Reference.blank none)).look
      path = if path ∈ all then some .dir else none := by
    intro all
    induction all with
    | nil => simp [FS.look, FS.node, Reference.blank]
    | cons first rest ih =>
        rw [List.foldr_cons, FS.look_mkdirAt]
        by_cases same : path = first
        · subst same
          simp
        · rw [Function.update_of_ne same, ih]
          simp [same]
  unfold Reference.grown
  rw [general]
  simp [List.mem_flatMap]

theorem grown_unlimited (paths : List Path) : (Reference.grown paths).nameMax = none := by
  unfold Reference.grown
  induction paths.flatMap List.tails with
  | nil => rfl
  | cons first rest ih => exact ih

/-- Aborting empties the directory that the path leads to, whichever it is. -/
theorem wp_abort_empties (crates : Crates) {storage : FsStorage} {uploadId : Str} {s : FS} {dir : Path}
    (bucket : Str) (located : s.locate (storage.uploadDir uploadId) = .ok dir)
    (inside : s.look dir = some .dir) :
    wp faultFree (handle crates storage (.abortMultipartUpload bucket uploadId))
      (fun _ after => ∀ name, after.look (name :: dir) = none) s := by
  unfold handle abortMultipartUpload
  simp only []
  rw [wp_bind, wp_bind, wp_attempt]
  apply wp_removeBelow located inside
  intro emptied becomes
  have gone : ∀ name, (emptied.rmdir (storage.uploadDir uploadId)).2.look (name :: dir) = none := by
    intro name
    have below : dir <:+ name :: dir ∧ name :: dir ≠ dir := ⟨List.suffix_cons _ _, by simp⟩
    have absent : emptied.look (name :: dir) = none := by
      rw [becomes.look]
      exact if_pos below
    rcases rmdir_changes emptied (storage.uploadDir uploadId) with same | ⟨found, _, dropped⟩
    · rw [same, absent]
    · rw [dropped, FS.look_drop]
      by_cases same : name :: dir = found
      · rw [same, Function.update_self]
      · rw [Function.update_of_ne same, absent]
  cases (emptied.rmdir (storage.uploadDir uploadId)).1 with
  | ok _ => exact gone
  | error e => cases e <;> exact gone

theorem abort_unconfined (crates : Crates) (storage : FsStorage) {uploadId : Str} (bucket : Str)
    (clean : '\u0000' ∉ uploadId) (unnamed : isName uploadId = false) :
    ∃ s, ¬ (UploadCall.abortMultipartUpload bucket).Confined crates storage uploadId s := by
  have shape := (upload_parts storage uploadId).2
  generalize path : storage.uploadDir uploadId = dir at shape
  have outside := resolve_outside storage clean unnamed
  rw [path] at outside
  -- A disk with the directories on the way and one more at its end.
  have tree := look_grown ((['x'] :: resolve dir.base dir.rel) :: trail dir.base dir.rel)
  have unlimited := grown_unlimited ((['x'] :: resolve dir.base dir.rel) :: trail dir.base dir.rel)
  generalize Reference.grown ((['x'] :: resolve dir.base dir.rel) :: trail dir.base dir.rel) = s
    at tree unlimited
  have there : ∀ other ∈ trail dir.base dir.rel, s.look other = some .dir := by
    intro other member
    rw [tree, if_pos ⟨other, List.mem_cons_of_mem _ member, List.suffix_refl _⟩]
  have leaf : s.look (['x'] :: resolve dir.base dir.rel) = some .dir := by
    rw [tree, if_pos ⟨_, List.mem_cons_self, List.suffix_refl _⟩]
  have parts : ∀ part ∈ dir.rel, '\u0000' ∉ part := by
    intro part member nul
    rcases shape part member with rfl | piece
    · exact absurd nul (by decide)
    · exact clean (mem_splitOn piece nul).1
  obtain ⟨walked, inside⟩ := walk_trail unlimited there
  have located : s.locate (storage.uploadDir uploadId) = .ok (resolve dir.base dir.rel) := by
    rw [path, FS.locate_walk parts, walked]
  refine ⟨s, fun confined => ?_⟩
  obtain ⟨outcome, after, run, gone⟩ := wp_returns (wp_abort_empties crates bucket located
    inside)
  have kept := confined.ended outcome after run (['x'] :: resolve dir.base dir.rel)
    fun touched => touched.elim outside not_false
  rw [gone, leaf] at kept
  cases kept

end Ferrobucket
