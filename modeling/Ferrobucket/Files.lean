import Ferrobucket.Lib.Machine
import Ferrobucket.Storage
/-! What the shared helpers of the operations do to the file tree, on the machine
without faults: streaming into a temporary file, installing it by rename, reading a
sidecar back, and making directories. A helper that cleans up after itself leaves
the tree as it found it. -/
namespace Ferrobucket
open Text Posix Program

/-- The bytes a body delivers before it ends or fails. -/
def delivered : Body → Bytes
  | [] => []
  | .error _ :: _ => []
  | .ok chunk :: rest => chunk ++ delivered rest

/-- The stream error a body ends with, if any. -/
def failure : Body → Option IoError
  | [] => none
  | .error e :: _ => some e
  | .ok _ :: rest => failure rest

/-- The tree of `after` is `look`; the rest of the machine is as before. -/
structure Becomes (before : FS) (look : Path → Option FS.Entry) (after : FS) : Prop where
  look : after.look = look
  limit : after.nameMax = before.nameMax
  issued : after.issued = before.issued

section Rules
variable {Value State : Type} {sem : Semantics Call Reply State} {s : State}

theorem wp_lift {post : Except StorageError Value → State → Prop}
    (outcome : Except StorageError Value) : wp sem (lift outcome) post s ↔ post outcome s := by
  cases outcome <;> rfl

theorem wp_io {post : Except StorageError Value → State → Prop} (outcome : Except Errno Value) :
    wp sem (io outcome) post s ↔ post (outcome.mapError fun e => .Io (.os e)) s := by
  cases outcome <;> rfl

theorem wp_ioOp {post : Except StorageError Value → State → Prop} (call : IoOp Value) :
    wp sem (ioOp call) post s ↔
      wp sem call (fun outcome after =>
        post (outcome.mapError fun e => .Io (.os e)) after) s := by
  unfold ioOp
  rw [wp_bind, wp_attempt]
  simp only [wp_io]

end Rules

/-! ### Streaming -/

theorem setData_same (s : FS) (inode : Nat) : s.setData inode (s.data inode) = s := by
  cases s
  simp [FS.setData]

theorem setData_twice (s : FS) (inode : Nat) (first second : Bytes) :
    (s.setData inode first).setData inode second = s.setData inode second := by
  simp [FS.setData]

theorem wp_stream (file : Handle) (body : Body) (hasher : EtagHasher) (bytesWritten : Nat)
    (post : Except StorageError (EtagHasher × Nat) → FS → Prop) (s : FS) :
    wp faultFree (streamToFile file body hasher bytesWritten) post s ↔
      post (match failure body with
        | none => .ok (hasher.update (delivered body), bytesWritten + (delivered body).length)
        | some e => .error (.Io e))
        (s.setData file (s.data file ++ delivered body)) := by
  induction body generalizing hasher bytesWritten s with
  | nil =>
      simp only [streamToFile, Prog.send_bind, wp_flush, io, Prog.done_bind, Prog.pure_eq, delivered,
        failure, List.append_nil, setData_same, EtagHasher.update]
      rfl
  | cons piece rest ih =>
      cases piece with
      | error e =>
          simp only [streamToFile, delivered, failure, List.append_nil, setData_same]
          rfl
      | ok chunk =>
          simp only [streamToFile, Prog.send_bind, wp_write, io, Prog.done_bind, ih, delivered,
            failure, FS.write, setData_twice, FS.data_setData, Function.update_self,
            EtagHasher.update, List.append_assoc, List.length_append, Nat.add_assoc]

/-! ### Installing a file by rename -/

/-- A directory in which a temporary file can be made. -/
structure Roomy (s : FS) (dir : PathBuf) (d : Path) : Prop where
  located : s.locate dir = .ok d
  inside : s.look d = some .dir
  short : ∀ name, isTempName name = true → s.tooLong name = false
  unused : ∀ name, isTempName name = true → s.look (name :: d) = none

/-- A temporary file at `p` that holds `content`, over the tree of `s`. -/
structure Staged (s : FS) (p : Path) (content : Bytes) (after : FS) : Prop where
  absent : s.look p = none
  becomes : Becomes s (Function.update s.look p (some (.file content))) after

section Staging
variable {s after : FS} {p : Path} {content : Bytes}

theorem staged_setData (absent : s.look p = none) (content : Bytes) :
    Staged s p content ((s.newFile p).setData s.nextInode content) := by
  refine ⟨absent, ?_, rfl, rfl⟩
  have named : (s.newFile p).node p = some (.file s.nextInode) := by simp
  rw [FS.look_setData _ named, FS.look_newFile, Function.update_idem]

theorem staged_newFile (absent : s.look p = none) : Staged s p [] (s.newFile p) :=
  ⟨absent, FS.look_newFile s p, rfl, rfl⟩

theorem staged_file (staged : Staged s p content after) :
    after.look p = some (.file content) := by
  rw [staged.becomes.look, Function.update_self]

theorem staged_kept (staged : Staged s p content after) (path : Path)
    (inside : s.look path = some .dir) : after.look path = some .dir := by
  have other : path ≠ p := by
    rintro rfl
    rw [staged.absent] at inside
    cases inside
  rw [staged.becomes.look, Function.update_of_ne other, inside]

theorem staged_locate {path : PathBuf} {found : Path} (staged : Staged s p content after)
    (located : s.locate path = .ok found) : after.locate path = .ok found :=
  FS.locate_kept (staged_kept staged) staged.becomes.limit located

theorem staged_drop (staged : Staged s p content after) : Becomes s s.look (after.drop p) := by
  refine ⟨?_, staged.becomes.limit, staged.becomes.issued⟩
  rw [FS.look_drop, staged.becomes.look, Function.update_idem, ← staged.absent,
    Function.update_eq_self]

theorem staged_move (staged : Staged s p content after) (target : Path) :
    Becomes s (Function.update s.look target (some (.file content))) (after.move p target) := by
  refine ⟨?_, ?_, ?_⟩
  · rw [FS.look_move after target (staged_file staged), staged.becomes.look, Function.update_idem,
      ← staged.absent, Function.update_eq_self]
  · rw [FS.limit_move, staged.becomes.limit]
  · rw [FS.issued_move, staged.becomes.issued]

end Staging

section Installing
variable {s : FS} {d : Path} {crates : Crates}

/-- Where a rename will land, whatever has been added to the tree meanwhile. -/
def Lands (s : FS) (target : PathBuf) (landing : Except Errno Path) : Prop :=
  ∀ after : FS, (∀ path, s.look path = some .dir → after.look path = some .dir) →
    after.nameMax = s.nameMax → after.locate target = landing

theorem lands_located {target : PathBuf} {found : Path} (located : s.locate target = .ok found) :
    Lands s target (.ok found) :=
  fun _ kept limit => FS.locate_kept kept limit located

theorem lands_long {dir : PathBuf} {name : Str} (located : s.locate dir = .ok d)
    (inside : s.look d = some .dir) (good : isName name = true) (long : s.tooLong name = true) :
    Lands s (dir.join name) (.error .ENAMETOOLONG) := by
  intro after kept limit
  have same : after.tooLong name = s.tooLong name := by simp [FS.tooLong, limit]
  exact FS.locate_name_long (FS.locate_kept kept limit located) (kept d inside) good
    (same.trans long)

/-- A file is installed whole, or the tree is as it was. `filled` says what the filling
program leaves in the temporary file with each of its outcomes. -/
theorem wp_installFile {Value : Type} {dir target : PathBuf} {fill : Handle → Op Value}
    {filled : Except StorageError Value → Bytes → Prop} {landing : Except Errno Path}
    {post : Except StorageError Value → FS → Prop} (roomy : Roomy s dir d)
    (lands : Lands s target landing)
    (fills : ∀ name, isTempName name = true → s.look (name :: d) = none →
      wp faultFree (fill s.nextInode) (fun outcome after =>
        ∃ content, Staged s (name :: d) content after ∧ filled outcome content)
        (s.newFile (name :: d)))
    (failed : ∀ e content after, filled (.error e) content → Becomes s s.look after →
      post (.error e) after)
    (refused : ∀ e value content after, filled (.ok value) content →
      (landing = .error e ∨ e = .EISDIR ∧ ∃ found, landing = .ok found ∧ s.look found = some .dir) →
      Becomes s s.look after → post (.error (.Io (.os e))) after)
    (stored : ∀ found value content after, landing = .ok found → s.look found ≠ some .dir →
      filled (.ok value) content →
      Becomes s (Function.update s.look found (some (.file content))) after →
      post (.ok value) after) :
    wp faultFree (installFile dir fill target) post s := by
  unfold installFile
  simp only [Prog.send_bind]
  apply wp_tempfileIn roomy.located roomy.inside roomy.short
  · exact ⟨".tmpAAAAAA".toList, by decide, roomy.unused _ (by decide)⟩
  · intro name temp absent
    simp only [io, Prog.done_bind]
    rw [wp_bind, wp_attempt]
    have tmp : s.locate (dir.join name) = .ok (name :: d) :=
      FS.locate_name roomy.located roomy.inside (temp_is_name temp) (roomy.short name temp)
    apply wp_mono (fills name temp absent)
    rintro outcome after ⟨content, staged, done⟩
    have located := staged_locate staged tmp
    have file := staged_file staged
    have kept := staged_kept staged
    have arrival := lands after kept staged.becomes.limit
    cases outcome with
    | error e =>
        simp only [wp_unlink, FS.unlink_file located file]
        exact failed e content _ done (staged_drop staged)
    | ok value =>
        simp only [wp_rename]
        cases landing with
        | error e =>
            simp only [FS.rename_lost located arrival, wp_unlink, FS.unlink_file located file]
            exact refused e value content _ done (.inl rfl) (staged_drop staged)
        | ok found =>
            by_cases directory : s.look found = some .dir
            · simp only [FS.rename_onto_dir located arrival file (kept found directory), wp_unlink,
                FS.unlink_file located file]
              exact refused .EISDIR value content _ done (.inr ⟨rfl, found, rfl, directory⟩)
                (staged_drop staged)
            · have free : after.look found ≠ some .dir := by
                by_cases same : found = name :: d
                · subst same
                  simp [file]
                · rw [staged.becomes.look, Function.update_of_ne same]
                  exact directory
              simp only [FS.rename_file located arrival file free]
              exact stored found value content _ rfl directory done (staged_move staged found)

/-- What becomes of a temporary file, once it is filled or could not be. -/
def placeFile {Value : Type} (tmpPath target : PathBuf) : Except StorageError Value → Op Value
  | .error e => .call (.unlink tmpPath) fun _ => .fail e
  | .ok value => .call (.rename tmpPath target) fun
      | .error e => .call (.unlink tmpPath) fun _ => .fail (.Io (.os e))
      | .ok () => .done value

/-- The steps of a write, in order. -/
theorem install_steps {Value : Type} (dir : PathBuf) (fill : Handle → Op Value) (target : PathBuf) :
    installFile dir fill target = .call (.tempfileIn dir) fun
      | .error e => .fail (.Io (.os e))
      | .ok made => (fill made.2).attempt >>= placeFile made.1 target := by
  unfold installFile
  refine congrArg (Prog.call _) (funext fun reply => ?_)
  cases reply with
  | error e => rfl
  | ok made =>
      refine congrArg (fun rest => (fill made.2).attempt >>= rest) (funext fun outcome => ?_)
      cases outcome with
      | error e => rfl
      | ok value =>
          refine congrArg (Prog.call _) (funext fun renamed => ?_)
          cases renamed <;> rfl

/-- What streaming a body leaves in the temporary file. -/
def Streamed (body : Body) (outcome : Except StorageError (EtagHasher × Nat)) (content : Bytes) :
    Prop :=
  content = delivered body ∧
    outcome = match failure body with
      | none => .ok (⟨delivered body⟩, (delivered body).length)
      | some e => .error (.Io e)

theorem wp_stream_staged {p : Path} (body : Body) (absent : s.look p = none) :
    wp faultFree (streamToFile s.nextInode body .new 0) (fun outcome after =>
      ∃ content, Staged s p content after ∧ Streamed body outcome content) (s.newFile p) := by
  rw [wp_stream]
  have empty : (s.newFile p).data s.nextInode = [] := by simp
  rw [empty, List.nil_append]
  refine ⟨delivered body, staged_setData absent (delivered body), rfl, ?_⟩
  simp [EtagHasher.update, EtagHasher.new]

/-- A body is installed whole under its name, or the directory is as it was. -/
theorem wp_writeObjectBody {objectsDir : PathBuf} {encodedKey : Str} {body : Body} {target : Path}
    {post : Except StorageError (Str × Nat) → FS → Prop} (roomy : Roomy s objectsDir d)
    (placed : s.locate (objectsDir.join encodedKey) = .ok target)
    (failed : ∀ e after, failure body = some e → Becomes s s.look after → post (.error (.Io e)) after)
    (refused : ∀ after, failure body = none → s.look target = some .dir → Becomes s s.look after →
      post (.error (.Io (.os .EISDIR))) after)
    (stored : ∀ after, failure body = none → s.look target ≠ some .dir →
      Becomes s (Function.update s.look target (some (.file (delivered body)))) after →
      post (.ok (hexMd5 crates (delivered body), (delivered body).length)) after) :
    wp faultFree (writeObjectBody crates objectsDir encodedKey body) post s := by
  unfold writeObjectBody
  rw [wp_bind]
  apply wp_installFile roomy (lands_located placed)
    (fun name temp absent => wp_stream_staged body absent)
  · rintro e content after ⟨-, outcome⟩ becomes
    cases broken : failure body with
    | none => simp [broken] at outcome
    | some error =>
        rw [broken] at outcome
        cases outcome
        exact failed error after broken becomes
  · rintro e value content after ⟨-, outcome⟩ reason becomes
    cases broken : failure body with
    | some error => simp [broken] at outcome
    | none =>
        rcases reason with lost | ⟨rfl, found, same, directory⟩
        · cases lost
        · cases same
          exact refused after broken directory becomes
  · rintro found value content after same free ⟨rfl, outcome⟩ becomes
    cases broken : failure body with
    | some error => simp [broken] at outcome
    | none =>
        rw [broken] at outcome
        cases outcome
        cases same
        exact stored after broken free becomes

/-- A record is written whole under its name; a name that is too long is refused after
the temporary file was made, and that file is removed again. -/
theorem wp_writeJson {Value : Type} {codec : Codec Value} {dir : PathBuf} {name : Str}
    {value : Value} {post : Except StorageError Unit → FS → Prop} (roomy : Roomy s dir d)
    (good : isName name = true) (free : s.look (name :: d) ≠ some .dir)
    (refused : ∀ after, s.tooLong name = true → Becomes s s.look after →
      post (.error (.Io (.os .ENAMETOOLONG))) after)
    (stored : ∀ after, s.tooLong name = false →
      Becomes s (Function.update s.look (name :: d) (some (.file (codec.encode value)))) after →
      post (.ok ()) after) :
    wp faultFree (writeJson codec (dir.join name) value) post s := by
  obtain ⟨_, _, _, slash, _⟩ := name_parts good
  unfold writeJson
  rw [parent_join dir slash]
  have fills : ∀ temporary, isTempName temporary = true → s.look (temporary :: d) = none →
      wp faultFree (do
        io (← Sys.write s.nextInode (codec.encode value))
        io (← Sys.flush s.nextInode) : Op Unit) (fun outcome after =>
          ∃ content, Staged s (temporary :: d) content after ∧
            (outcome = .ok () ∧ content = codec.encode value)) (s.newFile (temporary :: d)) := by
    intro temporary _ absent
    have empty : (s.newFile (temporary :: d)).data s.nextInode = [] := by simp
    simp only [Prog.send_bind, wp_write, io, Prog.done_bind, wp_flush, FS.write, empty,
      List.nil_append]
    exact ⟨_, staged_setData absent _, rfl, rfl⟩
  by_cases long : s.tooLong name = true
  · apply wp_installFile roomy (lands_long roomy.located roomy.inside good long) fills
    · rintro e content after ⟨impossible, -⟩
      cases impossible
    · rintro e result content after - reason becomes
      rcases reason with same | ⟨-, found, same, -⟩
      · cases same
        exact refused after long becomes
      · cases same
    · intro found result content after same
      cases same
  · have short : s.tooLong name = false := by simpa using long
    have landing := FS.locate_name roomy.located roomy.inside good short
    apply wp_installFile roomy (lands_located landing) fills
    · rintro e content after ⟨impossible, -⟩
      cases impossible
    · rintro e result content after - reason becomes
      rcases reason with same | ⟨-, found, same, directory⟩
      · cases same
      · cases same
        exact absurd directory free
    · rintro found result content after same - ⟨-, rfl⟩ becomes
      cases same
      exact stored after short becomes

/-- Without its directory a record is not written at all. -/
theorem wp_writeJson_absent {Value : Type} {codec : Codec Value} {dir : PathBuf} {name : Str}
    {value : Value} {post : Except StorageError Unit → FS → Prop}
    (located : s.locate dir = .ok d) (absent : s.look d = none) (good : isName name = true)
    (holds : post (.error (.Io (.os .ENOENT))) s) :
    wp faultFree (writeJson codec (dir.join name) value) post s := by
  obtain ⟨_, _, _, slash, _⟩ := name_parts good
  unfold writeJson installFile
  rw [parent_join dir slash]
  simp only [Prog.send_bind]
  exact wp_tempfileIn_absent located absent holds

end Installing

/-! ### Reading -/

/-- What reading a path to its end gives. -/
def fileContents (s : FS) (path : PathBuf) : Except Errno Bytes := (s.open path).map s.data

section Reading
variable {s : FS} {path : PathBuf} {found : Path}

theorem contents_file {content : Bytes} (located : s.locate path = .ok found)
    (file : s.look found = some (.file content)) : fileContents s path = .ok content := by
  obtain ⟨inode, named, held⟩ := FS.look_file.mp file
  simp [fileContents, FS.open_file located named, Except.map, held]

theorem contents_absent (located : s.locate path = .ok found) (absent : s.look found = none) :
    fileContents s path = .error .ENOENT := by
  simp [fileContents, FS.open_absent located absent, Except.map]

theorem contents_lost {e : Errno} (lost : s.locate path = .error e) :
    fileContents s path = .error e := by
  simp [fileContents, FS.open_lost lost, Except.map]

theorem wp_readFile (path : PathBuf) (post : Except Errno Bytes → FS → Prop) (s : FS) :
    wp faultFree (readFile path) post s ↔ post (fileContents s path) s := by
  unfold readFile fileContents
  simp only [Prog.send_bind, wp_open]
  cases s.open path with
  | error e => rfl
  | ok handle => exact wp_read handle _

/-- The outcome of reading a record, from the contents of its file. -/
def readOutcome {Value : Type} (codec : Codec Value) (missing : StorageError) :
    Except Errno Bytes → Except StorageError Value
  | .error .ENOENT => .error missing
  | .error e => .error (.Io (.os e))
  | .ok bytes => (codec.decode bytes).mapError fun text => .Io (.invalidData text)

theorem wp_readJson {Value : Type} (codec : Codec Value) (missing : Str → StorageError)
    (path : PathBuf) (post : Except StorageError Value → FS → Prop) (s : FS) :
    wp faultFree (readJson codec missing path) post s ↔
      post (readOutcome codec (missing path.display) (fileContents s path)) s := by
  unfold readJson
  rw [wp_bind, wp_attempt, wp_readFile]
  cases fileContents s path with
  | error e => cases e <;> rfl
  | ok bytes =>
      simp only [readOutcome]
      cases codec.decode bytes <;> rfl

theorem wp_collect (stream : ObjectStream) (post : Except Errno Bytes → FS → Prop) (s : FS) :
    wp faultFree stream.collect post s ↔
      post (.ok (match stream.limit with
        | none => (s.data stream.handle).drop stream.start
        | some limit => ((s.data stream.handle).drop stream.start).take limit)) s := by
  unfold ObjectStream.collect
  simp only [Prog.send_bind, wp_read, Prog.ofExcept, Prog.done_bind, Prog.pure_eq]
  cases stream.limit <;> rfl

end Reading

/-! ### Directories -/

section Directories
variable {s : FS} {path : PathBuf} {found : Path} {post : Except Errno Unit → FS → Prop}

theorem wp_createDir_present (height : Nat) (located : s.locate path = .ok found)
    (inside : s.look found = some .dir) :
    wp faultFree (createDirUpTo height path) post s ↔ post (.ok ()) s := by
  have present : s.look found ≠ none := by simp [inside]
  rw [createDirUpTo.eq_def]
  simp [wp_mkdir, FS.mkdir_present located present, wp_isDir, FS.isDir_located located inside]

theorem wp_createDir_new (height : Nat) (located : s.locate path = .ok found)
    (absent : s.look found = none) (inside : s.look found.tail = some .dir) :
    wp faultFree (createDirUpTo height path) post s ↔ post (.ok ()) (s.mkdirAt found) := by
  rw [createDirUpTo.eq_def]
  simp [wp_mkdir, FS.mkdir_new located absent inside]

/-- A directory whose parent is missing as well: both are made. -/
theorem wp_createDir_nested {dir : PathBuf} {d : Path} {name : Str} (height : Nat)
    (located : s.locate dir = .ok d) (absent : s.look d = none) (inside : s.look d.tail = some .dir)
    (good : isName name = true) (short : s.tooLong name = false) (vacant : s.look (name :: d) = none) :
    wp faultFree (createDirUpTo (height + 1) (dir.join name)) post s ↔
      post (.ok ()) ((s.mkdirAt d).mkdirAt (name :: d)) := by
  obtain ⟨_, _, _, slash, _⟩ := name_parts good
  have lost : s.locate (dir.join name) = .error .ENOENT := FS.locate_name_absent located absent good
  rw [createDirUpTo.eq_def]
  simp only [Prog.send_bind, wp_mkdir, FS.mkdir_lost lost, parent_join dir slash]
  rw [wp_bind, wp_createDir_new height located absent inside]
  have again : (s.mkdirAt d).locate dir = .ok d :=
    FS.locate_kept (fun _ inside => FS.mkdirAt_kept d inside) rfl located
  have made : (s.mkdirAt d).look d = some .dir := by simp
  have landing : (s.mkdirAt d).locate (dir.join name) = .ok (name :: d) :=
    FS.locate_name again made good short
  have still : (s.mkdirAt d).look (name :: d) = none := by simp [vacant]
  simp [wp_mkdir, FS.mkdir_new landing still made]

/-- A file that was not there, created and written in place. -/
theorem wp_writeFile {content : Bytes} (located : s.locate path = .ok found)
    (absent : s.look found = none) (inside : s.look found.tail = some .dir)
    (holds : ∀ after, Becomes s (Function.update s.look found (some (.file content))) after →
      post (.ok ()) after) :
    wp faultFree (writeFile path content) post s := by
  unfold writeFile
  have staged := staged_setData absent content
  simp only [Prog.send_bind, wp_creat, FS.creat_new located absent inside, Prog.ofExcept,
    Prog.done_bind, wp_write, FS.write, FS.data_newFile, Function.update_self, List.nil_append]
  exact holds _ staged.becomes

end Directories

/-! ### Removing a tree -/

/-- A list of paths that can be removed one after the other: no directory comes before
its contents, and none has contents outside the list. -/
structure Removable (s : FS) (tree : List Path) : Prop where
  distinct : tree.Nodup
  ordered : tree.Pairwise fun first later => ¬ first <:+ later
  below : ∀ path ∈ tree, path ≠ []
  present : ∀ path ∈ tree, s.look path ≠ none
  closed : ∀ path ∈ tree, ∀ name, s.look (name :: path) ≠ none → name :: path ∈ tree

theorem removable_tail {s after : FS} {first : Path} {rest : List Path}
    (removable : Removable s (first :: rest))
    (changed : after.look = Function.update s.look first none) : Removable after rest := by
  have fresh : first ∉ rest := (List.nodup_cons.mp removable.distinct).1
  refine ⟨(List.nodup_cons.mp removable.distinct).2, (List.pairwise_cons.mp removable.ordered).2,
    fun path member => removable.below path (List.mem_cons_of_mem _ member), ?_, ?_⟩
  · intro path member
    have other : path ≠ first := by
      rintro rfl
      exact fresh member
    rw [changed, Function.update_of_ne other]
    exact removable.present path (List.mem_cons_of_mem _ member)
  · intro path member name present
    have other : name :: path ≠ first := by
      intro same
      rw [changed, same, Function.update_self] at present
      exact present rfl
    rw [changed, Function.update_of_ne other] at present
    have listed := removable.closed path (List.mem_cons_of_mem _ member) name present
    exact (List.mem_cons.mp listed).resolve_left other

theorem removable_childless {s : FS} {first : Path} {rest : List Path}
    (removable : Removable s (first :: rest)) (name : Str) : s.look (name :: first) = none := by
  by_contra present
  have listed := removable.closed first List.mem_cons_self name present
  rcases List.mem_cons.mp listed with same | later
  · exact absurd same (by simp)
  · exact (List.pairwise_cons.mp removable.ordered).1 _ later (List.suffix_cons name first)

theorem wp_removeFound {tree : List Path} {s : FS} {post : Except Errno Unit → FS → Prop}
    (removable : Removable s tree)
    (holds : ∀ after, Becomes s (fun path => if path ∈ tree then none else s.look path) after →
      post (.ok ()) after) :
    wp faultFree (removeFound (tree.map fun path => (path, s.look path = some .dir))) post s := by
  -- The kinds are those seen before anything was removed; removal does not change the rest.
  have general : ∀ (tree : List Path) (s start : FS), Removable s tree →
      (∀ path ∈ tree, start.look path = s.look path) →
      (∀ after, Becomes s (fun path => if path ∈ tree then none else s.look path) after →
        post (.ok ()) after) →
      wp faultFree (removeFound (tree.map fun path => (path, start.look path = some .dir))) post s := by
    intro tree
    induction tree with
    | nil =>
        intro s start _ _ holds
        exact holds s ⟨by simp, rfl, rfl⟩
    | cons first rest ih =>
        intro s start removable unchanged holds
        have located : s.locate ⟨first, []⟩ = .ok first := rfl
        have below := removable.below first List.mem_cons_self
        have fresh : first ∉ rest := (List.nodup_cons.mp removable.distinct).1
        have dropped : wp faultFree (removeFound (rest.map fun path =>
            (path, start.look path = some .dir))) post (s.drop first) := by
          apply ih (s.drop first) start (removable_tail removable (by simp))
          · intro path member
            have other : path ≠ first := by
              rintro rfl
              exact fresh member
            rw [FS.look_drop, Function.update_of_ne other]
            exact unchanged path (List.mem_cons_of_mem _ member)
          · rintro after ⟨look, limit, issued⟩
            apply holds after
            refine ⟨?_, limit, issued⟩
            funext path
            rw [look]
            by_cases same : path = first
            · subst same
              simp
            · simp [same]
        have same := unchanged first List.mem_cons_self
        simp only [List.map_cons, removeFound]
        obtain ⟨entry, present⟩ :=
          Option.ne_none_iff_exists'.mp (removable.present first List.mem_cons_self)
        cases entry with
        | dir =>
            have directory : s.locateDir ⟨first, []⟩ = .ok first := FS.locateDir_dir located present
            have plain : (⟨first, []⟩ : PathBuf).lastPart ≠ some ['.'] ∧
                (⟨first, []⟩ : PathBuf).lastPart ≠ some ['.', '.'] := by
              simp [PathBuf.lastPart]
            have removed := FS.rmdir_empty directory plain below (removable_childless removable)
            simp only [same, present, decide_true, if_true, Prog.send_bind, wp_rmdir, removed]
            exact dropped
        | file content =>
            have removed := FS.unlink_file located present
            simp only [same, present, reduceCtorEq, Option.some.injEq, decide_false,
              Bool.false_eq_true, if_false, Prog.send_bind, wp_unlink, removed]
            exact dropped
  exact general tree s s removable (fun _ _ => rfl) holds

/-- Everything below a directory is removed, and then the directory itself is tried. -/
theorem wp_removeBelow {path : PathBuf} {d : Path} {s : FS} {post : Except Errno Unit → FS → Prop}
    (located : s.locate path = .ok d) (inside : s.look d = some .dir)
    (rest : ∀ emptied, Becomes s
        (fun other => if d <:+ other ∧ other ≠ d then none else s.look other) emptied →
      wp faultFree (match (emptied.rmdir path).1 with
        | .ok () => .done ()
        | .error .ENOENT => .done ()
        | .error e => .fail e : IoOp Unit) post (emptied.rmdir path).2) :
    wp faultFree (removeDirAll path) post s := by
  unfold removeDirAll
  simp only [Prog.send_bind]
  apply wp_readTree (FS.locateDir_dir located inside)
  intro tree distinct entries ordered
  simp only [Prog.ofExcept, Prog.done_bind]
  rw [wp_bind]
  have removable : Removable s tree := by
    refine ⟨distinct, ordered, ?_, ?_, ?_⟩
    · rintro found member rfl
      obtain ⟨_, under, other⟩ := (entries []).mp member
      exact other (List.suffix_nil.mp under).symm
    · intro found member
      exact ((entries found).mp member).1
    · intro found member name present
      obtain ⟨_, under, _⟩ := (entries found).mp member
      refine (entries (name :: found)).mpr ⟨present, under.trans (List.suffix_cons name found), ?_⟩
      intro same
      have longer := under.length_le
      have length := congrArg List.length same
      simp only [List.length_cons] at length
      omega
  apply wp_removeFound removable
  rintro emptied ⟨look, limit, issued⟩
  simp only [wp_rmdir]
  apply rest emptied
  refine ⟨?_, limit, issued⟩
  rw [look]
  funext other
  by_cases listed : other ∈ tree
  · rw [if_pos listed, if_pos ((entries other).mp listed).2]
  · rw [if_neg listed]
    by_cases under : d <:+ other ∧ other ≠ d
    · rw [if_pos under]
      by_contra present
      exact listed ((entries other).mpr ⟨present, under⟩)
    · rw [if_neg under]

theorem wp_removeDirAll {path : PathBuf} {d : Path} {s : FS} {post : Except Errno Unit → FS → Prop}
    (located : s.locate path = .ok d) (inside : s.look d = some .dir) (below : d ≠ [])
    (plain : path.lastPart ≠ some ['.'] ∧ path.lastPart ≠ some ['.', '.'])
    (still : ∀ after : FS, (∀ other, ¬ (d <:+ other ∧ other ≠ d) → after.look other = s.look other) →
      after.nameMax = s.nameMax → after.locate path = .ok d)
    (holds : ∀ after, Becomes s (fun other => if d <:+ other then none else s.look other) after →
      post (.ok ()) after) :
    wp faultFree (removeDirAll path) post s := by
  apply wp_removeBelow located inside
  intro emptied becomes
  have outside : ∀ other, ¬ (d <:+ other ∧ other ≠ d) → emptied.look other = s.look other := by
    intro other away
    rw [becomes.look]
    exact if_neg away
  have within : ∀ other, d <:+ other → other ≠ d → emptied.look other = none := by
    intro other under different
    rw [becomes.look]
    exact if_pos ⟨under, different⟩
  have self : emptied.look d = some .dir := by
    rw [outside d (by simp), inside]
  have directory := FS.locateDir_dir (still emptied outside becomes.limit) self
  have childless : ∀ name, emptied.look (name :: d) = none := fun name =>
    within _ (List.suffix_cons name d) (by simp)
  rw [FS.rmdir_empty directory plain below childless]
  apply holds
  refine ⟨?_, becomes.limit, becomes.issued⟩
  funext other
  rw [FS.look_drop]
  by_cases same : other = d
  · subst same
    simp
  · rw [Function.update_of_ne same]
    by_cases under : d <:+ other
    · simp [under, within other under same]
    · simp only [under, if_false]
      exact outside other fun both => under both.1

end Ferrobucket
