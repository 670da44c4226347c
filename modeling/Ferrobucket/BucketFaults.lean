import Ferrobucket.Lib.Fault
import Ferrobucket.Reference
/-! Creating and deleting a bucket when one system call fails. Both go through several
changes and take none of them back, so a call that stops late leaves part of its work
behind. `delete_bucket` can also stop late without any fault: a sidecar without its body
keeps `meta/` from being removed after `objects/` is gone. -/
namespace Ferrobucket
open Text Posix Program

/-- The directory tree of a bucket is as it was. -/
def Untouched (storage : FsStorage) (bucket : Str) (before after : FS) : Prop :=
  ∀ inside, after.look (inside ++ bucket :: storage.dataRoot) =
    before.look (inside ++ bucket :: storage.dataRoot)

/-- A bucket operation that fails has changed nothing in the bucket, when the call that is
planned to fail does so. -/
def Atomic (storage : FsStorage) (bucket : Str) (s : FS) (fault : Option Nat) (call : Op Unit) : Prop :=
  wp oneFault call
    (fun outcome after => outcome.isOk = false → Untouched storage bucket s after.1) (s, fault)

/-- A directory that `remove_dir` gets rid of, or that is not there. -/
def Cleared (look : Path → Option FS.Entry) (dir : Path) : Prop :=
  look dir = none ∨ (look dir = some .dir ∧ ∀ part, look (part :: dir) = none)

def deleteStages (storage : FsStorage) (s : FS) (bucket : Str) : List Stage :=
  let bucketDir := bucket :: storage.dataRoot
  let objectsDir := objectsName :: bucketDir
  let metaDir := metaName :: bucketDir
  let bucketJson := bucketJsonName :: bucketDir
  [⟨0, s.look bucketDir = some .dir, False⟩,
    ⟨1, Cleared s.look objectsDir, False⟩,
    ⟨2, Cleared s.look objectsDir, s.look objectsDir ≠ none⟩,
    ⟨3, Cleared s.look metaDir, s.look metaDir ≠ none⟩,
    ⟨4, s.look bucketJson ≠ some .dir, s.look bucketJson ≠ none⟩,
    ⟨5, ∀ part, part ∉ [objectsName, metaName, bucketJsonName] → s.look (part :: bucketDir) = none,
      True⟩]

/-- The call with the number 0 looks for the data root, which is there, and the one with the
number 5 is the clock. -/
def createStages (storage : FsStorage) (s : FS) (bucket : Str) : List Stage :=
  [⟨1, True, False⟩, ⟨2, s.look (bucket :: storage.dataRoot) = none, True⟩, ⟨3, True, True⟩,
    ⟨4, True, True⟩, ⟨6, True, True⟩, ⟨7, True, True⟩]

/-! ### Removing the pieces -/

/-- The tree without some of its entries. -/
def without (look : Path → Option FS.Entry) (paths : List Path) (path : Path) : Option FS.Entry :=
  if path ∈ paths then none else look path

theorem update_without (look : Path → Option FS.Entry) (paths : List Path) (path : Path) :
    Function.update (without look paths) path none = without look (path :: paths) := by
  funext other
  by_cases same : other = path
  · subst same
    simp [without]
  · simp [without, same]

theorem without_other {look : Path → Option FS.Entry} {paths : List Path} {path : Path}
    (other : path ∉ paths) : without look paths path = look path := if_neg other

/-- The tree of a bucket is untouched if nothing that was removed had been there. -/
theorem untouched_without {storage : FsStorage} {bucket : Str} {s after : FS} {paths : List Path}
    (seen : after.look = without s.look paths)
    (inside : ∀ path ∈ paths, bucket :: storage.dataRoot <:+ path) :
    Untouched storage bucket s after ↔ ∀ path ∈ paths, s.look path = none := by
  unfold Untouched
  rw [seen]
  constructor
  · intro same path member
    obtain ⟨inner, rfl⟩ := inside path member
    have gone := same inner
    simp only [without, if_pos member] at gone
    exact gone.symm
  · intro absent inner
    by_cases member : inner ++ bucket :: storage.dataRoot ∈ paths
    · rw [absent _ member]
      simp [without, member]
    · exact without_other member

section Removing
variable {s : FS} {path : PathBuf} {place : Path} {fault : Option Nat} {issued : Nat} {name : Str}
  {post : Except StorageError Unit → FS × Option Nat → Prop}

theorem wp_removeDir_goes (located : s.locate path = .ok place)
    (plain : path.lastPart ≠ some ['.'] ∧ path.lastPart ≠ some ['.', '.']) (below : place ≠ [])
    (cleared : Cleared s.look place) (later : fault ≠ some issued)
    (goes : ∀ after, Becomes s (Function.update s.look place none) after →
      post (.ok ()) (after, left (issued + 1) fault)) :
    wp oneFault (removeDirGuarded path name) post (s, left issued fault) := by
  unfold removeDirGuarded
  simp only [Prog.send_bind]
  rcases cleared with absent | ⟨inside, empty⟩
  · have gone : s.rmdir path = (.error .ENOENT, s) :=
      FS.rmdir_lost (FS.locateDir_absent located absent)
    apply wp_answered (.rmdir path) (.error .ENOENT) s later (fun _ => congrArg some gone)
    refine goes s ⟨?_, rfl, rfl⟩
    rw [← absent, Function.update_eq_self]
  · have removed : s.rmdir path = (.ok (), s.drop place) :=
      FS.rmdir_empty (FS.locateDir_dir located inside) plain below empty
    apply wp_answered (.rmdir path) (.ok ()) _ later (fun _ => congrArg some removed)
    exact goes _ ⟨FS.look_drop s place, rfl, rfl⟩

/-- The directory is read once more only to choose the error. -/
theorem wp_reread_fails {plan : Option Nat} {next : Except Errno (List DirEntry) → Op Unit}
    (fails : ∀ reply, ∃ error, next reply = .fail error)
    (stops : ∀ error rest, post (.error error) (s, rest)) :
    wp oneFault (.call (.readDir path) next) post (s, plan) := by
  apply wp_reread
  intro reply rest
  obtain ⟨error, same⟩ := fails reply
  rw [same]
  exact stops error rest

theorem guarded_fails (e : Errno) (reply : Except Errno (List DirEntry)) :
    ∃ error, (if (match reply with
        | .ok entries => !entries.isEmpty
        | .error _ => false) = true then throw (.BucketNotEmpty name)
      else throw (.Io (.os e)) : Op Unit) = .fail error := by
  cases reply with
  | error _ => exact ⟨_, rfl⟩
  | ok entries =>
      cases entries with
      | nil => exact ⟨_, rfl⟩
      | cons _ _ => exact ⟨_, rfl⟩

theorem wp_removeDir_stops (located : s.locate path = .ok place)
    (plain : path.lastPart ≠ some ['.'] ∧ path.lastPart ≠ some ['.', '.']) (below : place ≠ [])
    (stuck : ¬ (Cleared s.look place ∧ fault ≠ some issued))
    (stops : ∀ error rest, post (.error error) (s, rest)) :
    wp oneFault (removeDirGuarded path name) post (s, left issued fault) := by
  unfold removeDirGuarded
  simp only [Prog.send_bind]
  by_cases hit : fault = some issued
  · subst hit
    apply wp_failed (.rmdir path) (.error Errno.EIO) rfl
    exact wp_reread_fails (guarded_fails Errno.EIO) stops
  · have full : ¬ Cleared s.look place := fun cleared => stuck ⟨cleared, hit⟩
    unfold Cleared at full
    cases seen : s.look place with
    | none => exact absurd (.inl seen) full
    | some entry =>
        cases entry with
        | file content =>
            have refused : s.rmdir path = (.error .ENOTDIR, s) :=
              FS.rmdir_lost (FS.locateDir_file located seen)
            apply wp_answered (.rmdir path) (.error .ENOTDIR) s hit (fun _ => congrArg some refused)
            exact wp_reread_fails (guarded_fails .ENOTDIR) stops
        | dir =>
            have entries : ∃ part, s.look (part :: place) ≠ none := by
              by_contra none
              push Not at none
              exact full (.inr ⟨seen, none⟩)
            have refused : s.rmdir path = (.error .ENOTEMPTY, s) :=
              FS.rmdir_full (FS.locateDir_dir located seen) plain below entries
            apply wp_answered (.rmdir path) (.error .ENOTEMPTY) s hit
              (fun _ => congrArg some refused)
            exact wp_reread_fails (guarded_fails .ENOTEMPTY) stops

theorem wp_unlink_goes {next : Except Errno Unit → Op Unit} (located : s.locate path = .ok place)
    (free : s.look place ≠ some .dir) (later : fault ≠ some issued)
    (goes : ∀ after answer, answer = .ok () ∨ answer = .error .ENOENT →
      Becomes s (Function.update s.look place none) after →
      wp oneFault (next answer) post (after, left (issued + 1) fault)) :
    wp oneFault (.call (.unlink path) next) post (s, left issued fault) := by
  cases seen : s.look place with
  | none =>
      have gone := FS.unlink_absent located seen
      apply wp_answered (.unlink path) (.error .ENOENT) s later (fun _ => congrArg some gone)
      refine goes s _ (.inr rfl) ⟨?_, rfl, rfl⟩
      rw [← seen, Function.update_eq_self]
  | some entry =>
      cases entry with
      | dir => exact absurd seen free
      | file content =>
          have removed := FS.unlink_file located seen
          apply wp_answered (.unlink path) (.ok ()) _ later (fun _ => congrArg some removed)
          exact goes _ _ (.inl rfl) ⟨FS.look_drop s place, rfl, rfl⟩

end Removing
/-! ### Deleting -/

/-- How a bucket operation ends, as far as the tree of the bucket goes. -/
abbrev BucketEnds (storage : FsStorage) (s : FS) (bucket : Str) (late : Prop) :
    Except StorageError Unit → FS × Option Nat → Prop :=
  Ends (fun after : FS × Option Nat => Untouched storage bucket s after.1) late

/-- Some pieces of the bucket have been removed, of which any were there if `changed`. -/
structure Cleaned (storage : FsStorage) (s : FS) (bucket : Str) (changed : Prop) (paths : List Path)
    (after : FS) : Prop where
  seen : after.look = without s.look paths
  limit : after.nameMax = s.nameMax
  pieces : ∀ path ∈ paths, ∃ name, path = name :: bucket :: storage.dataRoot
  flag : changed ↔ ∃ path ∈ paths, s.look path ≠ none

section Deleting
variable {storage : FsStorage} {s after last : FS} {bucket : Str} {fault : Option Nat} {changed : Prop}
  {paths : List Path} {part : Str}

theorem cleaned_untouched (cleaned : Cleaned storage s bucket changed paths after) :
    Untouched storage bucket s after ↔ ¬ changed := by
  have inside : ∀ path ∈ paths, bucket :: storage.dataRoot <:+ path := by
    intro path member
    obtain ⟨name, rfl⟩ := cleaned.pieces path member
    exact List.suffix_cons name _
  rw [untouched_without cleaned.seen inside, cleaned.flag]
  simp only [not_exists, not_and, not_not]

theorem cleaned_next (cleaned : Cleaned storage s bucket changed paths after)
    (becomes : Becomes after (Function.update after.look (part :: bucket :: storage.dataRoot) none) last) :
    Cleaned storage s bucket (changed ∨ s.look (part :: bucket :: storage.dataRoot) ≠ none)
      ((part :: bucket :: storage.dataRoot) :: paths) last where
  seen := by rw [becomes.look, cleaned.seen, update_without]
  limit := becomes.limit.trans cleaned.limit
  pieces := by
    intro path member
    rcases List.mem_cons.mp member with rfl | member
    · exact ⟨part, rfl⟩
    · exact cleaned.pieces path member
  flag := by
    rw [cleaned.flag]
    simp only [List.mem_cons, exists_eq_or_imp, or_comm]

/-- Nothing above the pieces is removed, and nothing inside them. -/
theorem cleaned_same (cleaned : Cleaned storage s bucket changed paths after) {path : Path}
    (other : path.length ≠ storage.dataRoot.length + 2) : after.look path = s.look path := by
  rw [cleaned.seen]
  apply without_other
  intro member
  obtain ⟨name, rfl⟩ := cleaned.pieces path member
  simp at other

/-- A stage that stops before anything has changed. -/
theorem ends_early {stage : Stage} {rest : List Stage} {error : StorageError} {plan : Option Nat}
    (stops : ¬ stage.Goes fault) (nothing : ¬ changed) :
    BucketEnds storage s bucket (StopsLate fault changed (stage :: rest)) (.error error) (s, plan) :=
  ends_stopped stops ⟨fun _ => nothing, fun _ _ => rfl⟩

variable (root : s.look storage.dataRoot = some .dir) (limit : s.nameMax = none ∨ s.nameMax = some 255)
  (valid : validateBucketName bucket = .ok ()) (inside : s.look (bucket :: storage.dataRoot) = some .dir)
include root limit valid inside

theorem locate_piece (cleaned : Cleaned storage s bucket changed paths after)
    (good : isName part = true) (short : utf8Len part ≤ 255) :
    after.locate ((storage.bucketPath bucket).join part) = .ok (part :: bucket :: storage.dataRoot) := by
  apply locate_in_bucket part valid _ _ _ good short
  · rw [cleaned_same cleaned (by simp), root]
  · rw [cleaned_same cleaned (by simp), inside]
  · rw [cleaned.limit]
    exact limit

theorem bucket_dir_ends
    (cleaned : Cleaned storage s bucket changed (([bucketJsonName, metaName, objectsName].map
      fun part => part :: bucket :: storage.dataRoot)) after) :
    wp oneFault (do
      match ← Sys.rmdir (storage.bucketPath bucket) with
      | .ok () => pure ()
      | .error .ENOENT => pure ()
      | .error e => throw (.Io (.os e)) : Op Unit)
      (BucketEnds storage s bucket (StopsLate fault changed ((deleteStages storage s bucket).drop 5)))
      (after, left 5 fault) := by
  simp only [Prog.send_bind]
  have short : utf8Len bucket ≤ 255 := le_trans (bucket_name_facts valid).2.1 (by decide)
  have here : after.look (bucket :: storage.dataRoot) = some .dir := by
    rw [cleaned_same cleaned (by simp), inside]
  have located : after.locate (storage.bucketPath bucket) = .ok (bucket :: storage.dataRoot) := by
    apply FS.locate_name (locate_root storage after) _ (bucket_is_name valid)
    · apply fits_limit _ short
      rw [cleaned.limit]
      exact limit
    · rw [cleaned_same cleaned (by simp), root]
  have plain := join_lastPart storage.rootPath (bucket_is_name valid)
  by_cases hit : fault = some 5
  · subst hit
    apply wp_failed (.rmdir _) (.error Errno.EIO) rfl
    exact ends_stopped (fun goes => goes.2 rfl) (cleaned_untouched cleaned)
  · by_cases others : ∀ part, part ∉ [objectsName, metaName, bucketJsonName] →
        s.look (part :: bucket :: storage.dataRoot) = none
    · have empty : ∀ part, after.look (part :: bucket :: storage.dataRoot) = none := by
        intro part
        rw [cleaned.seen]
        by_cases piece : part ∈ [objectsName, metaName, bucketJsonName]
        · simp only [List.mem_cons, List.not_mem_nil, or_false] at piece
          rcases piece with rfl | rfl | rfl <;> simp [without]
        · simp [without, others part piece]
      have removed := FS.rmdir_empty (FS.locateDir_dir located here) plain (List.cons_ne_nil _ _) empty
      apply wp_answered (.rmdir _) (.ok ()) _ hit (fun _ => congrArg some removed)
      exact ends_gone ⟨others, hit⟩ (ends_done ())
    · have full : ∃ part, after.look (part :: bucket :: storage.dataRoot) ≠ none := by
        push Not at others
        obtain ⟨part, other, there⟩ := others
        refine ⟨part, ?_⟩
        rw [cleaned.seen, without_other]
        · exact there
        · simp only [List.mem_cons, List.not_mem_nil, or_false, not_or] at other
          simp [other]
      have refused := FS.rmdir_full (FS.locateDir_dir located here) plain (List.cons_ne_nil _ _) full
      apply wp_answered (.rmdir _) (.error .ENOTEMPTY) after hit (fun _ => congrArg some refused)
      exact ends_stopped (fun goes => others goes.1) (cleaned_untouched cleaned)

theorem bucket_json_ends
    (cleaned : Cleaned storage s bucket changed (([metaName, objectsName].map
      fun part => part :: bucket :: storage.dataRoot)) after) :
    wp oneFault (do
      match ← Sys.unlink ((storage.bucketPath bucket).join bucketJsonName) with
      | .ok () => pure ()
      | .error .ENOENT => pure ()
      | .error e => throw (.Io (.os e))
      match ← Sys.rmdir (storage.bucketPath bucket) with
      | .ok () => pure ()
      | .error .ENOENT => pure ()
      | .error e => throw (.Io (.os e)) : Op Unit)
      (BucketEnds storage s bucket (StopsLate fault changed ((deleteStages storage s bucket).drop 4)))
      (after, left 4 fault) := by
  simp only [Prog.send_bind]
  have located := locate_piece root limit valid inside cleaned
    (by decide : isName bucketJsonName = true) (by decide)
  have same : after.look (bucketJsonName :: bucket :: storage.dataRoot) =
      s.look (bucketJsonName :: bucket :: storage.dataRoot) := by
    rw [cleaned.seen, without_other]
    simp
  by_cases hit : fault = some 4
  · subst hit
    apply wp_failed (.unlink _) (.error Errno.EIO) rfl
    exact ends_stopped (fun goes => goes.2 rfl) (cleaned_untouched cleaned)
  · by_cases free : s.look (bucketJsonName :: bucket :: storage.dataRoot) = some .dir
    · have refused := FS.unlink_dir located (same.trans free)
      apply wp_answered (.unlink _) (.error .EISDIR) after hit (fun _ => congrArg some refused)
      exact ends_stopped (fun goes => goes.1 free) (cleaned_untouched cleaned)
    · apply wp_unlink_goes located (by rwa [same]) hit
      rintro last answer (rfl | rfl) becomes
      · apply wp_mono (bucket_dir_ends root limit valid inside (cleaned_next cleaned becomes))
        exact fun _ _ final => ends_gone ⟨free, hit⟩ final
      · apply wp_mono (bucket_dir_ends root limit valid inside (cleaned_next cleaned becomes))
        exact fun _ _ final => ends_gone ⟨free, hit⟩ final

theorem meta_dir_ends
    (cleaned : Cleaned storage s bucket changed (([objectsName].map
      fun part => part :: bucket :: storage.dataRoot)) after) :
    wp oneFault (do
      removeDirGuarded (storage.metaDir bucket) bucket
      match ← Sys.unlink ((storage.bucketPath bucket).join bucketJsonName) with
      | .ok () => pure ()
      | .error .ENOENT => pure ()
      | .error e => throw (.Io (.os e))
      match ← Sys.rmdir (storage.bucketPath bucket) with
      | .ok () => pure ()
      | .error .ENOENT => pure ()
      | .error e => throw (.Io (.os e)) : Op Unit)
      (BucketEnds storage s bucket (StopsLate fault changed ((deleteStages storage s bucket).drop 3)))
      (after, left 3 fault) := by
  have located : after.locate (storage.metaDir bucket) = .ok (metaName :: bucket :: storage.dataRoot) :=
    locate_piece root limit valid inside cleaned (by decide) (by decide)
  have plain := join_lastPart (storage.bucketPath bucket) (by decide : isName metaName = true)
  have same : Cleared after.look (metaName :: bucket :: storage.dataRoot) ↔
      Cleared s.look (metaName :: bucket :: storage.dataRoot) := by
    have here : after.look (metaName :: bucket :: storage.dataRoot) =
        s.look (metaName :: bucket :: storage.dataRoot) := by
      rw [cleaned.seen, without_other]
      simp
    have below : ∀ part, after.look (part :: metaName :: bucket :: storage.dataRoot) =
        s.look (part :: metaName :: bucket :: storage.dataRoot) := by
      intro part
      exact cleaned_same cleaned (by simp)
    simp only [Cleared, here, below]
  rw [wp_bind]
  by_cases goes : Cleared s.look (metaName :: bucket :: storage.dataRoot) ∧ fault ≠ some 3
  · apply wp_removeDir_goes located plain (List.cons_ne_nil _ _) (same.mpr goes.1) goes.2
    intro last becomes
    apply wp_mono (bucket_json_ends root limit valid inside (cleaned_next cleaned becomes))
    exact fun _ _ final => ends_gone goes final
  · apply wp_removeDir_stops located plain (List.cons_ne_nil _ _)
    · rwa [same]
    · exact fun _ _ => ends_stopped goes (cleaned_untouched cleaned)

/-- The removals, once the bucket is found to be empty. -/
theorem objects_dir_ends (looked : fault ≠ some 0) (read : fault ≠ some 1)
    (empty : Cleared s.look (objectsName :: bucket :: storage.dataRoot)) :
    wp oneFault (do
      removeDirGuarded (storage.objectsDir bucket) bucket
      removeDirGuarded (storage.metaDir bucket) bucket
      match ← Sys.unlink ((storage.bucketPath bucket).join bucketJsonName) with
      | .ok () => pure ()
      | .error .ENOENT => pure ()
      | .error e => throw (.Io (.os e))
      match ← Sys.rmdir (storage.bucketPath bucket) with
      | .ok () => pure ()
      | .error .ENOENT => pure ()
      | .error e => throw (.Io (.os e)) : Op Unit)
      (BucketEnds storage s bucket (StopsLate fault False (deleteStages storage s bucket)))
      (s, left 2 fault) := by
  have cleaned : Cleaned storage s bucket ((False ∨ False) ∨ False) [] s := by
    refine ⟨?_, rfl, ?_, ?_⟩
    · funext path
      simp [without]
    · simp
    · simp
  have located : s.locate (storage.objectsDir bucket) = .ok (objectsName :: bucket :: storage.dataRoot) :=
    locate_piece root limit valid inside cleaned (by decide) (by decide)
  have plain := join_lastPart (storage.bucketPath bucket) (by decide : isName objectsName = true)
  rw [wp_bind]
  by_cases goes : Cleared s.look (objectsName :: bucket :: storage.dataRoot) ∧ fault ≠ some 2
  · apply wp_removeDir_goes located plain (List.cons_ne_nil _ _) goes.1 goes.2
    intro last becomes
    apply wp_mono (meta_dir_ends root limit valid inside (cleaned_next cleaned becomes))
    exact fun _ _ final =>
      ends_gone ⟨inside, looked⟩ (ends_gone ⟨empty, read⟩ (ends_gone goes final))
  · apply wp_removeDir_stops located plain (List.cons_ne_nil _ _) goes
    exact fun _ _ => ends_gone ⟨inside, looked⟩ (ends_gone ⟨empty, read⟩
      (ends_stopped goes (cleaned_untouched cleaned)))

omit inside in
theorem delete_ends :
    wp oneFault (deleteBucket storage bucket)
      (BucketEnds storage s bucket (StopsLate fault False (deleteStages storage s bucket)))
      (s, fault) := by
  have start : (s, fault) = (s, left 0 fault) := by rw [left_start]
  rw [start]
  unfold deleteBucket
  rw [wp_bind, wp_lift, valid]
  simp only [Prog.send_bind]
  have short : utf8Len bucket ≤ 255 := le_trans (bucket_name_facts valid).2.1 (by decide)
  have located : s.locate (storage.bucketPath bucket) = .ok (bucket :: storage.dataRoot) :=
    FS.locate_name (locate_root storage s) root (bucket_is_name valid) (fits_limit limit short)
  by_cases hit : fault = some 0
  · subst hit
    apply wp_failed (.exists _) false rfl
    exact ends_early (fun goes => goes.2 rfl) not_false
  have looked : ∀ choice, Call.perform (.exists (storage.bucketPath bucket)) choice s =
      some ((s.look (bucket :: storage.dataRoot)).isSome, s) := by
    intro choice
    exact congrArg (fun found => some (found, s)) (FS.exists_located located)
  apply wp_answered (.exists _) _ s hit looked
  cases present : s.look (bucket :: storage.dataRoot) with
  | none => exact ends_early (fun goes => nomatch present.symm.trans goes.1) not_false
  | some entry =>
  simp only [Option.isSome_some, Bool.not_true, Bool.false_eq_true, if_false]
  by_cases read : fault = some 1
  · subst read
    apply wp_failed (.readDir _) (.error Errno.EIO) rfl
    by_cases there : s.look (bucket :: storage.dataRoot) = some .dir
    · exact ends_gone ⟨there, hit⟩ (ends_early (fun goes => goes.2 rfl) (by simp))
    · exact ends_early (fun goes => there goes.1) not_false
  apply wp_earlier read
  cases entry with
  | file content =>
      have lost : s.locate (storage.objectsDir bucket) = .error .ENOTDIR :=
        FS.locate_name_file located present (by decide)
      apply (wp_readDir_lost (FS.locateDir_lost lost)).mpr
      rintro reply same
      obtain rfl := Except.ok.inj same
      exact ends_early (fun goes => nomatch present.symm.trans goes.1) not_false
  | dir =>
      have first : (⟨0, s.look (bucket :: storage.dataRoot) = some .dir, False⟩ : Stage).Goes fault :=
        ⟨present, hit⟩
      have objects : s.locate (storage.objectsDir bucket) =
          .ok (objectsName :: bucket :: storage.dataRoot) :=
        locate_in_bucket objectsName valid root present limit (by decide) (by decide)
      have refusal : ∀ (error : StorageError) plan,
          ¬ Cleared s.look (objectsName :: bucket :: storage.dataRoot) →
          BucketEnds storage s bucket (StopsLate fault False (deleteStages storage s bucket))
            (.error error) (s, plan) :=
        fun _ _ full => ends_gone first (ends_early (fun goes => full goes.1) (by simp))
      cases seen : s.look (objectsName :: bucket :: storage.dataRoot) with
      | none =>
          apply (wp_readDir_lost (FS.locateDir_absent objects seen)).mpr
          rintro reply same
          obtain rfl := Except.ok.inj same
          exact objects_dir_ends root limit valid present hit read (.inl seen)
      | some entry =>
          cases entry with
          | file content =>
              apply (wp_readDir_lost (FS.locateDir_file objects seen)).mpr
              rintro reply same
              obtain rfl := Except.ok.inj same
              exact refusal _ _ (by simp [Cleared, seen])
          | dir =>
              apply wp_readDir (FS.locateDir_dir objects seen)
              rintro order _ entries reply same
              obtain rfl := Except.ok.inj same
              cases order with
              | nil =>
                  have empty : ∀ part, s.look (part :: objectsName :: bucket :: storage.dataRoot) = none := by
                    simpa using entries
                  exact objects_dir_ends root limit valid present hit read (.inr ⟨seen, empty⟩)
              | cons part rest =>
                  have there := (entries part).mp List.mem_cons_self
                  refine refusal _ _ ?_
                  rintro (gone | ⟨_, empty⟩)
                  · exact nomatch seen.symm.trans gone
                  · exact there (empty part)

end Deleting
/-! ### Creating -/

/-- The new bucket directory, in which only some pieces are there yet. -/
structure Begun (storage : FsStorage) (bucket : Str) (pieces : List Str) (after : FS) : Prop where
  root : after.look storage.dataRoot = some .dir
  made : after.look (bucket :: storage.dataRoot) = some .dir
  limit : after.nameMax = none ∨ after.nameMax = some 255
  vacant : ∀ part, part ∉ pieces → after.look (part :: bucket :: storage.dataRoot) = none

section Directories
variable {s : FS} {path : PathBuf} {place : Path} {fault : Option Nat} {issued : Nat}
  {post : Except Errno Unit → FS × Option Nat → Prop}

/-- A directory that is there already is looked for a second time, which may fail. -/
theorem wp_createDir_there (height : Nat) (located : s.locate path = .ok place)
    (inside : s.look place = some .dir)
    (goes : fault ≠ some (issued + 1) → post (.ok ()) (s, left (issued + 2) fault))
    (stops : ∀ e rest, fault = some (issued + 1) → post (.error e) (s, rest)) :
    wp oneFault (createDirUpTo height path) post (s, left issued fault) := by
  have taken : s.mkdir path = (.error .EEXIST, s) := FS.mkdir_present located (by simp [inside])
  have found : ∀ choice, Call.perform (.isDir path) choice s = some (true, s) := by
    intro choice
    exact congrArg (fun found => some (found, s)) (FS.isDir_located located inside)
  rw [createDirUpTo.eq_def]
  simp only [Prog.send_bind]
  by_cases hit : fault = some issued
  · subst hit
    apply wp_failed (.mkdir path) (.error Errno.EIO) rfl
    have spent : ((s, none) : FS × Option Nat) = (s, left (issued + 1) (some issued)) := by
      rw [left_past (Nat.lt_succ_self issued)]
    rw [spent]
    have past : some issued ≠ some (issued + 1) := by simp
    apply wp_answered (.isDir path) true s past found
    exact goes past
  · apply wp_answered (.mkdir path) (.error .EEXIST) s hit (fun _ => congrArg some taken)
    by_cases later : fault = some (issued + 1)
    · subst later
      apply wp_failed (.isDir path) false rfl
      exact stops _ _ rfl
    · apply wp_answered (.isDir path) true s later found
      exact goes later

/-- A directory that is made; when that fails, it is not there to be found. -/
theorem wp_createDir_made (height : Nat) (located : s.locate path = .ok place)
    (absent : s.look place = none) (inside : s.look place.tail = some .dir)
    (goes : fault ≠ some issued → post (.ok ()) (s.mkdirAt place, left (issued + 1) fault))
    (stops : ∀ e rest, fault = some issued → post (.error e) (s, rest)) :
    wp oneFault (createDirUpTo height path) post (s, left issued fault) := by
  rw [createDirUpTo.eq_def]
  simp only [Prog.send_bind]
  by_cases hit : fault = some issued
  · subst hit
    apply wp_failed (.mkdir path) (.error Errno.EIO) rfl
    have nowhere : ∀ choice, Call.perform (.isDir path) choice s = some (false, s) := by
      intro choice
      have missing : s.isDir path = false := by
        simp [FS.isDir, located, FS.look_none.mp absent]
      exact congrArg (fun found => some (found, s)) missing
    have spent : ((s, none) : FS × Option Nat) = (s, left (issued + 1) (some issued)) := by
      rw [left_past (Nat.lt_succ_self issued)]
    rw [spent]
    apply wp_answered (.isDir path) false s (by simp) nowhere
    exact stops _ _ rfl
  · have new := FS.mkdir_new located absent inside
    apply wp_answered (.mkdir path) (.ok ()) _ hit (fun _ => congrArg some new)
    exact goes hit

end Directories

section Creating
variable {crates : Crates} {storage : FsStorage} {s after : FS} {bucket : Str} {fault : Option Nat}
  {changed : Prop} {pieces : List Str}

theorem locate_begun (valid : validateBucketName bucket = .ok ())
    (begun : Begun storage bucket pieces after) {part : Str} (good : isName part = true)
    (short : utf8Len part ≤ 255) :
    after.locate ((storage.bucketPath bucket).join part) = .ok (part :: bucket :: storage.dataRoot) :=
  locate_in_bucket part valid begun.root begun.made begun.limit good short

theorem begun_next (begun : Begun storage bucket pieces after) (part : Str) :
    Begun storage bucket (part :: pieces) (after.mkdirAt (part :: bucket :: storage.dataRoot)) where
  root := FS.mkdirAt_kept _ begun.root
  made := FS.mkdirAt_kept _ begun.made
  limit := begun.limit
  vacant := by
    intro other new
    simp only [List.mem_cons, not_or] at new
    simp [new.1, begun.vacant other new.2]

/-- The directory was not there before, so anything that stops now has changed something. -/
theorem ends_begun {stage : Stage} {rest : List Stage} {error : StorageError} {plan : Option Nat}
    (absent : s.look (bucket :: storage.dataRoot) = none)
    (made : after.look (bucket :: storage.dataRoot) = some .dir) (late : changed) (stops : ¬ stage.Goes fault) :
    BucketEnds storage s bucket (StopsLate fault changed (stage :: rest)) (.error error) (after, plan) := by
  apply ends_stopped stops
  constructor
  · intro untouched
    have same := untouched []
    rw [List.nil_append, made, absent] at same
    cases same
  · intro early
    exact absurd late early

theorem bucket_record_ends (valid : validateBucketName bucket = .ok ())
    (absent : s.look (bucket :: storage.dataRoot) = none)
    (begun : Begun storage bucket [metaName, objectsName] after) (late : changed) (content : Bytes) :
    wp oneFault (ioOp (writeFile ((storage.bucketPath bucket).join bucketJsonName) content))
      (BucketEnds storage s bucket (StopsLate fault changed ((createStages storage s bucket).drop 4)))
      (after, left 6 fault) := by
  have located := locate_begun valid begun (by decide : isName bucketJsonName = true) (by decide)
  have vacant := begun.vacant bucketJsonName (by simp)
  rw [wp_ioOp]
  unfold writeFile
  simp only [Prog.send_bind]
  by_cases hit : fault = some 6
  · subst hit
    apply wp_failed (.creat _) (.error Errno.EIO) rfl
    exact ends_begun absent begun.made late fun goes => goes.2 rfl
  · have new := FS.creat_new located vacant begun.made
    apply wp_answered (.creat _) (.ok after.nextInode) _ hit (fun _ => congrArg some new)
    by_cases last : fault = some 7
    · subst last
      apply wp_failed (.write _ _) (.error Errno.EIO) rfl
      have made : (after.newFile (bucketJsonName :: bucket :: storage.dataRoot)).look
          (bucket :: storage.dataRoot) = some .dir := by
        simp [begun.made]
      exact ends_gone ⟨trivial, hit⟩ (ends_begun absent made (.inl late) fun goes => goes.2 rfl)
    · apply wp_answered (.write _ _) (.ok ()) _ last (fun _ => rfl)
      exact ends_gone ⟨trivial, hit⟩ (ends_gone ⟨trivial, last⟩ (ends_done ()))

theorem bucket_pieces_ends (valid : validateBucketName bucket = .ok ())
    (absent : s.look (bucket :: storage.dataRoot) = none) (begun : Begun storage bucket [] after)
    (late : changed) :
    wp oneFault (do
      ioOp (createDirAll (storage.objectsDir bucket))
      ioOp (createDirAll (storage.metaDir bucket))
      let createdAt ← Sys.now
      let info : BucketInfo := ⟨bucket, createdAt⟩
      ioOp (writeFile ((storage.bucketPath bucket).join bucketJsonName)
        (crates.bucketInfo.encode info)) : Op Unit)
      (BucketEnds storage s bucket (StopsLate fault changed ((createStages storage s bucket).drop 2)))
      (after, left 3 fault) := by
  rw [wp_bind, wp_ioOp]
  apply wp_createDir_made _ (locate_begun valid begun (by decide) (by decide))
    (begun.vacant objectsName (by simp)) begun.made
  · intro goes
    have begun := begun_next begun objectsName
    simp only [Except.mapError]
    rw [wp_bind, wp_ioOp]
    apply wp_createDir_made _ (locate_begun valid begun (by decide) (by decide))
      (begun.vacant metaName (by simp)) begun.made
    · intro later
      have begun := begun_next begun metaName
      apply wp_unfailing rfl
      apply wp_now
      rintro time reply same
      obtain rfl := Except.ok.inj same
      apply wp_mono (bucket_record_ends valid absent begun (Or.inl (Or.inl late)) _)
      exact fun _ _ final => ends_gone ⟨trivial, goes⟩ (ends_gone ⟨trivial, later⟩ final)
    · intro e rest hit
      exact ends_gone ⟨trivial, goes⟩
        (ends_begun absent begun.made (.inl late) fun goes => goes.2 hit)
  · intro e rest hit
    exact ends_begun absent begun.made late fun goes => goes.2 hit

theorem create_ends (tree : s.Tree) (root : s.look storage.dataRoot = some .dir)
    (limit : s.nameMax = none ∨ s.nameMax = some 255) (valid : validateBucketName bucket = .ok ()) :
    wp oneFault (createBucket crates storage bucket)
      (BucketEnds storage s bucket (StopsLate fault False (createStages storage s bucket)))
      (s, fault) := by
  have start : (s, fault) = (s, left 0 fault) := by rw [left_start]
  rw [start]
  unfold createBucket
  rw [wp_bind, wp_lift, valid]
  obtain ⟨_, _, _, slash, _⟩ := name_parts (bucket_is_name valid)
  have parent : (storage.bucketPath bucket).parent = storage.rootPath := parent_join _ slash
  have short : utf8Len bucket ≤ 255 := le_trans (bucket_name_facts valid).2.1 (by decide)
  have located : s.locate (storage.bucketPath bucket) = .ok (bucket :: storage.dataRoot) :=
    FS.locate_name (locate_root storage s) root (bucket_is_name valid) (fits_limit limit short)
  simp only [parent]
  rw [wp_bind, wp_ioOp]
  apply wp_createDir_there _ (locate_root storage s) root
  · intro goes
    simp only [Except.mapError, Prog.send_bind]
    by_cases hit : fault = some 2
    · subst hit
      apply wp_failed (.mkdir _) (.error Errno.EIO) rfl
      exact ends_gone ⟨trivial, goes⟩ (ends_early (fun goes => goes.2 rfl) (by simp))
    · cases present : s.look (bucket :: storage.dataRoot) with
      | some entry =>
          have taken := FS.mkdir_present located (by simp [present])
          apply wp_answered (.mkdir _) (.error .EEXIST) s hit (fun _ => congrArg some taken)
          exact ends_gone ⟨trivial, goes⟩
            (ends_early (fun goes => nomatch present.symm.trans goes.1) (by simp))
      | none =>
          have new := FS.mkdir_new located present root
          apply wp_answered (.mkdir _) (.ok ()) _ hit (fun _ => congrArg some new)
          have begun : Begun storage bucket [] (s.mkdirAt (bucket :: storage.dataRoot)) := by
            refine ⟨FS.mkdirAt_kept _ root, by simp, limit, ?_⟩
            intro part _
            simp [FS.tree_absent tree (by simp [present] : s.look (bucket :: storage.dataRoot) ≠ _) part]
          apply wp_mono (bucket_pieces_ends valid present begun (Or.inr trivial))
          exact fun _ _ final => ends_gone ⟨trivial, goes⟩ (ends_gone ⟨present, hit⟩ final)
  · intro e rest hit
    exact ends_early (fun goes => goes.2 hit) not_false

end Creating
/-- Creating and deleting a bucket leave it as it was when they fail, whatever is in its
directory and whichever call fails, exactly if they do not stop after a stage that has already
changed something. -/
theorem bucket_calls_atomic_iff (crates : Crates) {storage : FsStorage} {s : FS} (tree : s.Tree)
    (root : s.look storage.dataRoot = some .dir) (limit : s.nameMax = none ∨ s.nameMax = some 255)
    (bucket : Str) (fault : Option Nat) :
    (Atomic storage bucket s fault (deleteBucket storage bucket) ↔
      (validateBucketName bucket = .ok () →
        ¬ StopsLate fault False (deleteStages storage s bucket))) ∧
    (Atomic storage bucket s fault (createBucket crates storage bucket) ↔
      (validateBucketName bucket = .ok () →
        ¬ StopsLate fault False (createStages storage s bucket))) := by
  cases valid : validateBucketName bucket with
  | error e =>
      have refused : ∀ rest : Unit → Op Unit, Atomic storage bucket s fault
          (lift (validateBucketName bucket) >>= rest) := by
        intro rest
        unfold Atomic
        rw [wp_bind, wp_lift, valid]
        exact fun _ _ => rfl
      exact ⟨iff_of_true (refused _) nofun, iff_of_true (refused _) nofun⟩
  | ok _ =>
      have deleting : Atomic storage bucket s fault (deleteBucket storage bucket) ↔ _ :=
        ends_atomic (delete_ends root limit valid)
      have creating : Atomic storage bucket s fault (createBucket crates storage bucket) ↔ _ :=
        ends_atomic (create_ends tree root limit valid)
      exact ⟨deleting.trans (by simp), creating.trans (by simp)⟩

namespace Reference

/-- The bucket `photos` with a sidecar of `a` whose body is missing. -/
def orphan : FS :=
  let bucketDir := bucket :: storage.dataRoot
  ((((disk none).mkdirAt bucketDir).mkdirAt (objectsName :: bucketDir)).mkdirAt
    (metaName :: bucketDir)).newFile (FsStorage.sidecarName ['a'] :: metaName :: bucketDir)

end Reference

/-- A fault at the creation of the bucket directory is harmless, one at that of `meta/` is not. -/
theorem bucket_calls_atomic_photos :
    Atomic Reference.storage Reference.bucket (Reference.disk none) (some 2)
      (createBucket Crates.reference Reference.storage Reference.bucket) ∧
    ¬ Atomic Reference.storage Reference.bucket (Reference.disk none) (some 4)
      (createBucket Crates.reference Reference.storage Reference.bucket) := by
  have root := (Reference.disk_empty none).root
  have absent := (Reference.disk_empty none).nothing [Reference.bucket] (by simp)
  have valid : validateBucketName Reference.bucket = .ok () := by decide
  constructor
  · apply (bucket_calls_atomic_iff Crates.reference Reference.disk_tree root (.inl rfl) _ _).2.mpr
    simp [StopsLate, Stage.Goes, createStages]
  · intro atomic
    apply (bucket_calls_atomic_iff Crates.reference Reference.disk_tree root (.inl rfl) _ _).2.mp atomic
      valid
    simp only [List.reverse_singleton, List.singleton_append] at absent
    simp [StopsLate, Stage.Goes, createStages, absent]

/-- `delete_bucket` on the bucket with the orphaned sidecar answers that it is not empty, and
has removed `objects/`. -/
theorem orphan_delete_not_atomic :
    ¬ Atomic Reference.storage Reference.bucket Reference.orphan none
      (deleteBucket Reference.storage Reference.bucket) := by
  have root : Reference.orphan.look Reference.storage.dataRoot = some .dir := by
    simp [Reference.orphan, Reference.disk, Reference.storage]
  have nothing := (Reference.disk_empty none).nothing
  have bucketDir : Reference.orphan.look (Reference.bucket :: Reference.storage.dataRoot) =
      some .dir := by
    simp [Reference.orphan, Reference.storage]
  have objectsDir : Reference.orphan.look
      (objectsName :: Reference.bucket :: Reference.storage.dataRoot) = some .dir := by
    simp [Reference.orphan]
  have empty : ∀ part, Reference.orphan.look
      (part :: objectsName :: Reference.bucket :: Reference.storage.dataRoot) = none := by
    intro part
    have absent := nothing [Reference.bucket, objectsName, part] (by simp)
    simpa [Reference.orphan, Reference.storage] using absent
  have sidecar : Reference.orphan.look
      (FsStorage.sidecarName ['a'] :: metaName :: Reference.bucket :: Reference.storage.dataRoot) ≠
        none := by
    simp [Reference.orphan]
  have stuck : ¬ Cleared Reference.orphan.look
      (metaName :: Reference.bucket :: Reference.storage.dataRoot) := by
    rintro (gone | ⟨_, childless⟩)
    · simp [Reference.orphan] at gone
    · exact sidecar (childless _)
  have atomic : Atomic Reference.storage Reference.bucket Reference.orphan none
      (deleteBucket Reference.storage Reference.bucket) ↔ _ :=
    ends_atomic (delete_ends root (.inl rfl) (by decide))
  rw [atomic, not_not]
  refine .inr ⟨⟨bucketDir, by rintro ⟨⟩⟩, .inr ⟨⟨.inr ⟨objectsDir, empty⟩, by rintro ⟨⟩⟩,
    .inr ⟨⟨.inr ⟨objectsDir, empty⟩, by rintro ⟨⟩⟩, .inl ⟨fun goes => stuck goes.1, .inr ?_⟩⟩⟩⟩
  simp [objectsDir]

end Ferrobucket
