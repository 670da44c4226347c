import Ferrobucket.Lib.Passing
import Ferrobucket.Registers
/-! The calls on the registers, step by step, and what follows for whole runs: the calls on an
object come to its record in some order that real time allows, and each answers by what it
finds there; the same for its body; and when nobody is at work, the data root holds a store. -/
namespace Ferrobucket
open Text Posix Program

/-! ### What the calls know in the end -/

section Knowing
variable {Thread : Type} (crates : Crates) (storage : FsStorage) (start : FS) (store : Store)

/-- The bucket of the call is there, and both files of its key can be. -/
structure Ready (access : Access) (encoded : Str) : Prop where
  present : ∃ found sidecars, store.buckets.lookup access.bucket = some found ∧ found.sidecars = some sidecars
  admitted : encodeKey access.key = .ok encoded
  nonempty : encoded ≠ []
  short : exceeds start.nameMax (FsStorage.sidecarName encoded) = false

/-- A call that has ended: what it has done to the two registers agrees with its answer. -/
structure Told (access : Access) (encoded : Str) (marks : Marks Thread StoredFile)
    (outcome : Except StorageError Received) : Prop where
  record : ∀ moment before, marks (.sidecar access.bucket encoded) = some moment →
    moment.before = recordEntry crates before → ∃ after, moment.after = recordEntry crates after ∧
      access.OnRecord crates storage encoded (fun answer => answer = outcome) before after
  body : ∀ moment before, marks (.body access.bucket encoded) = some moment →
    moment.before = bodyEntry before → ∃ after, moment.after = bodyEntry after ∧
      access.OnBody crates storage encoded (fun answer => answer = outcome) before after
  recorded : access.UsesRecord outcome → marks (.sidecar access.bucket encoded) ≠ none
  bodied : access.UsesBody storage encoded outcome → marks (.body access.bucket encoded) ≠ none

/-- A call that has ended holds no temporary file, and where it could go to work it tells. -/
def Concludes (access : Access) (ghost : Ghost (Marks Thread StoredFile)) (outcome : Except StorageError Received) :
    Prop :=
  (∀ path, ¬ ghost.held.At path) ∧
    ∀ encoded, Ready start store access encoded → Told crates storage access encoded ghost.stage outcome

variable {crates storage} in
theorem told_idle {access : Access} {encoded : Str} {outcome : Except StorageError Received}
    (record : ¬ access.UsesRecord outcome) (body : ¬ access.UsesBody storage encoded outcome) :
    Told crates storage access encoded (fun _ => none : Marks Thread StoredFile) outcome :=
  ⟨by rintro _ _ ⟨⟩, by rintro _ _ ⟨⟩, fun used => absurd used record, fun used => absurd used body⟩

end Knowing

section Calls
variable {Thread : Type} [DecidableEq Thread] {crates : Crates} {storage : FsStorage} {start s : FS}
  {store : Store} {accesses : Thread → Access} {thread : Thread} {bucket key encoded : Str}
  (holds : Holds crates storage start store)

/-- A call keeps the registers. -/
abbrev KeepsRegisters {Error Value : Type} (holds : Holds crates storage start store)
    (accesses : Thread → Access) (thread : Thread) (program : Prog Call Reply Error Value)
    (post : Ghost (Marks Thread StoredFile) → Except Error Value → Prop) (ghost : Ghost (Marks Thread StoredFile)) : Prop :=
  Keeps (bucketTerms storage start holds.limit) (Registers crates storage start store accesses) thread
    program post ghost

/-- The world of a call among the others. -/
abbrev Among (holds : Holds crates storage start store) (accesses : Thread → Access) (thread : Thread)
    (world : (Thread → Ghost (Marks Thread StoredFile)) × List (Event Thread Reply)) (ghost : Ghost (Marks Thread StoredFile))
    (s : FS) : Prop :=
  Here (bucketTerms storage start holds.limit) (Registers crates storage start store accesses) thread world
    ghost s

section Among
variable {world : (Thread → Ghost (Marks Thread StoredFile)) × List (Event Thread Reply)}
  {ghost : Ghost (Marks Thread StoredFile)} {access : Access}

theorem among_limit (here : Among holds accesses thread world ghost s) :
    s.nameMax = none ∨ s.nameMax = some 255 := by
  have same : s.nameMax = start.nameMax := here.apart.limit
  rw [same]
  exact holds.limit

include holds in
theorem ready_valid (ready : Ready start store access encoded) :
    validateBucketName access.bucket = .ok () := by
  obtain ⟨found, _, present, _⟩ := ready.present
  exact (holds.sound.buckets _ found present).valid

/-- Whatever the others do, the directories are there, and no file is a directory. -/
theorem among_ready (here : Among holds accesses thread world ghost s)
    (ready : Ready start store access encoded) :
    (s.look (access.bucket :: storage.dataRoot) = some .dir ∧
      s.look (objectsPlace storage access.bucket) = some .dir ∧
      s.look (metaPlace storage access.bucket) = some .dir) ∧
    s.locate (storage.objectPath access.bucket encoded) = .ok (bodyPlace storage access.bucket encoded) ∧
    s.locate (storage.metaPath access.bucket encoded) = .ok (sidecarPlace storage access.bucket encoded) := by
  have valid := ready_valid holds ready
  obtain ⟨found, sidecars, present, kept⟩ := ready.present
  obtain ⟨now, continues, displays⟩ := here.extra.tree
  obtain ⟨bucket, records, there, having⟩ := continues_bucket continues present kept
  have dirs := displays_dirs displays valid there having
  have same : s.nameMax = start.nameMax := here.apart.limit
  have body := locate_body here.apart.tree (among_limit holds here) valid ready.admitted dirs.2.1
  have sidecar := locate_meta_path here.apart.tree (among_limit holds here) valid ready.admitted dirs.2.2
  rw [if_neg ready.nonempty] at body
  rw [same, ready.short] at sidecar
  exact ⟨dirs, body, by simpa using sidecar⟩

theorem among_not_dir (here : Among holds accesses thread world ghost s) {file : StoredFile}
    (proper : file.Proper) : s.look (file.place storage) ≠ some .dir := by
  obtain ⟨now, continues, displays⟩ := here.extra.tree
  exact displays_not_dir displays proper

/-- Either file of the object is found at its place. -/
theorem among_located {file : StoredFile} (here : Among holds accesses thread world ghost s)
    (ready : Ready start store access encoded)
    (which : file = .body access.bucket encoded ∨ file = .sidecar access.bucket encoded) :
    file.Proper ∧ s.locate (file.path storage) = .ok (file.place storage) := by
  obtain ⟨_, body, sidecar⟩ := among_ready holds here ready
  have valid := ready_valid holds ready
  rcases which with rfl | rfl
  · exact ⟨⟨valid, encoded_object ready.admitted ready.nonempty⟩, body⟩
  · exact ⟨⟨valid, access.key, ready.admitted⟩, sidecar⟩

/-- A file of the object that could not be opened or removed was not there. -/
theorem among_nofile {file : StoredFile} {e : Errno} (here : Among holds accesses thread world ghost s)
    (ready : Ready start store access encoded)
    (which : file = .body access.bucket encoded ∨ file = .sidecar access.bucket encoded)
    (why : NoFile s (file.path storage) e) :
    s.look (file.place storage) = none ∧ e = .ENOENT := by
  obtain ⟨proper, located⟩ := among_located holds here ready which
  rcases why with lost | ⟨place, arrived, ⟨absent, rfl⟩ | ⟨directory, _⟩⟩
  · rw [located] at lost
    cases lost
  · rw [located] at arrived
    cases arrived
    exact ⟨absent, rfl⟩
  · rw [located] at arrived
    cases arrived
    exact absurd directory (among_not_dir holds here proper)

/-- A file of the object can be replaced. -/
theorem among_accepts {file : StoredFile} {e : Errno} (here : Among holds accesses thread world ghost s)
    (ready : Ready start store access encoded)
    (which : file = .body access.bucket encoded ∨ file = .sidecar access.bucket encoded) :
    ¬ Refuses s (file.path storage) e := by
  obtain ⟨proper, located⟩ := among_located holds here ready which
  rintro (lost | ⟨_, place, arrived, directory⟩)
  · rw [located] at lost
    cases lost
  · rw [located] at arrived
    cases arrived
    exact among_not_dir holds here proper directory

end Among


theorem keeps_registered_put {body : Body} {contentType : Option Str}
    (same : accesses thread = .putObject bucket key body contentType) :
    KeepsRegisters holds accesses thread (putObject crates storage bucket key body contentType)
      (fun ghost outcome => Concludes crates storage start store (.putObject bucket key body contentType)
        ghost (outcome.map .object)) ⟨fun _ => none, .nothing⟩ := by
  have failed : ∀ e, Concludes crates storage start store (.putObject bucket key body contentType)
      (⟨fun _ => none, .nothing⟩ : Ghost (Marks Thread StoredFile)) (.error e) :=
    fun e => ⟨fun _ => not_false, fun _ _ => told_idle Bool.false_ne_true Bool.false_ne_true⟩
  unfold putObject
  cases valid : validateBucketName bucket with
  | error e => exact failed e
  | ok _ =>
  simp only [lift, Prog.ofExcept, Prog.done_bind, Prog.send_bind]
  apply keeps_look registers_robust rfl
  intro _ _ there _ _
  cases there with
  | false => exact failed _
  | true =>
  simp only [Bool.not_true, Bool.false_eq_true, if_false]
  cases admitted : encodeKey key with
  | error e => exact failed e
  | ok encoded =>
  simp only [Prog.done_bind]
  have reaches : Reaches start.nameMax (storage.objectsDir bucket) (objectsPlace storage bucket) :=
    reaches_objects holds.limit valid
  have reachesMeta : Reaches start.nameMax (storage.metaDir bucket) (metaPlace storage bucket) :=
    reaches_meta holds.limit valid
  refine tracks_bind.mpr ?_
  apply keeps_writeObjectBody registers_robust reaches ⟨bucket, valid, .inl rfl⟩
  · exact fun _ _ _ _ _ _ _ _ => failed _
  · exact fun e _ => failed _
  · exact fun _ _ _ _ _ _ _ _ => failed _
  · intro world s file place whole here arrival free
    obtain ⟨inside, ⟨object, rfl⟩ | ⟨_, rfl⟩⟩ := located_object valid admitted arrival
    swap
    · exact absurd inside free
    have proper : (StoredFile.body bucket encoded).Proper := ⟨valid, object⟩
    have does : (accesses thread).Does crates (.body bucket encoded)
        (s.look ((StoredFile.body bucket encoded).place storage)) (some (.file (delivered body))) := by
      rw [same]
      exact ⟨⟨rfl, admitted⟩, whole, rfl⟩
    refine ⟨_, inside, StoredFile.place_lasting proper, not_bucketRecord,
      registers_moved here.extra here.apart proper rfl rfl inside ⟨object, _, rfl⟩ does, ?_⟩
    apply keeps_look registers_robust rfl
    intro _ _ time _ _
    refine tracks_bind.mpr ?_
    -- The sidecar of an object whose call is ready can always be written.
    apply keeps_writeSidecar registers_robust admitted reachesMeta ⟨bucket, valid, .inr rfl⟩
    · intro world s name e here absent
      refine fun _ _ => ⟨fun _ => not_false, fun other ready => ?_⟩
      exact absurd (among_ready holds here ready).1.2.2 absent
    · intro world s file e _ here why
      refine ⟨fun _ => not_false, fun other ready => ?_⟩
      obtain rfl : encoded = other := Except.ok.inj (admitted.symm.trans ready.admitted)
      exact absurd why (among_accepts holds here ready (.inr rfl))
    · intro world s file found here arrival free
      obtain ⟨rfl, inside, _⟩ := located_sidecar valid admitted arrival
      have proper : (StoredFile.sidecar bucket encoded).Proper := ⟨valid, key, admitted⟩
      have does : (accesses thread).Does crates (.sidecar bucket encoded)
          (s.look ((StoredFile.sidecar bucket encoded).place storage))
          (some (.file (crates.objectMeta.encode (writtenRecord crates key body contentType time)))) := by
        rw [same]
        exact ⟨⟨rfl, admitted⟩, whole, time, rfl⟩
      refine ⟨_, inside, StoredFile.place_lasting proper, not_bucketRecord,
        registers_moved here.extra here.apart proper (by simp) rfl inside ⟨object, _, rfl, admitted⟩ does,
        fun _ => not_false, fun other ready => ?_⟩
      obtain rfl : encoded = other := Except.ok.inj (admitted.symm.trans ready.admitted)
      have stored : ∀ outcome : Except StorageError Received,
          outcome = .ok (.object ⟨key, (delivered body).length, contentType.getD defaultContentType,
            hexMd5 crates (delivered body), time⟩) →
          outcome = .ok (.object (writtenRecord crates key body contentType time)) := fun _ known => known
      refine ⟨?_, ?_, by simp [Access.bucket], by simp [Access.bucket]⟩
      · intro moment before own _
        simp only [Access.bucket, Function.update_self, Option.some.injEq] at own
        subst own
        exact ⟨some (writtenRecord crates key body contentType time), rfl, whole, time, rfl, stored⟩
      · intro moment before own _
        simp only [Access.bucket, ne_eq, reduceCtorEq, not_false_eq_true, Function.update_of_ne,
          Function.update_self, Option.some.injEq] at own
        subst own
        exact ⟨some (delivered body), rfl, whole, rfl, fun outcome known => ⟨time, stored outcome known⟩⟩

omit [DecidableEq Thread] in
/-- The answer of a call that is not ready says nothing. -/
theorem concludes_unready {access : Access} {stage : Marks Thread StoredFile} {outcome : Except StorageError Received}
    (unready : ∀ encoded, ¬ Ready start store access encoded) :
    Concludes crates storage start store access ⟨stage, .nothing⟩ outcome :=
  ⟨fun _ => not_false, fun encoded ready => absurd ready (unready encoded)⟩

theorem unready_other {access : Access} (admitted : encodeKey access.key = .ok encoded)
    (never : ¬ Ready start store access encoded) : ∀ other, ¬ Ready start store access other := by
  intro other ready
  obtain rfl : encoded = other := Except.ok.inj (admitted.symm.trans ready.admitted)
  exact never ready

include holds in
theorem unready_bucket {access : Access} {e : StorageError}
    (invalid : validateBucketName access.bucket = .error e) :
    ∀ encoded, ¬ Ready start store access encoded := by
  intro encoded ready
  have valid := ready_valid holds ready
  rw [invalid] at valid
  cases valid

theorem unready_key {access : Access} {e : StorageError} (refused : encodeKey access.key = .error e) :
    ∀ encoded, ¬ Ready start store access encoded := by
  intro encoded ready
  have admitted := ready.admitted
  rw [refused] at admitted
  cases admitted

theorem bodyEntry_some {before : Option Bytes} {content : Bytes}
    (same : some (.file content) = bodyEntry before) : before = some content := by
  cases before with
  | none => cases same
  | some found =>
      cases same
      rfl

theorem bodyEntry_none {before : Option Bytes} (same : none = bodyEntry before) : before = none := by
  cases before with
  | none => rfl
  | some found => cases same

theorem recordEntry_injective : Function.Injective (recordEntry crates) :=
  Option.map_injective fun _ _ same =>
    codec_injective crates.objectMeta (FS.Entry.file.inj same)

/-- The sidecar goes when the body is gone. -/
theorem keeps_registered_unlink {content : Bytes} {seen : List (Event Thread Reply)}
    {next : Except Errno Unit → Op Unit}
    (same : accesses thread = .deleteObject bucket key) (valid : validateBucketName bucket = .ok ())
    (admitted : encodeKey key = .ok encoded) (gone : next (.ok ()) = .done ())
    (absent : next (.error .ENOENT) = .done ())
    (other : ∀ e, e ≠ .ENOENT → next (.error e) = .fail (.Io (.os e))) :
    KeepsRegisters holds accesses thread (.call (.unlink (storage.metaPath bucket encoded)) next)
      (fun ghost outcome => Concludes crates storage start store (.deleteObject bucket key) ghost
        (outcome.map fun _ => .done))
      ⟨Function.update (fun _ => none) (.body bucket encoded) (some ⟨seen, some (.file content), none⟩),
        .nothing⟩ := by
  have proper : (StoredFile.sidecar bucket encoded).Proper := ⟨valid, key, admitted⟩
  have told : ∀ seen' before, Told crates storage (.deleteObject bucket key) encoded
      (Function.update (Function.update (fun _ => none) (.body bucket encoded)
          (some ⟨seen, some (.file content), none⟩)) (.sidecar bucket encoded)
        (some ⟨seen', before, none⟩) : Marks Thread StoredFile) (.ok .done) := by
    intro seen' before
    refine ⟨?_, ?_, by simp [Access.bucket], by simp [Access.bucket]⟩
    · intro moment found own _
      simp only [Access.bucket, Function.update_self, Option.some.injEq] at own
      subst own
      exact ⟨none, rfl, rfl, fun _ known => known⟩
    · intro moment found own shown
      simp only [Access.bucket, ne_eq, reduceCtorEq, not_false_eq_true, Function.update_of_ne,
        Function.update_self, Option.some.injEq] at own
      subst own
      obtain rfl := bodyEntry_some shown
      exact ⟨none, rfl, rfl, fun _ known => known⟩
  have concludes : ∀ stage : Marks Thread StoredFile,
      Told crates storage (.deleteObject bucket key) encoded stage (.ok .done) →
      Concludes crates storage start store (.deleteObject bucket key) ⟨stage, .nothing⟩ (.ok .done) := by
    refine fun stage known => ⟨fun _ => not_false, fun other ready => ?_⟩
    obtain rfl : encoded = other := Except.ok.inj (admitted.symm.trans ready.admitted)
    exact known
  have allowed : encodeKey (Access.deleteObject bucket key).key = .ok encoded := admitted
  apply keeps_unlink
  · intro world s place found here located present
    obtain ⟨rfl, inside, _⟩ := located_sidecar valid admitted located
    have does : (accesses thread).Does crates (.sidecar bucket encoded)
        (s.look ((StoredFile.sidecar bucket encoded).place storage)) none := by
      rw [same]
      exact ⟨⟨rfl, admitted⟩, rfl⟩
    refine ⟨_, StoredFile.place_lasting proper,
      registers_dropped here.extra proper (by simp) rfl inside does, ?_⟩
    rw [gone]
    exact concludes _ (told _ _)
  · intro world s e here why
    by_cases empty : s.look ((StoredFile.sidecar bucket encoded).place storage) = none
    · have does : (accesses thread).Does crates (.sidecar bucket encoded)
          (s.look ((StoredFile.sidecar bucket encoded).place storage))
          (s.look ((StoredFile.sidecar bucket encoded).place storage)) := by
        rw [same]
        exact ⟨⟨rfl, admitted⟩, empty⟩
      have marked := registers_looked ⟨thread, .unlink (storage.metaPath bucket encoded), .error e⟩
        here.extra proper (by simp) rfl does
      rw [empty] at marked
      refine ⟨_, marked, ?_⟩
      by_cases noent : e = .ENOENT
      · subst noent
        rw [absent]
        exact concludes _ (told _ _)
      · rw [other e noent]
        apply concludes_unready
        apply unready_other allowed
        exact fun ready => noent (among_nofile holds here ready (.inr rfl) why).2
    · refine ⟨_, registers_quiet here.extra _, ?_⟩
      have unready : ∀ other, ¬ Ready start store (.deleteObject bucket key) other := by
        apply unready_other allowed
        exact fun ready => empty (among_nofile holds here ready (.inr rfl) why).1
      by_cases noent : e = .ENOENT
      · subst noent
        rw [absent]
        exact concludes_unready unready
      · rw [other e noent]
        exact concludes_unready unready

theorem keeps_registered_delete (same : accesses thread = .deleteObject bucket key) :
    KeepsRegisters holds accesses thread (deleteObject storage bucket key)
      (fun ghost outcome => Concludes crates storage start store (.deleteObject bucket key) ghost
        (outcome.map fun _ => .done)) ⟨fun _ => none, .nothing⟩ := by
  unfold deleteObject
  cases valid : validateBucketName bucket with
  | error e =>
      exact concludes_unready (unready_bucket holds valid)
  | ok _ =>
  cases admitted : encodeKey key with
  | error e =>
      exact concludes_unready (unready_key admitted)
  | ok encoded =>
  simp only [lift, Prog.ofExcept, Prog.done_bind, Prog.send_bind]
  have allowed : encodeKey (Access.deleteObject bucket key).key = .ok encoded := admitted
  have error : ∀ e : StorageError, (Except.error e).map (fun _ : Unit => Received.done) = .error e :=
    fun _ => rfl
  apply keeps_unlink
  · intro world s place content here located present
    obtain ⟨inside, ⟨object, rfl⟩ | ⟨_, rfl⟩⟩ := located_object valid admitted located
    swap
    · rw [inside] at present
      cases present
    have proper : (StoredFile.body bucket encoded).Proper := ⟨valid, object⟩
    have does : (accesses thread).Does crates (.body bucket encoded)
        (s.look ((StoredFile.body bucket encoded).place storage)) none := by
      rw [same]
      exact ⟨⟨rfl, admitted⟩, rfl⟩
    refine ⟨_, StoredFile.place_lasting proper, registers_dropped here.extra proper rfl rfl inside does, ?_⟩
    rw [show s.look ((StoredFile.body bucket encoded).place storage) = some (.file content) from present]
    apply keeps_registered_unlink holds same valid admitted rfl rfl
    intro e other
    cases e <;> first | rfl | exact absurd rfl other
  · intro world s e here why
    by_cases empty : encoded ≠ [] ∧ s.look (bodyPlace storage bucket encoded) = none
    · have proper : (StoredFile.body bucket encoded).Proper := ⟨valid, encoded_object admitted empty.1⟩
      have does : (accesses thread).Does crates (.body bucket encoded)
          (s.look ((StoredFile.body bucket encoded).place storage))
          (s.look ((StoredFile.body bucket encoded).place storage)) := by
        rw [same]
        exact ⟨⟨rfl, admitted⟩, empty.2⟩
      have marked := registers_looked
        ⟨thread, .unlink (storage.objectPath bucket encoded), .error e⟩ here.extra proper rfl rfl does
      rw [show s.look ((StoredFile.body bucket encoded).place storage) = none from empty.2] at marked
      refine ⟨_, marked, ?_⟩
      by_cases noent : e = .ENOENT
      · subst noent
        refine ⟨fun _ => not_false, fun other ready => ?_⟩
        obtain rfl : encoded = other := Except.ok.inj (admitted.symm.trans ready.admitted)
        refine ⟨?_, ?_, Bool.false_ne_true.elim, by simp [Access.bucket]⟩
        · intro moment before own
          simp [Access.bucket] at own
        · intro moment before own shown
          simp only [Access.bucket, Function.update_self, Option.some.injEq] at own
          subst own
          obtain rfl := bodyEntry_none shown
          exact ⟨none, rfl, rfl, fun _ known => known⟩
      · have unready : ∀ other, ¬ Ready start store (.deleteObject bucket key) other :=
          unready_other allowed fun ready => noent (among_nofile holds here ready (.inl rfl) why).2
        cases e <;> exact concludes_unready unready
    · refine ⟨_, registers_quiet here.extra _, ?_⟩
      have unready : ∀ other, ¬ Ready start store (.deleteObject bucket key) other := by
        apply unready_other allowed
        exact fun ready => empty ⟨ready.nonempty, (among_nofile holds here ready (.inl rfl) why).1⟩
      cases e <;> exact concludes_unready unready

/-- A record is read: the sidecar was there and is decoded, or it was not there. -/
theorem keeps_registered_record (access : Access)
    {post : Ghost (Marks Thread StoredFile) → Except StorageError ObjectMeta → Prop}
    (valid : validateBucketName bucket = .ok ()) (admitted : encodeKey key = .ok encoded)
    (on : access.bucket = bucket ∧ access.key = key)
    (looks : ∀ entry, (accesses thread).Does crates (.sidecar bucket encoded) entry entry)
    (released : ∀ stage inode content outcome, post ⟨stage, .nothing⟩ outcome →
      post ⟨stage, .reading inode content⟩ outcome)
    (found : ∀ seen objectMeta, post ⟨Function.update (fun _ => none) (.sidecar bucket encoded)
      (some ⟨seen, recordEntry crates (some objectMeta), recordEntry crates (some objectMeta)⟩), .nothing⟩
      (.ok objectMeta))
    (missing : ∀ seen, post ⟨Function.update (fun _ => none) (.sidecar bucket encoded)
      (some ⟨seen, recordEntry crates none, recordEntry crates none⟩), .nothing⟩
      (.error (.NoSuchKey (storage.metaPath bucket encoded).display)))
    (odd : ∀ stage e, (∀ other, ¬ Ready start store access other) → post ⟨stage, .nothing⟩ (.error e)) :
    KeepsRegisters holds accesses thread (readSidecar crates (storage.metaPath bucket encoded)) post
      ⟨fun _ => none, .nothing⟩ := by
  have proper : (StoredFile.sidecar bucket encoded).Proper := ⟨valid, key, admitted⟩
  have allowed : encodeKey access.key = .ok encoded := by rw [on.2, admitted]
  unfold readSidecar readJson readFile
  refine tracks_bind.mpr (tracks_attempt.mpr ?_)
  simp only [Prog.send_bind]
  apply keeps_open
  · intro world s place content inode here located present
    obtain rfl := StoredFile.located proper located
    obtain ⟨now, continues, displays⟩ := here.extra.tree
    have shown := displays_file displays proper
    simp only [present] at shown
    obtain ⟨bucket', _, entry⟩ := Option.bind_eq_some_iff.mp shown.symm
    obtain ⟨objectMeta, _, same⟩ := Option.map_eq_some_iff.mp entry
    cases same
    have marked := registers_looked ⟨thread, .open (storage.metaPath bucket encoded), .ok inode⟩
      here.extra proper rfl rfl (looks _)
    rw [present] at marked
    refine ⟨_, StoredFile.place_lasting proper, StoredFile.place_smooth, marked, ?_⟩
    apply keeps_read registers_robust
    simp only [Prog.ofExcept, tracks, Codec.decode_encode]
    exact released _ _ _ _ (found _ objectMeta)
  · intro world s e here why
    have lost : NoFile s ((StoredFile.sidecar access.bucket encoded).path storage) e := by
      rw [on.1]
      exact why
    by_cases empty : s.look ((StoredFile.sidecar bucket encoded).place storage) = none
    · have marked := registers_looked ⟨thread, .open (storage.metaPath bucket encoded), .error e⟩
        here.extra proper rfl rfl (looks _)
      rw [empty] at marked
      refine ⟨_, marked, ?_⟩
      by_cases noent : e = .ENOENT
      · subst noent
        exact missing _
      · have unready : ∀ other, ¬ Ready start store access other :=
          unready_other allowed fun ready => noent (among_nofile holds here ready (.inr rfl) lost).2
        cases e <;> exact odd _ _ unready
    · refine ⟨_, registers_quiet here.extra _, ?_⟩
      have unready : ∀ other, ¬ Ready start store access other := unready_other allowed
        fun ready => empty (on.1 ▸ (among_nofile holds here ready (.inr rfl) lost).1)
      cases e <;> exact odd _ _ unready

theorem keeps_registered_head (same : accesses thread = .headObject bucket key) :
    KeepsRegisters holds accesses thread (headObject crates storage bucket key)
      (fun ghost outcome => Concludes crates storage start store (.headObject bucket key) ghost
        (outcome.map .object)) ⟨fun _ => none, .nothing⟩ := by
  unfold headObject
  cases valid : validateBucketName bucket with
  | error e =>
      exact concludes_unready (unready_bucket holds valid)
  | ok _ =>
  cases admitted : encodeKey key with
  | error e =>
      exact concludes_unready (unready_key admitted)
  | ok encoded =>
  simp only [lift, Prog.ofExcept, Prog.done_bind]
  have told : ∀ seen record outcome, (Access.headObject bucket key).OnRecord crates storage encoded
        (fun answer => answer = outcome) record record →
      Told crates storage (.headObject bucket key) encoded (Function.update (fun _ => none)
        (.sidecar bucket encoded) (some ⟨seen, recordEntry crates record, recordEntry crates record⟩) :
          Marks Thread StoredFile) outcome := by
    intro seen record outcome answered
    refine ⟨?_, ?_, by simp [Access.bucket], not_false.elim⟩
    · intro moment before own shown
      simp only [Access.bucket, Function.update_self, Option.some.injEq] at own
      subst own
      obtain rfl := recordEntry_injective shown
      exact ⟨record, rfl, answered⟩
    · intro moment before own
      simp [Access.bucket] at own
  apply keeps_registered_record holds (.headObject bucket key) valid admitted ⟨rfl, rfl⟩
  · intro entry
    rw [same]
    exact ⟨⟨rfl, admitted⟩, rfl⟩
  · exact fun stage inode content outcome known => ⟨fun _ => not_false, known.2⟩
  · refine fun seen objectMeta => ⟨fun _ => not_false, fun other ready => ?_⟩
    obtain rfl : encoded = other := Except.ok.inj (admitted.symm.trans ready.admitted)
    exact told seen (some objectMeta) _ ⟨rfl, fun _ same => same⟩
  · refine fun seen => ⟨fun _ => not_false, fun other ready => ?_⟩
    obtain rfl : encoded = other := Except.ok.inj (admitted.symm.trans ready.admitted)
    exact told seen none _ ⟨rfl, fun _ same => same⟩
  · exact fun stage e unready => concludes_unready unready

/-- A body is opened: it was there and will be read, or it was not there. -/
theorem keeps_registered_open (access : Access) {stage : Marks Thread StoredFile} {Value : Type}
    {next : Except Errno Handle → Op Value} {post : Ghost (Marks Thread StoredFile) → Except StorageError Value → Prop}
    (valid : validateBucketName bucket = .ok ()) (admitted : encodeKey key = .ok encoded)
    (on : access.bucket = bucket ∧ access.key = key) (fresh : stage (.body bucket encoded) = none)
    (looks : ∀ entry, (accesses thread).Does crates (.body bucket encoded) entry entry)
    (opened : ∀ seen content inode, KeepsRegisters holds accesses thread (next (.ok inode)) post
      ⟨Function.update stage (.body bucket encoded)
        (some ⟨seen, bodyEntry (some content), bodyEntry (some content)⟩), .reading inode content⟩)
    (missing : ∀ seen, KeepsRegisters holds accesses thread (next (.error .ENOENT)) post
      ⟨Function.update stage (.body bucket encoded) (some ⟨seen, bodyEntry none, bodyEntry none⟩), .nothing⟩)
    (odd : ∀ stage e, (∀ other, ¬ Ready start store access other) →
      KeepsRegisters holds accesses thread (next (.error e)) post ⟨stage, .nothing⟩) :
    KeepsRegisters holds accesses thread (.call (.open (storage.objectPath bucket encoded)) next) post
      ⟨stage, .nothing⟩ := by
  have allowed : encodeKey access.key = .ok encoded := by rw [on.2, admitted]
  apply keeps_open
  · intro world s place content inode here located present
    obtain ⟨inside, ⟨object, rfl⟩ | ⟨_, rfl⟩⟩ := located_object valid admitted located
    swap
    · rw [inside] at present
      cases present
    have proper : (StoredFile.body bucket encoded).Proper := ⟨valid, object⟩
    have marked := registers_looked ⟨thread, .open (storage.objectPath bucket encoded), .ok inode⟩
      here.extra proper fresh rfl (looks _)
    rw [show s.look ((StoredFile.body bucket encoded).place storage) = some (.file content) from present]
      at marked
    exact ⟨_, StoredFile.place_lasting proper, not_bucketRecord, marked, opened _ content inode⟩
  · intro world s e here why
    have lost : NoFile s ((StoredFile.body access.bucket encoded).path storage) e := by
      rw [on.1]
      exact why
    by_cases empty : encoded ≠ [] ∧ s.look (bodyPlace storage bucket encoded) = none
    · have proper : (StoredFile.body bucket encoded).Proper := ⟨valid, encoded_object admitted empty.1⟩
      have marked := registers_looked ⟨thread, .open (storage.objectPath bucket encoded), .error e⟩
        here.extra proper fresh rfl (looks _)
      rw [show s.look ((StoredFile.body bucket encoded).place storage) = none from empty.2] at marked
      refine ⟨_, marked, ?_⟩
      by_cases noent : e = .ENOENT
      · subst noent
        exact missing _
      · exact odd _ _ (unready_other allowed fun ready =>
          noent (among_nofile holds here ready (.inl rfl) lost).2)
    · refine ⟨_, registers_quiet here.extra _, ?_⟩
      exact odd _ _ (unready_other allowed fun ready => empty
        ⟨ready.nonempty, on.1 ▸ (among_nofile holds here ready (.inl rfl) lost).1⟩)

omit [DecidableEq Thread] in
/-- A body that was not there is told apart from a record that was not there. -/
theorem missing_apart {range : Option ByteRange} (valid : validateBucketName bucket = .ok ())
    (admitted : encodeKey key = .ok encoded) : bodyMissing storage bucket key encoded range ≠
      .NoSuchKey (storage.metaPath bucket encoded).display := by
  have shorter : key.length ≤ encoded.length := by
    rw [(encode_key_ok admitted).1]
    exact PercentEncoding.percent_encode_length _ key
  have slash : '/' ∉ encoded := fun member => (encoded_char (encoded_chars admitted _ member)).2.1 rfl
  obtain ⟨_, _, _, sidecarSlash, _⟩ := name_parts (encoded_sidecar_is_name admitted)
  intro same
  -- The one text is longer than the other.
  have long := congrArg List.length (StorageError.NoSuchKey.inj same)
  rw [StoredFile.meta_path valid sidecarSlash] at long
  cases range with
  | none =>
      rw [if_pos Option.isNone_none, StoredFile.object_path valid slash] at long
      simp [PathBuf.display, objectsName, metaName, FsStorage.sidecarName] at long
  | some byteRange =>
      rw [if_neg (by simp)] at long
      simp [PathBuf.display, metaName, FsStorage.sidecarName] at long
      omega

omit [DecidableEq Thread] in
/-- A get that came to the record alone. -/
theorem told_record {range : Option ByteRange} {seen : List (Event Thread Reply)}
    {record : Option ObjectMeta} {outcome : Except StorageError Received}
    (valid : validateBucketName bucket = .ok ()) (admitted : encodeKey key = .ok encoded)
    (answered : match record with
      | none => outcome = .error (.NoSuchKey (storage.metaPath bucket encoded).display)
      | some objectMeta => opensBody range objectMeta = false ∧ outcome = .error .RangeNotSatisfiable) :
    Told crates storage (.getObject bucket key range) encoded (Function.update (fun _ => none)
      (.sidecar bucket encoded) (some ⟨seen, recordEntry crates record, recordEntry crates record⟩))
      outcome := by
  refine ⟨?_, ?_, by simp [Access.bucket], fun used => ?_⟩
  · intro moment before own shown
    simp only [Access.bucket, Function.update_self, Option.some.injEq] at own
    subst own
    obtain rfl := recordEntry_injective shown
    refine ⟨record, rfl, rfl, ?_⟩
    rintro _ rfl
    cases record with
    | none => exact answered
    | some objectMeta => exact (if_neg (by simp [answered.1])).mpr answered.2
  · intro moment before own
    simp [Access.bucket] at own
  · cases record with
    | none =>
        subst answered
        rcases used with succeeded | missed
        · cases succeeded
        · exact absurd (Except.error.inj missed).symm (missing_apart valid admitted)
    | some objectMeta =>
        obtain ⟨_, rfl⟩ := answered
        rcases used with succeeded | missed
        · cases succeeded
        · cases missed

omit [DecidableEq Thread] in
/-- A get that came to the record and then to the body. -/
theorem told_body {range : Option ByteRange} {seen later : List (Event Thread Reply)}
    {objectMeta : ObjectMeta} {content : Option Bytes} {outcome : Except StorageError Received}
    (opens : opensBody range objectMeta = true)
    (answered : match content with
      | none => outcome = .error (bodyMissing storage bucket key encoded range)
      | some content => ∃ bytes, outcome = .ok (.stream objectMeta bytes true) ∧
          rangeWindow range objectMeta.size content = some bytes) :
    Told crates storage (.getObject bucket key range) encoded (Function.update (Function.update
      (fun _ => none) (.sidecar bucket encoded)
        (some ⟨seen, recordEntry crates (some objectMeta), recordEntry crates (some objectMeta)⟩))
      (.body bucket encoded) (some ⟨later, bodyEntry content, bodyEntry content⟩)) outcome := by
  refine ⟨?_, ?_, by simp [Access.bucket], by simp [Access.bucket]⟩
  · intro moment before own shown
    simp only [Access.bucket, ne_eq, reduceCtorEq, not_false_eq_true, Function.update_of_ne,
      Function.update_self, Option.some.injEq] at own
    subst own
    obtain rfl : some objectMeta = before := recordEntry_injective shown
    refine ⟨some objectMeta, rfl, rfl, ?_⟩
    rintro _ rfl
    refine (if_pos opens).mpr ?_
    cases content with
    | none => exact .inl answered
    | some content =>
        obtain ⟨bytes, same, _⟩ := answered
        exact .inr ⟨bytes, same⟩
  · intro moment before own shown
    simp only [Access.bucket, Function.update_self, Option.some.injEq] at own
    subst own
    obtain rfl : content = before := Option.map_injective (fun _ _ equal => FS.Entry.file.inj equal) shown
    refine ⟨content, rfl, rfl, ?_⟩
    rintro _ rfl
    cases content with
    | none => exact answered
    | some content =>
        obtain ⟨bytes, same, window⟩ := answered
        exact ⟨objectMeta, bytes, same, window⟩

/-- The stream that a get answers with delivers its part of what was opened. -/
theorem keeps_registered_collect {stage : Marks Thread StoredFile} {stream : ObjectStream} {content : Bytes} :
    KeepsRegisters holds accesses thread (ioOp stream.collect) (fun ghost outcome =>
      ghost = ⟨stage, .reading stream.handle content⟩ ∧ outcome = .ok (stream.window content))
      ⟨stage, .reading stream.handle content⟩ := by
  apply tracks_ioOp.mpr
  unfold ObjectStream.collect
  simp only [Prog.send_bind]
  apply keeps_read registers_robust
  unfold ObjectStream.window
  cases stream.limit with
  | none => exact ⟨rfl, rfl⟩
  | some limit => exact ⟨rfl, rfl⟩

theorem keeps_registered_get {range : Option ByteRange} (same : accesses thread = .getObject bucket key range) :
    KeepsRegisters holds accesses thread (getObject crates storage bucket key range)
      (fun ghost outcome => match outcome with
        | .ok (objectMeta, stream) => ∃ content, ghost.held = .reading stream.handle content ∧
            Concludes crates storage start store (.getObject bucket key range) ghost
              (.ok (.stream objectMeta (stream.window content) true))
        | .error e => Concludes crates storage start store (.getObject bucket key range) ghost (.error e))
      ⟨fun _ => none, .nothing⟩ := by
  unfold getObject
  cases valid : validateBucketName bucket with
  | error e =>
      have invalid : validateBucketName (Access.getObject bucket key range).bucket = .error e := valid
      exact concludes_unready (unready_bucket holds invalid)
  | ok _ =>
  cases admitted : encodeKey key with
  | error e =>
      have refused : encodeKey (Access.getObject bucket key range).key = .error e := admitted
      exact concludes_unready (unready_key refused)
  | ok encoded =>
  simp only [lift, Prog.ofExcept, Prog.done_bind]
  have looks : ∀ file : StoredFile, (file = .body bucket encoded ∨ file = .sidecar bucket encoded) →
      ∀ entry, (accesses thread).Does crates file entry entry := by
    rintro _ (rfl | rfl) entry
    · rw [same]
      exact ⟨⟨rfl, admitted⟩, rfl⟩
    · rw [same]
      exact ⟨⟨rfl, admitted⟩, rfl⟩
  have concludes : ∀ {stage : Marks Thread StoredFile} {held : Held} {outcome : Except StorageError Received},
      (∀ path, ¬ held.At path) → Told crates storage (.getObject bucket key range) encoded stage outcome →
      Concludes crates storage start store (.getObject bucket key range) ⟨stage, held⟩ outcome := by
    refine fun released known => ⟨released, fun other ready => ?_⟩
    obtain rfl : encoded = other := Except.ok.inj (admitted.symm.trans ready.admitted)
    exact known
  refine tracks_bind.mpr ?_
  apply keeps_registered_record holds (.getObject bucket key range) valid admitted ⟨rfl, rfl⟩
    (looks _ (.inr rfl))
  · intro stage inode content outcome kept
    cases outcome with
    | error e => exact ⟨fun _ => not_false, kept.2⟩
    | ok objectMeta =>
        apply keeps_close kept
        intro outcome known
        cases outcome with
        | error e => exact ⟨fun _ => not_false, known.2⟩
        | ok found =>
            obtain ⟨_, impossible, _⟩ := known
            cases impossible
  · intro seen objectMeta
    cases range with
    | none =>
        refine tracks_bind.mpr ?_
        apply keeps_registered_open holds (.getObject bucket key _) valid admitted ⟨rfl, rfl⟩ (by simp) (looks _ (.inl rfl))
        · intro later content inode
          refine ⟨content, rfl, concludes (fun _ => not_false) (told_body rfl ⟨content, ?_, rfl⟩)⟩
          simp [ObjectStream.window]
        · exact fun later => concludes (fun _ => not_false) (told_body rfl rfl)
        · intro stage e unready
          cases e <;> exact concludes_unready unready
    | some byteRange =>
        simp only []
        cases resolved : byteRange.resolve (UInt64.ofNat objectMeta.size) with
        | none =>
            have shut : opensBody (some byteRange) objectMeta = false := by
              simp [opensBody, rangeWindow, resolved]
            exact concludes (fun _ => not_false) (told_record valid admitted ⟨shut, rfl⟩)
        | some found =>
            have opens : opensBody (some byteRange) objectMeta = true := by
              simp [opensBody, rangeWindow, resolved]
            apply keeps_registered_open holds (.getObject bucket key _) valid admitted ⟨rfl, rfl⟩ (by simp) (looks _ (.inl rfl))
            · intro later content inode
              refine ⟨content, rfl, concludes (fun _ => not_false) (told_body opens ⟨_, rfl, ?_⟩)⟩
              simp [rangeWindow, resolved, ObjectStream.window]
            · exact fun later => concludes (fun _ => not_false) (told_body opens rfl)
            · intro stage e unready
              cases e <;> exact concludes_unready unready
  · intro seen
    exact concludes (fun _ => not_false) (told_record valid admitted rfl)
  · exact fun stage e unready => concludes_unready unready

/-- Every call, from its beginning. -/
theorem keeps_registered (thread : Thread) :
    KeepsRegisters holds accesses thread ((accesses thread).program crates storage)
      (Concludes crates storage start store (accesses thread)) ⟨fun _ => none, .nothing⟩ := by
  cases same : accesses thread with
  | putObject bucket key body contentType =>
      refine tracks_bind.mpr (tracks_mono (keeps_registered_put holds same) ?_)
      intro ghost outcome known
      cases outcome <;> exact known
  | deleteObject bucket key =>
      refine tracks_bind.mpr (tracks_mono (keeps_registered_delete holds same) ?_)
      intro ghost outcome known
      cases outcome <;> exact known
  | headObject bucket key =>
      refine tracks_bind.mpr (tracks_mono (keeps_registered_head holds same) ?_)
      intro ghost outcome known
      cases outcome <;> exact known
  | getObject bucket key range =>
      refine tracks_bind.mpr (tracks_mono (keeps_registered_get holds same) ?_)
      rintro ⟨stage, held⟩ outcome known
      cases outcome with
      | error e => exact known
      | ok found =>
          obtain ⟨content, rfl, concludes⟩ := known
          refine tracks_bind.mpr (tracks_mono (keeps_registered_collect holds) ?_)
          rintro _ _ ⟨rfl, rfl⟩
          exact concludes

end Calls

/-! ### Histories -/

section Histories
variable {Thread : Type} {crates : Crates} {storage : FsStorage} {start t : FS} {store : Store}
  {accesses : Thread → Access} {last : Thread → Op Received} {events : List (Event Thread Reply)}
  {bucket key encoded : Str} {found : Bucket} {sidecars : Names ObjectMeta}

theorem ended_injective {Value : Type} {first second : Except StorageError Value}
    (same : ended first = (ended second : Op Value)) : first = second := by
  cases first <;> cases second <;> cases same <;> rfl

theorem of_iff {file : StoredFile} {access : Access} (admitted : encodeKey key = .ok encoded)
    (which : file = .body bucket encoded ∨ file = .sidecar bucket encoded) :
    file.Of access ↔ access.bucket = bucket ∧ access.key = key := by
  have keys : encodeKey access.key = .ok encoded ↔ access.key = key :=
    ⟨fun allowed => encode_key_injective allowed admitted, fun same => same ▸ admitted⟩
  rcases which with rfl | rfl
  · exact and_congr Iff.rfl keys
  · exact and_congr Iff.rfl keys

/-- The calls on an object. -/
def CallsOn (accesses : Thread → Access) (bucket key : Str) (thread : Thread) : Prop :=
  (accesses thread).bucket = bucket ∧ (accesses thread).key = key

/-- The calls on an object that have answered from a register. -/
def AnsweredFrom (uses : Access → Except StorageError Received → Prop) (accesses : Thread → Access)
    (last : Thread → Op Received) (bucket key : Str) (thread : Thread) : Prop :=
  CallsOn accesses bucket key thread ∧
    ∃ outcome, last thread = ended outcome ∧ uses (accesses thread) outcome

/-- The calls on an object and their answers, those that have ended. -/
abbrev ServesCalls {Content : Type}
    (takes : Access → (Except StorageError Received → Prop) → Content → Content → Prop)
    (uses : Access → Except StorageError Received → Prop) (accesses : Thread → Access)
    (last : Thread → Op Received) (events : List (Event Thread Reply)) (bucket key : Str)
    (initial final : Content) (order : List Thread) : Prop :=
  History events (CallsOn accesses bucket key) (AnsweredFrom uses accesses last bucket key)
    (fun thread => takes (accesses thread) fun outcome => last thread = ended outcome) initial final order

/-- A register, seen as what its entry stands for. -/
theorem register_history {Content : Type} {file : StoredFile} {shown : Content → Option FS.Entry}
    {initial : Content} {marks : Thread → Marks Thread StoredFile}
    {uses : Access → Except StorageError Received → Prop}
    {takes : Access → (Except StorageError Received → Prop) → Content → Content → Prop}
    (linear : Linear (fun thread => (accesses thread).Does crates file) (start.look (file.place storage))
      (fun thread => marks thread file) events (t.look (file.place storage)))
    (begins : start.look (file.place storage) = shown initial)
    (of : ∀ access, file.Of access ↔ access.bucket = bucket ∧ access.key = key)
    (effects : ∀ access before after model, access.Does crates file before after → before = shown model →
      ∃ next, after = shown next ∧ takes access (fun _ => False) model next)
    (answers : ∀ thread outcome, last thread = ended outcome → file.Of (accesses thread) →
      (uses (accesses thread) outcome → marks thread file ≠ none) ∧
      ∀ moment before, marks thread file = some moment → moment.before = shown before →
        ∃ after, moment.after = shown after ∧
          takes (accesses thread) (fun answer => answer = outcome) before after) :
    ∃ order final, ServesCalls takes uses accesses last events bucket key initial final order ∧
      t.look (file.place storage) = shown final := by
  have on : ∀ thread moment, marks thread file = some moment → file.Of (accesses thread) :=
    fun thread moment marked => (linear.timed thread moment marked).1.1
  have refines : ∀ thread moment model, marks thread file = some moment → moment.before = shown model →
      ∃ next, moment.after = shown next ∧
        takes (accesses thread) (fun outcome => last thread = ended outcome) model next := by
    intro thread moment model marked shows
    by_cases concluded : ∃ outcome, last thread = ended outcome
    · obtain ⟨outcome, finished⟩ := concluded
      have same : (fun answer => last thread = ended answer) = fun answer => answer = outcome := by
        funext answer
        rw [finished]
        exact propext ⟨fun equal => (ended_injective equal).symm, fun equal => by rw [equal]⟩
      rw [same]
      exact (answers thread outcome finished (on thread moment marked)).2 moment model marked shows
    · have none : (fun answer => last thread = ended answer) = fun _ => False := by
        funext answer
        exact propext ⟨fun finished => concluded ⟨answer, finished⟩, False.elim⟩
      rw [none]
      exact effects (accesses thread) _ _ model (linear.timed thread moment marked).1 shows
  apply linear_serves linear begins
  · exact fun thread moment marked => (of _).mp (on thread moment marked)
  · rintro thread ⟨object, outcome, finished, used⟩
    exact (answers thread outcome finished ((of _).mpr object)).1 used
  · exact refines

variable [DecidableEq Thread] (holds : Holds crates storage start store) (tree : start.Tree)
  (run : Interleaves (fun _ => faultFree) (fun thread => (accesses thread).program crates storage)
    start events last t)
include holds tree run

/-- Wherever the calls have got to, the registers are kept, and a call that has ended tells. -/
theorem registered_run : ∃ ghosts : Thread → Ghost (Marks Thread StoredFile),
    Sharing (bucketTerms storage start holds.limit) (Registers crates storage start store accesses) ghosts
      events t ∧
    ∀ thread outcome, last thread = ended outcome →
      Concludes crates storage start store (accesses thread) (ghosts thread) outcome := by
  have begin : Sharing (bucketTerms storage start holds.limit)
      (Registers crates storage start store accesses)
      (fun _ : Thread => ⟨fun _ => none, .nothing⟩) [] start :=
    ⟨apart_start tree holds.limit, registers_start holds⟩
  obtain ⟨ghosts, sharing, kept⟩ := pool_keeps (fun thread => keeps_registered holds thread) begin run
  refine ⟨ghosts, sharing, fun thread outcome finished => ?_⟩
  have own := kept thread
  rw [finished] at own
  exact tracks_ended own

/-- The record of an object: whatever puts, deletes, heads and gets of any keys run beside each
other, the calls on this object come to its record one after the other, and each answers as if
the others had not been there at that moment. -/
theorem records_linearizable (present : store.buckets.lookup bucket = some found)
    (kept : found.sidecars = some sidecars) (admitted : encodeKey key = .ok encoded) (nonempty : key ≠ [])
    (short : exceeds start.nameMax (FsStorage.sidecarName encoded) = false) :
    ∃ order final, ServesCalls (Access.OnRecord crates storage encoded) Access.UsesRecord accesses last
        events bucket key (sidecars.lookup (FsStorage.sidecarName encoded)) final order ∧
      t.look (sidecarPlace storage bucket encoded) = recordEntry crates final := by
  have valid := (holds.sound.buckets bucket found present).valid
  obtain ⟨ghosts, sharing, concludes⟩ := registered_run holds tree run
  have proper : (StoredFile.sidecar bucket encoded).Proper := ⟨valid, key, admitted⟩
  apply register_history (sharing.extra.cells.linear _ proper)
  · have seen := look_sidecar holds valid present (FsStorage.sidecarName encoded)
    rw [kept, Option.bind_some] at seen
    exact seen
  · exact fun access => of_iff admitted (.inr rfl)
  · rintro access before after model ⟨of, does⟩ rfl
    cases access with
    | putObject own key body contentType =>
        obtain ⟨whole, time, rfl⟩ := does
        exact ⟨some (writtenRecord crates key body contentType time), rfl, whole, time, rfl, fun _ => False.elim⟩
    | deleteObject own key => exact ⟨none, does, rfl, fun _ => False.elim⟩
    | headObject own key => exact ⟨model, does, rfl, fun _ => False.elim⟩
    | getObject own key range => exact ⟨model, does, rfl, fun _ => False.elim⟩
  · intro thread outcome finished of
    obtain ⟨rfl, rfl⟩ := (of_iff admitted (.inr rfl)).mp of
    have empty : encoded ≠ [] := fun same => nonempty ((encoded_nil admitted).mp same)
    have told := (concludes thread outcome finished).2 encoded
      ⟨⟨found, sidecars, present, kept⟩, admitted, empty, short⟩
    exact ⟨told.recorded, told.record⟩

/-- The body of an object, in the same way. -/
theorem bodies_linearizable (present : store.buckets.lookup bucket = some found)
    (kept : found.sidecars = some sidecars) (admitted : encodeKey key = .ok encoded) (nonempty : key ≠ [])
    (short : exceeds start.nameMax (FsStorage.sidecarName encoded) = false) :
    ∃ order final, ServesCalls (Access.OnBody crates storage encoded) (Access.UsesBody storage encoded) accesses last
        events bucket key (found.objects.lookup encoded) final order ∧
      t.look (bodyPlace storage bucket encoded) = bodyEntry final := by
  have valid := (holds.sound.buckets bucket found present).valid
  obtain ⟨ghosts, sharing, concludes⟩ := registered_run holds tree run
  have empty : encoded ≠ [] := fun same => nonempty ((encoded_nil admitted).mp same)
  have proper : (StoredFile.body bucket encoded).Proper := ⟨valid, encoded_object admitted empty⟩
  apply register_history (sharing.extra.cells.linear _ proper)
  · exact look_object holds valid present encoded
  · exact fun access => of_iff admitted (.inl rfl)
  · rintro access before after model ⟨of, does⟩ rfl
    cases access with
    | putObject own key body contentType =>
        obtain ⟨whole, rfl⟩ := does
        exact ⟨some (delivered body), rfl, whole, rfl, fun _ => False.elim⟩
    | deleteObject own key => exact ⟨none, does, rfl, fun _ => False.elim⟩
    | headObject own key => exact absurd does not_false
    | getObject own key range => exact ⟨model, does, rfl, fun _ => False.elim⟩
  · intro thread outcome finished of
    obtain ⟨rfl, rfl⟩ := (of_iff admitted (.inl rfl)).mp of
    have told := (concludes thread outcome finished).2 encoded
      ⟨⟨found, sidecars, present, kept⟩, admitted, empty, short⟩
    exact ⟨told.bodied, told.body⟩

end Histories

/-! ### When nobody is at work -/

section Quiet
variable {Thread : Type} [DecidableEq Thread] {crates : Crates} {storage : FsStorage} {start t : FS}
  {store : Store} {accesses : Thread → Access} {last : Thread → Op Received}
  {events : List (Event Thread Reply)}

/-- What no call changes, a run does not change. -/
theorem run_continues {Value : Type} {pool last : Thread → Op Value}
    (run : Interleaves (fun _ => faultFree) pool start events last t) : start.Continues t := by
  have step : ∀ (_ : Thread) (call : Call) (s : FS) (reply : Reply call) (after : FS), True →
      faultFree call s reply after → s.Continues after := by
    rintro _ call s reply after - ⟨choice, performed⟩
    exact continues_perform performed
  exact interleaves_keeps FS.continues_refl FS.continues_trans step (fun _ _ => trivial) run

/-- No temporary name is in the tree of a store. -/
theorem view_no_temp (sound : store.Sound) {rel : List Str}
    (temp : IsTemp (Staging storage) (rel.reverse ++ storage.dataRoot)) : store.view crates rel = none := by
  obtain ⟨name, dir, same, named, bucket, valid, place⟩ := temp
  have spelled : ∀ top, dir = top :: bucket :: storage.dataRoot → rel = [bucket, top, name] := by
    rintro top rfl
    have parts : rel.reverse = [name, top, bucket] := List.append_cancel_right same
    simpa using congrArg List.reverse parts
  rcases place with top | top
  · rw [spelled objectsName top, view_bucket (bucket_not_uploads valid)]
    cases present : store.buckets.lookup bucket with
    | none => rfl
    | some found =>
        cases stored : found.objects.lookup name with
        | none => simp [Bucket.view, stored]
        | some body =>
            have object := (sound.buckets bucket found present).objects name body stored
            exact absurd (temp_head named) (object_head object)
  · rw [spelled metaName top, view_bucket (bucket_not_uploads valid)]
    cases present : store.buckets.lookup bucket with
    | none => rfl
    | some found =>
        cases written : (found.sidecars.bind fun sidecars => sidecars.lookup name) with
        | none => simpa [Bucket.view] using written
        | some objectMeta =>
            obtain ⟨sidecars, kept, there⟩ := Option.bind_eq_some_iff.mp written
            obtain ⟨encoded, object, rfl⟩ :=
              (sound.buckets bucket found present).sidecars sidecars name objectMeta kept there
            exact absurd (temp_head named) (sidecar_head object)

/-- When all calls have ended, the data root holds a store with the same buckets and uploads, in
which every sidecar says the key of its file; nothing is left of calls that failed. -/
theorem calls_leave_store (holds : Holds crates storage start store) (tree : start.Tree)
    (run : Interleaves (fun _ => faultFree) (fun thread => (accesses thread).program crates storage)
      start events last t)
    (finished : ∀ thread, ∃ outcome, last thread = ended outcome) :
    ∃ now, store.Continues now ∧ Holds crates storage t now := by
  obtain ⟨ghosts, sharing, concludes⟩ := registered_run holds tree run
  obtain ⟨now, continues, displays⟩ := sharing.extra.tree
  have grows : start.Continues t := run_continues run
  refine ⟨now, continues, ?_, continues.sound, ?_, ?_⟩
  · funext rel
    by_cases temp : IsTemp (Staging storage) (rel.reverse ++ storage.dataRoot)
    · rw [view_no_temp continues.sound temp]
      rcases sharing.apart.strays _ temp with litter | ⟨thread, place⟩
      · exact litter.trans (holds_no_temp holds temp)
      · obtain ⟨outcome, done⟩ := finished thread
        exact absurd place ((concludes thread outcome done).1 _)
    · exact displays rel temp
  · rw [grows.limit]
    exact holds.limit
  · intro id upload live
    rw [Store.staged, continues.uploads] at live
    exact grows.issued (holds.issued id upload live)

end Quiet

/-! ### A put and a head of `a` -/

section Photo
open Reference

def photoAccesses : Bool → Access
  | true => .putObject Reference.bucket ['a'] [.ok [1]] none
  | false => .headObject Reference.bucket ['a']

theorem photo_accesses_run : ∃ events last t,
    Interleaves (fun _ => faultFree) (fun thread => (photoAccesses thread).program Crates.reference storage)
      bucketDisk events last t ∧ (∀ thread, ∃ outcome, last thread = ended outcome) ∧
      (∃ objectMeta, last true = ended (.ok (.object objectMeta))) ∧ Precedes events true false := by
  have holds := bucketDisk_holds
  have putting : wp faultFree ((photoAccesses true).program Crates.reference storage)
      (fun outcome after => (∃ objectMeta, outcome = .ok (.object objectMeta)) ∧
        ∃ store, Holds Crates.reference storage after store) bucketDisk := by
    apply wp_bind.mpr
    apply wp_mono (put_refines holds Reference.bucket ['a'] [.ok [1]] none)
    rintro outcome after ⟨time, made, still⟩
    obtain ⟨objectMeta, _, same⟩ := Store.put_made Crates.reference bucketDisk.nameMax
      (Store.empty.setBucket Reference.bucket (.fresh info)) none time (by decide) (Finmap.lookup_insert _)
      (by decide : encodeKey ['a'] = .ok ['a']) (rfl : failure [.ok [1]] = none) (List.cons_ne_nil _ _) rfl rfl
    rw [same] at made
    subst made
    exact ⟨⟨objectMeta, rfl⟩, _, still⟩
  obtain ⟨_, middle, put, ⟨objectMeta, rfl⟩, store, still⟩ := wp_returns putting
  have asking : wp faultFree ((photoAccesses false).program Crates.reference storage)
      (fun _ _ => True) middle := by
    apply wp_bind.mpr
    apply (head_refines still Reference.bucket ['a'] _).mpr
    cases store.headObject storage middle.nameMax Reference.bucket ['a'] <;> trivial
  obtain ⟨answered, t, head, _⟩ := wp_returns asking
  obtain ⟨events, own, first⟩ := reaches_alone (runs_reaches put) true
    (fun thread => (photoAccesses thread).program Crates.reference storage) rfl
  obtain ⟨more, others, second⟩ := reaches_alone (runs_reaches head) false (Function.update
    (fun thread => (photoAccesses thread).program Crates.reference storage) true
      (ended (.ok (.object objectMeta)))) (by rw [Function.update_of_ne (by decide)])
  have stays : Function.update (Function.update
      (fun thread => (photoAccesses thread).program Crates.reference storage) true
        (ended (.ok (.object objectMeta)))) false (ended answered) true =
      ended (.ok (.object objectMeta)) := by
    rw [Function.update_of_ne (by decide), Function.update_self]
  refine ⟨_, _, t, interleaves_append first second, ?_, ⟨objectMeta, stays⟩,
    precedes_append own others (by decide)⟩
  intro thread
  cases thread with
  | false => exact ⟨answered, Function.update_self ..⟩
  | true => exact ⟨_, stays⟩

theorem records_linearizable_photo : ∃ (events : List (Event Bool Reply)) (last : Bool → Op Received) (t : FS),
    (∀ thread, ∃ outcome, last thread = ended outcome) ∧
    ∃ order final, ServesCalls (Access.OnRecord Crates.reference storage ['a']) Access.UsesRecord
        photoAccesses last events Reference.bucket ['a'] none final order ∧
      t.look (sidecarPlace storage Reference.bucket ['a']) = recordEntry Crates.reference final := by
  obtain ⟨events, last, t, run, finished, _⟩ := photo_accesses_run
  refine ⟨events, last, t, finished, ?_⟩
  exact records_linearizable bucketDisk_holds bucketDisk_tree run
    (Finmap.lookup_insert _) rfl (by decide : encodeKey ['a'] = .ok ['a']) (List.cons_ne_nil _ _) rfl

theorem bodies_linearizable_photo : ∃ (events : List (Event Bool Reply)) (last : Bool → Op Received) (t : FS),
    (∀ thread, ∃ outcome, last thread = ended outcome) ∧
    ∃ order final, ServesCalls (Access.OnBody Crates.reference storage ['a']) (Access.UsesBody storage ['a'])
        photoAccesses last events Reference.bucket ['a'] none final order ∧
      t.look (bodyPlace storage Reference.bucket ['a']) = bodyEntry final := by
  obtain ⟨events, last, t, run, finished, _⟩ := photo_accesses_run
  refine ⟨events, last, t, finished, ?_⟩
  exact bodies_linearizable bucketDisk_holds bucketDisk_tree run
    (Finmap.lookup_insert _) rfl (by decide : encodeKey ['a'] = .ok ['a']) (List.cons_ne_nil _ _) rfl

theorem calls_leave_store_photo : ∃ t now,
    (Store.empty.setBucket Reference.bucket (.fresh info)).Continues now ∧
      Holds Crates.reference storage t now := by
  obtain ⟨events, last, t, run, finished, _⟩ := photo_accesses_run
  obtain ⟨now, continues, holds⟩ := calls_leave_store bucketDisk_holds bucketDisk_tree run finished
  exact ⟨t, now, continues, holds⟩

end Photo
end Ferrobucket
