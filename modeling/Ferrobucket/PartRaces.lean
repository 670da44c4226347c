import Ferrobucket.Completion
import Ferrobucket.DeadUploads
import Ferrobucket.Linearizable
/-! Parts of uploads sent beside each other. Every part is a register of the calls that send it;
when all of them have ended, the store is the one from before with the parts that came last, and
an upload that is then completed is put together from these. -/
namespace Ferrobucket
open Text Posix Program

/-- A call of `upload_part`. -/
structure PartUpload where
  bucket : Str
  uploadId : Str
  partNumber : Int32
  body : Body

def PartUpload.program (crates : Crates) (storage : FsStorage) (call : PartUpload) : Op Str :=
  uploadPart crates storage call.bucket call.uploadId call.partNumber.toInt call.body

/-- The part that a call sends. -/
def PartUpload.part (call : PartUpload) : Str × Int32 := (call.uploadId, call.partNumber)

def partPlace (storage : FsStorage) (part : Str × Int32) : Path :=
  FsStorage.partName part.2.toInt :: stagingPlace storage part.1

/-- The directories of the uploads that are going on. -/
def UploadStaging (storage : FsStorage) (store : Store) (dir : Path) : Prop :=
  ∃ id upload, store.staged.lookup id = some upload ∧ dir = stagingPlace storage id

theorem temp_fits {start : FS} (limit : start.nameMax = none ∨ start.nameMax = some 255) (name : Str)
    (temp : isTempName name = true) : exceeds start.nameMax name = false := by
  apply exceeds_fits limit
  rw [temp_length temp]
  decide

/-- What the calls go by, from the state they begin in. -/
def partTerms (storage : FsStorage) (store : Store) (start : FS)
    (limit : start.nameMax = none ∨ start.nameMax = some 255) : Terms where
  nameMax := start.nameMax
  staging := UploadStaging storage store
  rough := fun _ => False
  litter := start.look
  short := temp_fits limit
  smooth := fun _ _ => not_false

/-- What a call does to a part. -/
def PartUpload.Places (call : PartUpload) (part : Str × Int32) (_ after : Option FS.Entry) : Prop :=
  call.part = part ∧ failure call.body = none ∧ after = some (.file (delivered call.body))

/-- The store with other parts in its uploads. -/
structure Store.Restages (store now : Store) : Prop where
  sound : now.Sound
  buckets : now.buckets = store.buckets
  records : ∀ id, (now.staged.lookup id).map Upload.record = (store.staged.lookup id).map Upload.record

/-- Every part is a register of the calls that send it, and all files are those of a store. -/
structure PartRegisters {Thread : Type} (crates : Crates) (storage : FsStorage) (start : FS) (store : Store)
    (calls : Thread → PartUpload) (stages : Thread → Marks Thread (Str × Int32))
    (past : List (Event Thread Reply)) (s : FS) : Prop where
  cells : Cells (partPlace storage) (fun part => ∃ upload, store.staged.lookup part.1 = some upload)
    (fun thread => (calls thread).Places) start stages past s
  tree : ∃ now, store.Restages now ∧ Displays crates storage (UploadStaging storage store) s now

section Places
variable {crates : Crates} {storage : FsStorage} {store now : Store} {s after : FS} {id : Str}
  {upload : Upload} {name : Str}

theorem partPlace_injective : Function.Injective (partPlace storage) := by
  rintro ⟨id, number⟩ ⟨other, second⟩ same
  simp only [partPlace, stagingPlace, List.cons.injEq, and_true] at same
  have numbers : number = second := Int32.toInt_inj.mp (part_name_injective same.1)
  rw [numbers, same.2]

/-- No temporary name is a part, a record or a staging directory. -/
theorem staged_lasting (lasting : isTempName name = false) {dir : Path} :
    ¬ IsTemp (UploadStaging storage store) (name :: dir) := by
  rintro ⟨temp, other, same, named, _⟩
  obtain rfl := (List.cons.inj same).1
  rw [lasting] at named
  cases named

theorem part_lasting (number : Int) : isTempName (FsStorage.partName number) = false := by
  by_contra temp
  simp only [Bool.not_eq_false] at temp
  exact part_head number (temp_head temp)

theorem partPlace_lasting (part : Str × Int32) :
    ¬ IsTemp (UploadStaging storage store) (partPlace storage part) :=
  staged_lasting (part_lasting _)

theorem uuid_lasting (uuid : isUuid id = true) : isTempName id = false := by
  by_contra temp
  simp only [Bool.not_eq_false] at temp
  have long := uuid_length uuid
  rw [temp_length temp] at long
  cases long

theorem restages_refl (sound : store.Sound) : store.Restages store := ⟨sound, rfl, fun _ => rfl⟩

/-- An upload of the one store is an upload of the other. -/
theorem restages_live (restages : store.Restages now) (live : store.staged.lookup id = some upload) :
    ∃ later, now.staged.lookup id = some later ∧ later.record = upload.record := by
  have same := restages.records id
  rw [live] at same
  exact Option.map_eq_some_iff.mp same

/-- Another part for an upload. -/
theorem restages_part {number : Int} {content : Bytes} (restages : store.Restages now)
    (live : now.staged.lookup id = some upload) :
    store.Restages (now.setUpload id
      { upload with parts := upload.parts.insert (FsStorage.partName number) content }) := by
  refine ⟨⟨restages.sound.buckets, ?_⟩, restages.buckets, ?_⟩
  · intro other found present
    by_cases same : other = id
    · subst same
      rw [Store.live_setUpload] at present
      cases present
      obtain ⟨uuid, sound⟩ := restages.sound.uploads _ upload live
      exact ⟨uuid, sound_insert_part sound number content⟩
    · have kept : now.staged.lookup other = some found := by
        simpa [Store.staged, Store.setUpload, Finmap.lookup_insert_of_ne _ same] using present
      exact restages.sound.uploads other found kept
  · intro other
    rw [← restages.records other]
    by_cases same : other = id
    · subst same
      rw [Store.live_setUpload, live]
      rfl
    · simp [Store.staged, Store.setUpload, Finmap.lookup_insert_of_ne _ same]

variable (displays : Displays crates storage (UploadStaging storage store) s now)
include displays

theorem displays_staged (inside : List Str)
    (lasting : ¬ IsTemp (UploadStaging storage store) (inside.reverse ++ stagingPlace storage id)) :
    s.look (inside.reverse ++ stagingPlace storage id) =
      (now.staged.lookup id).bind fun upload => upload.view crates inside := by
  have place : inside.reverse ++ stagingPlace storage id =
      (uploadsName :: id :: inside).reverse ++ storage.dataRoot := by
    simp [stagingPlace]
  rw [place] at lasting ⊢
  rw [← view_staged]
  exact displays (uploadsName :: id :: inside) lasting

/-- The staging directory of an upload that is going on, and the way there. -/
theorem displays_upload (live : now.staged.lookup id = some upload) (uuid : isUuid id = true) :
    s.look (uploadsName :: storage.dataRoot) = some .dir ∧ s.look (stagingPlace storage id) = some .dir := by
  obtain ⟨uploads, exist, _⟩ := staged_some live
  constructor
  · have seen := displays [uploadsName] (staged_lasting (by decide))
    simpa [under, Store.view, exist] using seen
  · have seen := displays_staged displays [] (staged_lasting (uuid_lasting uuid))
    simpa [live, Upload.view] using seen

theorem displays_part (number : Int32) : s.look (partPlace storage (id, number)) =
    (now.staged.lookup id).bind fun upload =>
      bodyEntry (upload.parts.lookup (FsStorage.partName number.toInt)) := by
  have seen := displays_staged displays [FsStorage.partName number.toInt] (partPlace_lasting (id, number))
  simpa [partPlace, Upload.view, bodyEntry, part_not_meta] using seen

/-- A part that is put in its place changes the store in the same way. -/
theorem tree_part {number : Int32} {content : Bytes} (restages : store.Restages now)
    (live : now.staged.lookup id = some upload)
    (same : ∀ path, ¬ IsTemp (UploadStaging storage store) path →
      after.look path = Function.update s.look (partPlace storage (id, number)) (some (.file content)) path) :
    ∃ later, store.Restages later ∧ Displays crates storage (UploadStaging storage store) after later := by
  refine ⟨_, restages_part restages live, displays_update displays (view_change_upload live
    (view_insert_part crates upload content (part_not_meta number.toInt))) ?_⟩
  intro path lasting
  have place : (uploadsName :: id :: [FsStorage.partName number.toInt]).reverse ++ storage.dataRoot =
      partPlace storage (id, number) := by
    simp [partPlace, stagingPlace]
  rw [place]
  exact same path lasting

end Places

/-- An upload is completed and the object read back. -/
theorem wp_completeStaged {crates : Crates} {storage : FsStorage} {s : FS} {store : Store}
    {uploadId key encoded : Str} {upload : Upload} {old : Bucket} {sidecars : Names ObjectMeta}
    {content : Int → Bytes} {numbers parts : List Int} (holds : Holds crates storage s store)
    (unlimited : s.nameMax = none) (live : store.staged.lookup uploadId = some upload)
    (present : store.buckets.lookup upload.record.bucket = some old) (kept : old.sidecars = some sidecars)
    (nonempty : key ≠ []) (admitted : encodeKey key = .ok encoded) (ascending : numbers.Pairwise (· < ·))
    (listed : parts.Perm numbers) (contents : ∀ number ∈ numbers,
      upload.parts.lookup (FsStorage.partName number) = some (content number)) :
    wp faultFree (completeAndFetch crates storage upload.record.bucket key uploadId parts)
      (fun outcome after => ∃ time, outcome = .ok (assembledMeta crates upload.record content numbers time,
          assembledMeta crates upload.record content numbers time, numbers.flatMap content) ∧
        after.look (stagingPlace storage uploadId) = none) s := by
  have uuid := (holds.sound.uploads uploadId upload live).1
  unfold completeAndFetch
  rw [wp_bind]
  apply wp_mono (wp_limited (complete_refines holds unlimited upload.record.bucket key uuid parts))
  rintro outcome after ⟨⟨time, rfl, still⟩, limit⟩
  have made := complete_made crates storage content time live present kept nonempty admitted ascending
    listed contents
  simp only [made] at still ⊢
  generalize shape : assembledMeta crates upload.record content numbers time = objectMeta at still ⊢
  generalize joined : numbers.flatMap content = bytes at still ⊢
  have stored : (((store.setBucket upload.record.bucket
      (Store.storedBucket old sidecars encoded bytes objectMeta)).dropUpload uploadId).buckets.lookup
        upload.record.bucket) = some (Store.storedBucket old sidecars encoded bytes objectMeta) :=
    Finmap.lookup_insert _
  have valid := (holds.sound.buckets _ old present).valid
  have record : (Store.storedBucket old sidecars encoded bytes objectMeta).recordOf none key =
      some objectMeta := (record_insert bytes objectMeta kept admitted rfl key).trans (if_pos rfl)
  have head := (head_record storage valid stored key objectMeta).mpr record
  have body : ((store.setBucket upload.record.bucket (Store.storedBucket old sidecars encoded bytes
      objectMeta)).dropUpload uploadId).bodyOf upload.record.bucket key = some bytes := by
    unfold Store.bodyOf
    rw [stored]
    simp [Store.storedBucket, admitted, Except.toOption]
  have gone := look_upload still uploadId
  rw [staged_dropUpload, if_pos rfl] at gone
  rw [wp_bind, fetch_refines still, limit, unlimited]
  simp only [Store.getObject, head, body]
  exact ⟨time, by rw [shape], gone⟩

section Calls
variable {Thread : Type} {crates : Crates} {storage : FsStorage} {start s : FS} {store : Store}
  {calls : Thread → PartUpload} {limit : start.nameMax = none ∨ start.nameMax = some 255}

theorem parts_robust :
    Robust (partTerms storage store start limit) (PartRegisters crates storage start store calls) where
  hidden := by
    intro stages past s after same registers
    obtain ⟨cells, now, restages, displays⟩ := registers
    refine ⟨cells_hidden cells fun part _ => same _ (partPlace_lasting part), now, restages, ?_⟩
    intro rel lasting
    rw [← displays rel lasting]
    exact same _ lasting
  carries := fun _ _ event _ _ registers => ⟨cells_quiet registers.cells event, registers.tree⟩

theorem reaches_upload {nameMax : Option Nat} {uploadId : Str} (limit : nameMax = none ∨ nameMax = some 255)
    (uuid : isUuid uploadId = true) :
    Reaches nameMax (storage.uploadDir uploadId) (stagingPlace storage uploadId) := by
  have area : Reaches nameMax storage.uploadsRoot (uploadsName :: storage.dataRoot) :=
    reaches_join reaches_root (by decide) (exceeds_fits limit (by decide))
  exact reaches_join area (uuid_is_name uuid) (exceeds_fits limit (by simp [uuid_length uuid]))

variable [DecidableEq Thread] {thread : Thread} (holds : Holds crates storage start store)

/-- A call of `upload_part` among the others. -/
abbrev KeepsParts {Value : Type} (holds : Holds crates storage start store) (calls : Thread → PartUpload)
    (thread : Thread) (program : Op Value)
    (post : Ghost (Marks Thread (Str × Int32)) → Except StorageError Value → Prop)
    (ghost : Ghost (Marks Thread (Str × Int32))) : Prop :=
  Keeps (partTerms storage store start holds.limit) (PartRegisters crates storage start store calls) thread
    program post ghost

/-- What a call knows in the end: it is answered as if it had been alone, and it has put its part
in place exactly when the answer is a success. -/
def PartTold (crates : Crates) (store : Store) (call : PartUpload)
    (ghost : Ghost (Marks Thread (Str × Int32))) (outcome : Except StorageError Str) : Prop :=
  (∀ path, ¬ ghost.held.At path) ∧
    outcome = (store.uploadPart crates call.uploadId call.partNumber.toInt call.body).1 ∧
    (ghost.stage call.part ≠ none ↔ outcome.isOk = true)

omit [DecidableEq Thread] in
theorem told_unsent {call : PartUpload} {e : StorageError}
    (answered : Except.error e = (store.uploadPart crates call.uploadId call.partNumber.toInt call.body).1) :
    PartTold crates store call (⟨fun _ => none, .nothing⟩ : Ghost (Marks Thread (Str × Int32)))
      (.error e) :=
  ⟨fun _ => not_false, answered, by simp [Except.isOk, Except.toBool]⟩

/-- The staging directory is there exactly when the upload is going on. -/
theorem part_dir {world : (Thread → Ghost (Marks Thread (Str × Int32))) × List (Event Thread Reply)}
    {ghost : Ghost (Marks Thread (Str × Int32))} {id : Str} (uuid : isUuid id = true)
    (here : Here (partTerms storage store start holds.limit)
      (PartRegisters crates storage start store calls) thread world ghost s) :
    s.exists (storage.uploadDir id) = (store.staged.lookup id).isSome := by
  obtain ⟨now, restages, displays⟩ := here.extra.tree
  have same : (now.staged.lookup id).isSome = (store.staged.lookup id).isSome := by
    have records := congrArg Option.isSome (restages.records id)
    simpa using records
  have reaches : Reaches start.nameMax (storage.uploadDir id) (stagingPlace storage id) :=
    reaches_upload holds.limit uuid
  have seen := displays_staged displays [] (staged_lasting (uuid_lasting uuid))
  rw [List.reverse_nil, List.nil_append] at seen
  rw [← same]
  cases live : now.staged.lookup id with
  | some upload =>
      have inside := (displays_upload displays live uuid).2
      have located := reaches.there s here.apart.tree here.apart.limit inside
      simp [FS.exists_located located, inside]
  | none =>
      rw [live, Option.bind_none] at seen
      cases arrival : s.locate (storage.uploadDir id) with
      | error e => simp [FS.exists_lost arrival]
      | ok found =>
          obtain rfl := reaches.only s found arrival
          simp [FS.exists_located arrival, seen]

theorem keeps_part (uuid : isUuid (calls thread).uploadId = true) :
    KeepsParts holds calls thread ((calls thread).program crates storage)
      (PartTold crates store (calls thread)) ⟨fun _ => none, .nothing⟩ := by
  have robust : Robust (partTerms storage store start holds.limit)
      (PartRegisters crates storage start store calls) := parts_robust
  unfold PartUpload.program uploadPart
  by_cases small : (calls thread).partNumber.toInt ≤ 0
  · simp only [small, if_true]
    exact told_unsent (by simp [Store.uploadPart, small])
  simp only [small, if_false, Prog.send_bind]
  apply keeps_look robust rfl
  intro world s reply here step
  obtain rfl := (exists_reply step).trans (part_dir holds uuid here)
  cases live : store.staged.lookup (calls thread).uploadId with
  | none =>
      exact told_unsent (by simp [Store.uploadPart, small, live])
  | some upload =>
  simp only [Option.isSome_some, Bool.not_true, Bool.false_eq_true, if_false]
  have reaches : Reaches start.nameMax (storage.uploadDir (calls thread).uploadId)
      (stagingPlace storage (calls thread).uploadId) := reaches_upload holds.limit uuid
  have fills : ∀ file : Temp, KeepsParts holds calls thread
      (streamToFile file.inode (calls thread).body .new 0)
      (fun ghost outcome => ∃ content, ghost = ⟨fun _ => none, .writing file content⟩ ∧
        Streamed (calls thread).body outcome content) ⟨fun _ => none, .writing file []⟩ := by
    intro file
    apply tracks_mono (keeps_stream robust file (calls thread).body .new 0 [])
    rintro ghost outcome ⟨rfl, rfl⟩
    refine ⟨delivered (calls thread).body, by simp, rfl, ?_⟩
    cases failure (calls thread).body with
    | none => simp [EtagHasher.update, EtagHasher.new]
    | some e => rfl
  refine tracks_bind.mpr ?_
  apply keeps_installFile robust reaches ⟨_, upload, live, rfl⟩ fills
  · intro world s name e here absent _ _
    obtain ⟨now, restages, displays⟩ := here.extra.tree
    obtain ⟨later, there, _⟩ := restages_live restages live
    exact absurd (displays_upload displays there uuid).2 absent
  · rintro e content ⟨rfl, outcome⟩
    cases broken : failure (calls thread).body with
    | none => simp [broken] at outcome
    | some error =>
        rw [broken] at outcome
        cases outcome
        exact told_unsent (by simp [Store.uploadPart, small, live, broken])
  · intro world s file content value e _ parent here why
    obtain ⟨now, restages, displays⟩ := here.extra.tree
    have located : s.locate (storage.partPath (calls thread).uploadId (calls thread).partNumber.toInt) =
        .ok (partPlace storage (calls thread).part) := by
      apply here_locate here reaches parent (part_is_name _)
      exact exceeds_fits holds.limit (part_name_short _)
    rcases why with lost | ⟨_, place, arrived, directory⟩
    · rw [located] at lost
      cases lost
    · rw [located] at arrived
      cases arrived
      rw [PartUpload.part, displays_part displays] at directory
      obtain ⟨found, _, entry⟩ := Option.bind_eq_some_iff.mp directory
      obtain ⟨_, _, impossible⟩ := Option.map_eq_some_iff.mp entry
      cases impossible
  · rintro world s file content value found ⟨rfl, outcome⟩ here arrival free
    cases broken : failure (calls thread).body with
    | some error => simp [broken] at outcome
    | none =>
        rw [broken] at outcome
        cases outcome
        obtain ⟨rfl, inside, _⟩ := located_in reaches (part_is_name _) arrival
        have place : FsStorage.partName (calls thread).partNumber.toInt ::
            stagingPlace storage (calls thread).uploadId = partPlace storage (calls thread).part := rfl
        have moved : ∀ path, ¬ IsTemp (UploadStaging storage store) path →
            (s.move file.place (partPlace storage (calls thread).part)).look path =
              Function.update s.look (partPlace storage (calls thread).part)
                (some (.file (delivered (calls thread).body))) path := by
          intro path lasting
          have away : path ≠ file.place := by
            rintro rfl
            exact lasting (own_temp here.apart)
          rw [FS.look_move s _ (own_look here.apart)]
          by_cases same : path = partPlace storage (calls thread).part
          · subst same
            rw [Function.update_self, Function.update_self]
          · rw [Function.update_of_ne same, Function.update_of_ne away, Function.update_of_ne same]
        obtain ⟨now, restages, displays⟩ := here.extra.tree
        obtain ⟨later, there, _⟩ := restages_live restages live
        rw [place] at *
        refine ⟨_, inside, staged_lasting (part_lasting _), not_false,
          ⟨cells_next here.extra.cells ⟨upload, live⟩ rfl rfl ⟨rfl, broken, rfl⟩ ?_ ?_,
            tree_part displays restages there moved⟩, ?_⟩
        · rw [moved _ (partPlace_lasting _), Function.update_self]
        · intro other _ different
          have apart : partPlace storage other ≠ partPlace storage (calls thread).part :=
            fun equal => different (partPlace_injective equal)
          rw [moved _ (partPlace_lasting _), Function.update_of_ne apart]
        · refine ⟨fun _ => not_false, ?_, ?_⟩
          · simp [Store.uploadPart, small, live, broken, EtagHasher.finalize]
          · simp [Except.isOk, Except.toBool]

/-! ### Whole runs -/

variable {t : FS} {last : Thread → Op Str} {events : List (Event Thread Reply)} (tree : start.Tree)
  (uuids : ∀ thread, isUuid (calls thread).uploadId = true)
  (run : Interleaves (fun _ => faultFree) (fun thread => (calls thread).program crates storage)
    start events last t)
  (finished : ∀ thread, ∃ outcome, last thread = ended outcome)

/-- The calls that have sent a part. -/
def Sends (crates : Crates) (store : Store) (calls : Thread → PartUpload) (part : Str × Int32)
    (thread : Thread) : Prop :=
  (calls thread).part = part ∧
    (store.uploadPart crates part.1 part.2.toInt (calls thread).body).1.isOk = true

theorem view_unstaged {now : Store} (sound : now.Sound) {rel : List Str}
    (temp : IsTemp (UploadStaging storage store) (rel.reverse ++ storage.dataRoot)) :
    now.view crates rel = none := by
  obtain ⟨name, _, same, named, id, upload, _, rfl⟩ := temp
  obtain rfl : rel = [uploadsName, id, name] := by
    have parts : rel.reverse = [name, id, uploadsName] := List.append_cancel_right same
    simpa using congrArg List.reverse parts
  rw [view_staged]
  cases live : now.staged.lookup id with
  | none => rfl
  | some found =>
      have ordinary : name ≠ multipartJsonName := by
        rintro rfl
        exact absurd named (by decide)
      cases stored : found.parts.lookup name with
      | none => simp [Upload.view, ordinary, stored]
      | some content =>
          obtain ⟨number, rfl⟩ := (sound.uploads id found live).2.parts name content stored
          exact absurd (temp_head named) (part_head number)

include holds tree uuids run finished

/-- Any number of calls that send parts, in any order of their steps: each is answered as if it had
been alone; the disk then holds the store from before with other parts, and each part is what the
last of the calls that have sent it left, in an order that real time allows. -/
theorem parts_linearizable :
    (∀ thread, last thread = ended (store.uploadPart crates (calls thread).uploadId
      (calls thread).partNumber.toInt (calls thread).body).1) ∧
    ∃ now, store.Restages now ∧ Holds crates storage t now ∧
      ∀ id upload, store.staged.lookup id = some upload → ∃ later, now.staged.lookup id = some later ∧
        ∀ number : Int32, ∃ order : List Thread,
          History events (Sends crates store calls (id, number)) (Sends crates store calls (id, number))
            (fun thread _ after => after = some (delivered (calls thread).body))
            (upload.parts.lookup (FsStorage.partName number.toInt))
            (later.parts.lookup (FsStorage.partName number.toInt)) order := by
  have begin : Sharing (partTerms storage store start holds.limit)
      (PartRegisters crates storage start store calls) (fun _ : Thread => ⟨fun _ => none, .nothing⟩) []
      start := by
    refine ⟨⟨rfl, tree, fun _ => trivial, by rintro _ _ _ ⟨⟩, fun _ _ => .inl rfl⟩, cells_start, store,
      restages_refl holds.sound, fun rel _ => congrFun holds.seen rel⟩
  obtain ⟨ghosts, sharing, kept⟩ := pool_keeps (fun thread => keeps_part holds (uuids thread)) begin run
  have told : ∀ thread outcome, last thread = ended outcome →
      PartTold crates store (calls thread) (ghosts thread) outcome := by
    intro thread outcome done
    have own := kept thread
    rw [done] at own
    exact tracks_ended own
  have answered : ∀ thread, last thread = ended (store.uploadPart crates (calls thread).uploadId
      (calls thread).partNumber.toInt (calls thread).body).1 := by
    intro thread
    obtain ⟨outcome, done⟩ := finished thread
    rw [done, (told thread outcome done).2.1]
  obtain ⟨now, restages, displays⟩ := sharing.extra.tree
  have grows : start.Continues t := run_continues run
  refine ⟨answered, now, restages, ⟨?_, restages.sound, ?_, ?_⟩, ?_⟩
  · funext rel
    by_cases temp : IsTemp (UploadStaging storage store) (rel.reverse ++ storage.dataRoot)
    · rw [view_unstaged restages.sound temp]
      rcases sharing.apart.strays _ temp with litter | ⟨thread, place⟩
      · exact litter.trans ((congrFun holds.seen rel).trans (view_unstaged holds.sound temp))
      · exact absurd place ((told thread _ (answered thread)).1 _)
    · exact displays rel temp
  · rw [grows.limit]
    exact holds.limit
  · intro id upload live
    have same := restages.records id
    rw [live] at same
    obtain ⟨former, before, _⟩ := Option.map_eq_some_iff.mp same.symm
    exact grows.issued (holds.issued id former before)
  · intro id upload live
    obtain ⟨later, there, _⟩ := restages_live restages live
    refine ⟨later, there, fun number => ?_⟩
    have linear := sharing.extra.cells.linear (id, number) ⟨upload, live⟩
    have begins : start.look (partPlace storage (id, number)) =
        bodyEntry (upload.parts.lookup (FsStorage.partName number.toInt)) := by
      have initial : Displays crates storage (UploadStaging storage store) start store :=
        fun rel _ => congrFun holds.seen rel
      rw [displays_part initial, live, Option.bind_some]
    have ends : t.look (partPlace storage (id, number)) =
        bodyEntry (later.parts.lookup (FsStorage.partName number.toInt)) := by
      rw [displays_part displays, there, Option.bind_some]
    -- A call has come to the part exactly when it was answered with success.
    have sends : ∀ thread, Sends crates store calls (id, number) thread ↔
        (ghosts thread).stage (id, number) ≠ none := by
      intro thread
      have known := (told thread _ (answered thread)).2.2
      constructor
      · rintro ⟨same, succeeded⟩
        rw [← same] at succeeded ⊢
        exact known.mpr succeeded
      · intro marked
        obtain ⟨moment, own⟩ := Option.ne_none_iff_exists'.mp marked
        have same : (calls thread).part = (id, number) := (linear.timed thread moment own).1.1
        rw [← same] at marked ⊢
        exact ⟨rfl, known.mp marked⟩
    have served : ∃ order final, History events (Sends crates store calls (id, number))
        (Sends crates store calls (id, number))
        (fun thread _ after => after = some (delivered (calls thread).body))
        (upload.parts.lookup (FsStorage.partName number.toInt)) final order ∧
        t.look (partPlace storage (id, number)) = bodyEntry final := by
      apply linear_serves linear begins
      · exact fun thread moment own => (sends thread).mpr (Option.ne_none_iff_exists'.mpr ⟨moment, own⟩)
      · exact fun thread => (sends thread).mp
      · exact fun thread moment _ own _ => ⟨some (delivered (calls thread).body),
          (linear.timed thread moment own).1.2.2, rfl⟩
    obtain ⟨order, final, history, shown⟩ := served
    obtain rfl : later.parts.lookup (FsStorage.partName number.toInt) = final :=
      Option.map_injective (fun _ _ equal => FS.Entry.file.inj equal) (ends.symm.trans shown)
    exact ⟨order, history⟩

end Calls

/-! ### Two parts of an upload of `a` -/

namespace Reference

def uploadName : Str := "00000000-0000-4000-8000-000000000000".toList

def uploadRecord : MultipartMeta := ⟨bucket, ['a'], none⟩

/-- The staging directory is made. -/
noncomputable def areaDisk : FS :=
  (bucketDisk.mkdirAt (uploadsName :: storage.dataRoot)).mkdirAt (stagingPlace storage uploadName)

/-- The upload is begun. -/
noncomputable def uploadDisk : FS :=
  { (areaDisk.newFile (recordPlace storage uploadName)).setData areaDisk.nextInode
      (Crates.reference.multipartMeta.encode uploadRecord) with issued := [uploadName] }

def uploadStore : Store :=
  (Store.empty.setBucket bucket (.fresh info)).setUpload uploadName ⟨uploadRecord, ∅⟩

theorem uploadDisk_look : uploadDisk.look =
    Function.update (Function.update (Function.update bucketDisk.look
      (uploadsName :: storage.dataRoot) (some .dir)) (stagingPlace storage uploadName) (some .dir))
      (recordPlace storage uploadName)
        (some (.file (Crates.reference.multipartMeta.encode uploadRecord))) := by
  have named : (areaDisk.newFile (recordPlace storage uploadName)).node (recordPlace storage uploadName) =
      some (.file areaDisk.nextInode) := by simp
  have written : uploadDisk.look = ((areaDisk.newFile (recordPlace storage uploadName)).setData
      areaDisk.nextInode (Crates.reference.multipartMeta.encode uploadRecord)).look := rfl
  rw [written, FS.look_setData _ named, FS.look_newFile, Function.update_idem]
  simp only [areaDisk, FS.look_mkdirAt]

theorem uploadStore_live : uploadStore.staged.lookup uploadName = some ⟨uploadRecord, ∅⟩ :=
  Store.live_setUpload _ _ _

theorem uploadStore_only {id : Str} {upload : Upload} (live : uploadStore.staged.lookup id = some upload) :
    id = uploadName ∧ upload = ⟨uploadRecord, ∅⟩ := by
  by_cases same : id = uploadName
  · subst same
    rw [uploadStore_live] at live
    exact ⟨rfl, (Option.some.inj live).symm⟩
  · simp [uploadStore, Store.staged, Store.setUpload, Store.setBucket, Store.empty,
      Finmap.lookup_insert_of_ne _ same] at live

theorem uploadDisk_holds : Holds Crates.reference storage uploadDisk uploadStore := by
  have before := bucketDisk_holds
  refine ⟨?_, ⟨before.sound.buckets, ?_⟩, before.limit, ?_⟩
  · rw [uploadDisk_look, uploadStore, view_new_upload uploadRecord (by simp [Store.empty, Store.staged,
      Store.setBucket]), ← before.seen]
    simp only [recordPlace, stagingPlace, under_update_one, under_update_two, under_update_three]
  · intro id upload live
    obtain ⟨rfl, rfl⟩ := uploadStore_only live
    exact ⟨by decide, (by decide : validateBucketName bucket = .ok ()), by simp⟩
  · intro id upload live
    obtain ⟨rfl, rfl⟩ := uploadStore_only live
    exact List.mem_singleton_self _

theorem uploadDisk_tree : uploadDisk.Tree := by
  have top : bucketDisk.look storage.dataRoot = some .dir := look_root bucketDisk_holds
  have area : (bucketDisk.mkdirAt (uploadsName :: storage.dataRoot)).Tree :=
    FS.tree_added bucketDisk_tree (FS.look_mkdirAt _ _) top (fun _ => rfl)
  have staged : areaDisk.Tree :=
    FS.tree_added area (FS.look_mkdirAt _ _) (by simp [stagingPlace]) (fun _ => rfl)
  have absent : areaDisk.look (recordPlace storage uploadName) = none := by
    have nothing := look_staged bucketDisk_holds uploadName [multipartJsonName]
    have empty : (Store.empty.setBucket bucket (.fresh info)).staged.lookup uploadName = none := by
      simp [Store.empty, Store.staged, Store.setBucket]
    have deeper : multipartJsonName :: uploadName :: uploadsName :: storage.dataRoot ≠
        uploadsName :: storage.dataRoot := Ne.symm (ne_longer (by simp))
    rw [empty] at nothing
    simpa [areaDisk, recordPlace, stagingPlace, Function.update_of_ne deeper] using nothing
  have filled : ((areaDisk.newFile (recordPlace storage uploadName)).setData areaDisk.nextInode
      (Crates.reference.multipartMeta.encode uploadRecord)).Tree := by
    apply FS.tree_setData
    exact FS.tree_added staged (FS.look_newFile _ _) (by simp [areaDisk, recordPlace]) (by simp [absent])
  exact filled

def uploadParts : Bool → PartUpload
  | true => ⟨bucket, uploadName, 1, [.ok [1]]⟩
  | false => ⟨bucket, uploadName, 2, [.ok [2], .ok [3]]⟩

theorem upload_parts_uuid (thread : Bool) : isUuid (uploadParts thread).uploadId = true := by
  cases thread <;> decide

theorem upload_parts_run : ∃ events last t,
    Interleaves (fun _ => faultFree) (fun thread => (uploadParts thread).program Crates.reference storage)
      uploadDisk events last t ∧ ∀ thread, ∃ outcome, last thread = ended outcome := by
  have first := wp_limited (part_refines uploadDisk_holds rfl bucket (upload_parts_uuid true) 1 [.ok [1]])
  obtain ⟨one, middle, sent, ⟨_, still⟩, limit⟩ := wp_returns first
  have second := part_refines still limit bucket (upload_parts_uuid false) 2 [.ok [2], .ok [3]]
  obtain ⟨two, t, again, _⟩ := wp_returns second
  obtain ⟨events, early⟩ := runs_interleaves sent true
    (fun thread => (uploadParts thread).program Crates.reference storage) rfl
  obtain ⟨more, late⟩ := runs_interleaves again false (Function.update
    (fun thread => (uploadParts thread).program Crates.reference storage) true (ended one))
    (by rw [Function.update_of_ne (by decide)]; rfl)
  refine ⟨_, _, t, interleaves_append early late, ?_⟩
  intro thread
  cases thread with
  | false => exact ⟨two, Function.update_self ..⟩
  | true => exact ⟨one, by rw [Function.update_of_ne (by decide), Function.update_self]⟩

end Reference

section Photo
open Reference

theorem parts_linearizable_photo : ∃ (last : Bool → Op Str) (events : List (Event Bool Reply)) (t : FS),
    (∀ thread, last thread = ended (uploadStore.uploadPart Crates.reference (uploadParts thread).uploadId
      (uploadParts thread).partNumber.toInt (uploadParts thread).body).1) ∧
    ∃ now, uploadStore.Restages now ∧ Holds Crates.reference storage t now ∧
      ∃ later, now.staged.lookup uploadName = some later ∧ ∃ order : List Bool,
        History events (Sends Crates.reference uploadStore uploadParts (uploadName, 1))
          (Sends Crates.reference uploadStore uploadParts (uploadName, 1))
          (fun thread _ after => after = some (delivered (uploadParts thread).body))
          none (later.parts.lookup (FsStorage.partName 1)) order := by
  obtain ⟨events, last, t, run, finished⟩ := upload_parts_run
  obtain ⟨answered, now, restages, holds, parted⟩ :=
    parts_linearizable uploadDisk_holds uploadDisk_tree upload_parts_uuid run finished
  obtain ⟨later, live, ordered⟩ := parted uploadName _ uploadStore_live
  obtain ⟨order, history⟩ := ordered 1
  exact ⟨last, events, t, answered, now, restages, holds, later, live, order, history⟩

theorem upload_parts_sends (thread : Bool) : Sends Crates.reference uploadStore uploadParts
    (uploadName, (uploadParts thread).partNumber) thread := by
  cases thread with
  | false => exact ⟨rfl, by rw [Store.part_made Crates.reference _ uploadStore_live (by decide) rfl]; rfl⟩
  | true => exact ⟨rfl, by rw [Store.part_made Crates.reference _ uploadStore_live (by decide) rfl]; rfl⟩

end Photo
end Ferrobucket
