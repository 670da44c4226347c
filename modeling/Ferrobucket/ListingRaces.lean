import Ferrobucket.Lib.Passing
import Ferrobucket.ChangingListing
import Ferrobucket.Clients
import Ferrobucket.Independence
/-! A listing beside puts and deletes. It reads the directory of the bodies once and then one
sidecar for each object of its page, and the writers go on between any two of these calls. What
it has scanned is what was there in the state in which it read the directory. -/
namespace Ferrobucket
open Text Posix Program Grouping

/-! ### Calls that leave the directories alone -/

section Spare
variable {Thread : Type} (crates : Crates) (storage : FsStorage)

/-- The program makes no directory and removes none. -/
abbrev sparing {Error Value : Type} (program : Prog Call Reply Error Value) : Prop :=
  issues (fun call : Call => call.sparesDirs = true) program

variable {Value : Type}

theorem sparing_lift {Result : Type} (checked : Except StorageError Value) {rest : Value → Op Result}
    (later : ∀ value, sparing (rest value)) : sparing (lift checked >>= rest) := by
  cases checked with
  | ok value => exact later value
  | error e => trivial

theorem sparing_install {dir target : PathBuf} {fill : Handle → Op Value}
    (fills : ∀ file, sparing (fill file)) : sparing (installFile dir fill target) := by
  rw [install_steps]
  refine ⟨rfl, fun made => ?_⟩
  cases made with
  | error e => trivial
  | ok temp =>
      apply issues_bind (issues_attempt (fills temp.2))
      intro outcome
      cases outcome with
      | error e => exact ⟨rfl, fun _ => trivial⟩
      | ok value =>
          refine ⟨rfl, fun renamed => ?_⟩
          cases renamed with
          | ok _ => trivial
          | error e => exact ⟨rfl, fun _ => trivial⟩

theorem sparing_stream (file : Handle) (body : Body) (hasher : EtagHasher) (bytesWritten : Nat) :
    sparing (streamToFile file body hasher bytesWritten) := by
  induction body generalizing hasher bytesWritten with
  | nil =>
      refine ⟨rfl, fun flushed => ?_⟩
      cases flushed <;> trivial
  | cons piece rest ih =>
      cases piece with
      | error e => trivial
      | ok chunk =>
          refine ⟨rfl, fun written => ?_⟩
          cases written with
          | ok _ => exact ih _ _
          | error e => trivial

theorem sparing_json {codec : Codec Value} (path : PathBuf) (value : Value) :
    sparing (writeJson codec path value) := by
  apply sparing_install
  intro file
  refine ⟨rfl, fun written => ?_⟩
  cases written with
  | error e => trivial
  | ok _ =>
      refine ⟨rfl, fun flushed => ?_⟩
      cases flushed <;> trivial

theorem sparing_put (bucket key : Str) (body : Body) (contentType : Option Str) :
    sparing (putObject crates storage bucket key body contentType) := by
  apply sparing_lift
  intro _
  refine ⟨rfl, fun there => ?_⟩
  cases there with
  | false => trivial
  | true =>
      apply sparing_lift
      intro encoded
      show sparing (writeObjectBody crates (storage.objectsDir bucket) encoded body >>= _)
      apply issues_bind
      · apply issues_bind (sparing_install fun file => sparing_stream file body .new 0)
        exact fun _ => trivial
      · rintro ⟨etag, size⟩
        refine ⟨rfl, fun time => ?_⟩
        show sparing (writeSidecar crates (storage.metaPath bucket encoded) _ >>= _)
        exact issues_bind (sparing_json _ _) fun _ => trivial

theorem sparing_delete (bucket key : Str) : sparing (deleteObject storage bucket key) := by
  apply sparing_lift
  intro _
  apply sparing_lift
  intro encoded
  refine ⟨rfl, fun removed => ?_⟩
  cases removed with
  | error e => cases e <;> trivial
  | ok _ =>
      refine ⟨rfl, fun removed => ?_⟩
      cases removed with
      | ok _ => trivial
      | error e => cases e <;> trivial

theorem sparing_readJson {codec : Codec Value} {missing : Str → StorageError} (path : PathBuf) :
    sparing (readJson codec missing path) := by
  unfold readJson
  apply issues_bind
  · apply issues_attempt
    refine ⟨rfl, fun opened => ?_⟩
    cases opened with
    | error e => trivial
    | ok handle =>
        refine ⟨rfl, fun read => ?_⟩
        cases read <;> trivial
  · intro outcome
    cases outcome with
    | error e => cases e <;> trivial
    | ok bytes =>
        simp only []
        cases codec.decode bytes <;> trivial

theorem sparing_output (bucket : Str) (items : List Item) : sparing (buildOutput crates storage bucket items) := by
  induction items with
  | nil => trivial
  | cons item rest ih =>
      cases item with
      | object key =>
          apply sparing_lift
          intro encoded
          apply issues_bind (sparing_readJson _)
          intro objectMeta
          exact issues_bind ih fun _ => trivial
      | commonPrefix label => exact issues_bind ih fun _ => trivial

theorem sparing_list (bucket : Str) (req : ListV2Req) : sparing (listObjectsV2 crates storage bucket req) := by
  apply sparing_lift
  intro _
  refine ⟨rfl, fun there => ?_⟩
  cases there with
  | false => trivial
  | true =>
      show sparing (scanKeys storage bucket >>= _)
      apply issues_bind
      · refine ⟨rfl, fun answer => ?_⟩
        cases answer with
        | ok entries => trivial
        | error e => cases e <;> trivial
      · intro scanned
        apply sparing_lift
        intro keys
        exact issues_bind (sparing_output crates storage bucket _) fun _ => trivial

end Spare
/-! ### The listing among the others -/

/-- The keys that come out of a directory read. -/
def scanned : Except Errno (List DirEntry) → List Str
  | .ok entries => entries.filterMap fun entry => (decodeKey entry.name).toOption
  | .error _ => []

/-- An answer at which a listing fails. -/
inductive Stops {Thread : Type} (storage : FsStorage) (bucket : Str) : Event Thread Reply → Prop
  | missing (thread : Thread) : Stops storage bucket ⟨thread, .exists (storage.bucketPath bucket), false⟩
  | unread (thread : Thread) (e : Errno) :
      Stops storage bucket ⟨thread, .readDir (storage.objectsDir bucket), .error e⟩
  | lost (thread : Thread) (path : PathBuf) (e : Errno) : Stops storage bucket ⟨thread, .open path, .error e⟩

def Item.key : Item → Option Str
  | .object key => some key
  | .commonPrefix _ => none

def Item.label : Item → Option Str
  | .object _ => none
  | .commonPrefix label => some label

/-- What a page is made of, by the keys that were scanned for it. -/
structure CutFrom (req : ListV2Req) (keys : List Str) (page : ListV2Res) : Prop where
  objects : page.objects.map ObjectMeta.key = (capPage req keys).capped.filterMap Item.key
  prefixes : page.commonPrefixes = ((capPage req keys).capped.filterMap Item.label).insertionSort (· ≤ ·)
  carried : page.nextContinuationToken = (capPage req keys).nextContinuationToken
  truncated : page.isTruncated = (capPage req keys).isTruncated

section Knowing
variable {Thread : Type} (storage : FsStorage) (bucket : Str) (req : ListV2Req) (thread : Thread)

/-- The thread has read the directory, with this answer, and not as its first call. -/
def HasRead (sights : Sights Thread) (answer : Except Errno (List DirEntry)) : Prop :=
  ∃ past, sights.body = some (past ++ [⟨thread, .readDir (storage.objectsDir bucket), answer⟩]) ∧
    ∃ event ∈ past, event.thread = thread

/-- What a listing remembers of its directory read; an error is one at which it may fail. -/
def readSights (past : List (Event Thread Reply)) (answer : Except Errno (List DirEntry)) : Sights Thread :=
  let seen := past ++ [⟨thread, .readDir (storage.objectsDir bucket), answer⟩]
  ⟨some seen, match answer with
    | .ok _ => none
    | .error _ => some seen⟩

/-- The thread has been given an answer at which it fails. -/
def HasStopped (sights : Sights Thread) : Prop :=
  ∃ past event, sights.sidecar = some (past ++ [event]) ∧ event.thread = thread ∧ Stops storage bucket event

/-- What a listing knows in the end. -/
def Lister (ghost : Ghost (Sights Thread)) : Except StorageError ListV2Res → Prop
  | .ok page => ∃ answer keys, HasRead storage bucket thread ghost.stage answer ∧
      selectKeys (scanned answer) req = .ok keys ∧ CutFrom req keys page
  | .error e => HasStopped storage bucket thread ghost.stage ∨
      ∃ answer, HasRead storage bucket thread ghost.stage answer ∧
        (selectKeys (scanned answer) req = .error e ∨ ∃ keys key, selectKeys (scanned answer) req = .ok keys ∧
          key ∈ (capPage req keys).capped.filterMap Item.key ∧ encodeKey key = .error e)

end Knowing

section Listing
variable {Thread : Type} [DecidableEq Thread] {crates : Crates} {storage : FsStorage} {start : FS}
  {store : Store} {clients : Thread → Client} {limit : start.nameMax = none ∨ start.nameMax = some 255}
  {thread : Thread} {stage : Sights Thread} {Error Value : Type} {bucket : Str} {old : Bucket}

/-- Only puts store anything under these clients. -/
def PutsOnly (crates : Crates) (store : Store) (clients : Thread → Client) : Prop :=
  ∀ thread bucket encoded content objectMeta, (clients thread).Stores crates store bucket encoded content objectMeta →
    ∃ key body contentType, clients thread = .putObject bucket key body contentType

omit [DecidableEq Thread] in
/-- A sidecar names the key that it is for. -/
theorem explained_key {key encoded : Str} {past : List (Event Thread Reply)} {objectMeta : ObjectMeta}
    (holds : Holds crates storage start store) (present : store.buckets.lookup bucket = some old)
    (named : old.Named) (puts : PutsOnly crates store clients) (admitted : encodeKey key = .ok encoded)
    (explained : Explains crates storage start store clients (.sidecar bucket encoded) past
      (some (.file (crates.objectMeta.encode objectMeta)))) : objectMeta.key = key := by
  have valid := (holds.sound.buckets bucket old present).valid
  unfold Explains at explained
  cases last : lastTouch ((StoredFile.sidecar bucket encoded).path storage) past with
  | none =>
      rw [last] at explained
      have before : start.look (FsStorage.sidecarName encoded :: metaName :: bucket :: storage.dataRoot) =
          some (.file (crates.objectMeta.encode objectMeta)) := Eq.symm explained
      rw [look_sidecar holds valid present] at before
      obtain ⟨found, record, same⟩ := Option.map_eq_some_iff.mp before
      obtain ⟨sidecars, kept, looked⟩ := Option.bind_eq_some_iff.mp record
      obtain rfl := codec_injective crates.objectMeta (FS.Entry.file.inj same)
      exact named sidecars key encoded found kept admitted looked
  | some touched =>
      rw [last] at explained
      cases touched with
      | removed other => cases explained.2
      | installed other =>
          obtain ⟨written, ⟨content, found, stores, rfl⟩, same⟩ := explained
          obtain rfl := codec_injective crates.objectMeta (FS.Entry.file.inj (Option.some.inj same))
          obtain ⟨own, body, contentType, put⟩ := puts other bucket encoded content objectMeta stores
          rw [put] at stores
          obtain ⟨_, again, _, _, record⟩ := stores
          rw [record]
          exact encode_key_injective again admitted

/-- A call that only looks, remembered with what had happened until then. -/
theorem keeps_sight {call : Call} {next : Reply call → Prog Call Reply Error Value}
    {post : Ghost (Sights Thread) → Except Error Value → Prop} (quiet : call.quiet = true)
    (sight : List (Event Thread Reply) → Reply call → Sights Thread)
    (sights : ∀ past reply seen, (sight past reply).Has seen →
      stage.Has seen ∨ seen = past ++ [⟨thread, call, reply⟩])
    (all : ∀ past reply, (∀ seen, stage.Has seen → seen <+: past) →
      KeepsTraffic crates storage start store clients limit thread (next reply) post
        ⟨sight past reply, .nothing⟩) :
    KeepsTraffic crates storage start store clients limit thread (.call call next) post ⟨stage, .nothing⟩ := by
  intro world s reply after here step
  obtain rfl := quiet_same quiet step
  have untouched : ∀ file : StoredFile, file.Proper →
      touch (file.path storage) (⟨thread, call, reply⟩ : Event Thread Reply) = none := by
    intro file proper
    by_contra touched
    exact StoredFile.path_lasting proper (silent_quiet quiet _ touched)
  have before : ∀ seen, stage.Has seen → seen <+: world.2 := by
    intro seen has
    apply here.extra.seen thread
    rwa [stagesWith, Function.update_self]
  exact ⟨⟨sight world.2 reply, .nothing⟩,
    ⟨here.apart, traffic_looked _ here.extra untouched (sights world.2 reply)⟩, all world.2 reply before⟩

/-- The sidecars of a page are read one after the other. -/
theorem keeps_output (holds : Holds crates storage start store)
    (present : store.buckets.lookup bucket = some old) (named : old.Named)
    (puts : PutsOnly crates store clients) (items : List Item) :
    KeepsTraffic crates storage start store clients limit thread (buildOutput crates storage bucket items)
      (fun ghost outcome => match outcome with
        | .ok (objects, labels) => ghost.stage = stage ∧
            objects.map ObjectMeta.key = items.filterMap Item.key ∧ labels = items.filterMap Item.label
        | .error e => (ghost.stage.body = stage.body ∧ HasStopped storage bucket thread ghost.stage) ∨
            ghost.stage = stage ∧ ∃ key ∈ items.filterMap Item.key, encodeKey key = .error e)
      ⟨stage, .nothing⟩ := by
  have valid := (holds.sound.buckets bucket old present).valid
  induction items with
  | nil => exact ⟨rfl, rfl, rfl⟩
  | cons item rest ih =>
      cases item with
      | commonPrefix label =>
          refine tracks_bind.mpr (tracks_mono ih ?_)
          rintro ghost outcome known
          cases outcome with
          | error e => exact known
          | ok output =>
              obtain ⟨same, objects, labels⟩ := known
              exact ⟨same, objects, congrArg (label :: ·) labels⟩
      | object key =>
          unfold buildOutput
          cases admitted : encodeKey key with
          | error e => exact .inr ⟨rfl, key, List.mem_cons_self, admitted⟩
          | ok encoded =>
              have proper : (StoredFile.sidecar bucket encoded).Proper := ⟨valid, key, admitted⟩
              simp only [lift, Prog.ofExcept, Prog.done_bind]
              refine tracks_bind.mpr ?_
              apply keeps_readJson
              · intro stage inode content outcome kept
                cases outcome with
                | error e => exact kept
                | ok objectMeta => exact keeps_close kept fun outcome known => known
              · intro world s place content inode here located found
                obtain rfl := StoredFile.located proper located
                have traffic := traffic_looked
                  (⟨thread, .open (storage.metaPath bucket encoded), .ok inode⟩ : Event Thread Reply)
                  here.extra (fun _ _ => rfl) (fun _ has => .inl has)
                have explained := traffic.files _ proper
                rw [found] at explained
                obtain ⟨objectMeta, rfl⟩ := sidecar_record holds valid explained
                have own := explained_key holds present named puts admitted explained
                refine ⟨stage, StoredFile.place_lasting proper, not_bucketRecord, traffic, ?_⟩
                rw [Codec.decode_encode]
                refine tracks_bind.mpr (tracks_mono ih ?_)
                rintro ghost outcome known
                cases outcome with
                | error e =>
                    rcases known with stopped | ⟨same, other, member, refused⟩
                    · exact .inl stopped
                    · exact .inr ⟨same, other, List.mem_cons_of_mem _ member, refused⟩
                | ok output =>
                    obtain ⟨same, objects, labels⟩ := known
                    refine ⟨same, ?_, labels⟩
                    rw [List.map_cons, own, objects]
                    rfl
              · intro world s e here why
                refine ⟨{ stage with sidecar := some (world.2 ++
                  [⟨thread, .open (storage.metaPath bucket encoded), .error e⟩]) },
                  traffic_looked _ here.extra (fun _ _ => rfl) ?_, fun error => ?_⟩
                · rintro seen (body | same)
                  · exact .inl (.inl body)
                  · exact .inr (Option.some.inj same).symm
                · exact .inl ⟨rfl, _, _, rfl, rfl, .lost thread _ e⟩

/-- When the directory has been read, the keys are chosen and the page is made of them. -/
theorem keeps_page (holds : Holds crates storage start store)
    (present : store.buckets.lookup bucket = some old) (named : old.Named)
    (puts : PutsOnly crates store clients) (req : ListV2Req) {answer : Except Errno (List DirEntry)}
    (read : HasRead storage bucket thread stage answer) :
    KeepsTraffic crates storage start store clients limit thread (do
      let keys ← lift (selectKeys (scanned answer) req)
      let page := capPage req keys
      let (objects, commonPrefixes) ← buildOutput crates storage bucket page.capped
      pure ⟨objects, commonPrefixes.insertionSort (· ≤ ·), page.nextContinuationToken, page.isTruncated⟩ :
        Op ListV2Res)
      (fun ghost outcome => Lister storage bucket req thread ghost outcome) ⟨stage, .nothing⟩ := by
  cases selected : selectKeys (scanned answer) req with
  | error e => exact .inr ⟨answer, read, .inl selected⟩
  | ok keys =>
      simp only [lift, Prog.ofExcept, Prog.done_bind]
      refine tracks_bind.mpr (tracks_mono (keeps_output holds present named puts _) ?_)
      rintro ghost outcome known
      cases outcome with
      | ok output =>
          obtain ⟨same, objects, labels⟩ := known
          refine ⟨answer, keys, same ▸ read, selected, objects, ?_, rfl, rfl⟩
          rw [← labels]
      | error e =>
          rcases known with ⟨_, stopped⟩ | ⟨same, key, member, refused⟩
          · exact .inl stopped
          · exact .inr ⟨answer, same ▸ read, .inr ⟨keys, key, selected, member, refused⟩⟩

theorem keeps_list (holds : Holds crates storage start store)
    (present : store.buckets.lookup bucket = some old) (named : old.Named)
    (puts : PutsOnly crates store clients) (req : ListV2Req) :
    KeepsTraffic crates storage start store clients limit thread (listObjectsV2 crates storage bucket req)
      (fun ghost outcome => Lister storage bucket req thread ghost outcome) ⟨{}, .nothing⟩ := by
  have valid := (holds.sound.buckets bucket old present).valid
  unfold listObjectsV2
  simp only [valid, lift, Prog.ofExcept, Prog.done_bind, Prog.send_bind]
  apply keeps_sight rfl fun past there =>
    ⟨none, some (past ++ [⟨thread, .exists (storage.bucketPath bucket), there⟩])⟩
  · rintro past there seen (impossible | same)
    · cases impossible
    · exact .inr (Option.some.inj same).symm
  · intro past there _
    cases there with
    | false => exact .inl ⟨past, _, rfl, rfl, .missing thread⟩
    | true =>
        unfold listPage scanKeys
        simp only [Prog.send_bind, Prog.call_bind]
        apply keeps_sight rfl (readSights storage bucket thread)
        · intro past answer seen has
          cases answer with
          | ok entries =>
              rcases has with same | impossible
              · exact .inr (Option.some.inj same).symm
              · cases impossible
          | error e =>
              rcases has with same | same
              · exact .inr (Option.some.inj same).symm
              · exact .inr (Option.some.inj same).symm
        · intro later answer before
          have read : HasRead storage bucket thread (readSights storage bucket thread later answer) answer := by
            refine ⟨later, rfl, _, (before _ (.inr rfl)).subset (List.mem_append_right _ List.mem_cons_self), rfl⟩
          cases answer with
          | ok entries => exact keeps_page holds present named puts req read
          | error e =>
              cases e with
              | ENOENT => exact keeps_page holds present named puts req read
              | _ => exact .inl ⟨later, _, rfl, rfl, .unread thread _⟩

end Listing
/-! ### All together -/

def KeyCall.client : KeyCall → Client
  | .putObject bucket key body contentType => .putObject bucket key body contentType
  | .deleteObject bucket key => .deleteObject bucket key

section Beside
variable {Thread : Type} (crates : Crates) (storage : FsStorage) (calls : Thread → KeyCall) (bucket : Str)
  (req : ListV2Req)

/-- One listing and any number of puts and deletes. -/
def besideWriters : Option Thread → Op Response
  | none => handle crates storage (.listObjectsV2 bucket req)
  | some thread => handle crates storage (calls thread).request

/-- Who they are to the files: the listing is a reader. -/
def participants : Option Thread → Client
  | none => .download bucket [] none []
  | some thread => (calls thread).client

/-- The key was there from the beginning or some put was given it. -/
def Given (old : Bucket) (key : Str) : Prop :=
  old.Stores key ∨ ∃ thread body contentType, calls thread = .putObject bucket key body contentType

variable {crates storage calls bucket req} {old : Bucket} {start s t : FS} {store : Store}

theorem participants_put {thread : Option Thread} {own key : Str} {body : Body} {contentType : Option Str}
    (put : participants calls bucket thread = .putObject own key body contentType) :
    ∃ writer, calls writer = .putObject own key body contentType := by
  cases thread with
  | none => cases put
  | some writer =>
      refine ⟨writer, ?_⟩
      unfold participants KeyCall.client at put
      cases which : calls writer with
      | putObject name other content kind =>
          simp only [which, Client.putObject.injEq] at put
          obtain ⟨rfl, rfl, rfl, rfl⟩ := put
          rfl
      | deleteObject name other => simp [which] at put

theorem participants_store : PutsOnly crates store (participants calls bucket) := by
  intro thread own encoded content objectMeta stores
  cases thread with
  | none => exact stores.elim
  | some writer =>
      unfold participants KeyCall.client at stores ⊢
      cases which : calls writer with
      | putObject name key body contentType =>
          simp only [which] at stores ⊢
          obtain ⟨rfl, _⟩ := stores
          exact ⟨key, body, contentType, rfl⟩
      | deleteObject name key =>
          simp only [which] at stores
          exact stores.elim

theorem sparing_beside (thread : Option Thread) : sparing (besideWriters crates storage calls bucket req thread) := by
  cases thread with
  | none => exact issues_bind (sparing_list crates storage bucket req) fun _ => trivial
  | some writer =>
      show sparing (handle crates storage (calls writer).request)
      cases calls writer with
      | putObject name key body contentType =>
          exact issues_bind (sparing_put crates storage name key body contentType) fun _ => trivial
      | deleteObject name key => exact issues_bind (sparing_delete storage name key) fun _ => trivial

variable [DecidableEq Thread]

/-- What the threads know in the end: only the listing has anything to report. -/
def ListerKnows (storage : FsStorage) (bucket : Str) (req : ListV2Req) (thread : Option Thread)
    (ghost : Ghost (Sights (Option Thread))) (outcome : Outcome) : Prop :=
  thread = none → match outcome with
    | .ok response => ∃ page, response = .page page ∧ Lister storage bucket req thread ghost (.ok page)
    | .error e => Lister storage bucket req thread ghost (.error e)

theorem keeps_beside (holds : Holds crates storage start store)
    (present : store.buckets.lookup bucket = some old) (named : old.Named) (thread : Option Thread) :
    KeepsTraffic crates storage start store (participants calls bucket) holds.limit thread
      (besideWriters crates storage calls bucket req thread) (ListerKnows storage bucket req thread)
      ⟨{}, .nothing⟩ := by
  cases thread with
  | none =>
      refine tracks_bind.mpr (tracks_mono (keeps_list holds present named participants_store req) ?_)
      intro ghost outcome known
      cases outcome with
      | ok page => exact fun _ => ⟨page, rfl, known⟩
      | error e => exact fun _ => known
  | some writer =>
      show KeepsTraffic crates storage start store _ holds.limit _
        (handle crates storage (calls writer).request) _ _
      cases which : calls writer with
      | putObject name key body contentType =>
          have same : participants calls bucket (some writer) = .putObject name key body contentType := by
            simp [participants, which, KeyCall.client]
          refine tracks_bind.mpr (tracks_mono (keeps_putObject same) ?_)
          intro ghost outcome _
          cases outcome <;> exact nofun
      | deleteObject name key =>
          have same : participants calls bucket (some writer) = .deleteObject name key := by
            simp [participants, which, KeyCall.client]
          refine tracks_bind.mpr (tracks_mono (keeps_deleteObject same) ?_)
          intro ghost outcome _
          cases outcome <;> exact nofun

/-- Wherever they have got to, the traffic is kept and the directories are the same. -/
theorem beside_run (holds : Holds crates storage start store) (tree : start.Tree)
    (present : store.buckets.lookup bucket = some old) (named : old.Named)
    {last : Option Thread → Op Response} {events : List (Event (Option Thread) Reply)}
    (run : Interleaves (fun _ => faultFree) (besideWriters crates storage calls bucket req) start events last t) :
    SameDirs start t ∧ ∃ ghosts, Sharing (bucketTerms storage start holds.limit)
        (Traffic crates storage start store (participants calls bucket)) ghosts events t ∧
      ∀ outcome, last none = ended outcome → ListerKnows storage bucket req none (ghosts none) outcome := by
  refine ⟨interleaves_dirs sparing_beside run, ?_⟩
  have begin : Sharing (bucketTerms storage start holds.limit)
      (Traffic crates storage start store (participants calls bucket)) (fun _ => ⟨{}, .nothing⟩) [] start := by
    refine ⟨apart_start tree holds.limit, fun file _ => rfl, fun _ _ _ present => present, ?_⟩
    rintro thread seen (none | none) <;> cases none
  obtain ⟨ghosts, sharing, kept⟩ := pool_keeps (keeps_beside holds present named) begin run
  refine ⟨ghosts, sharing, fun outcome finished => ?_⟩
  have own := kept none
  rw [finished] at own
  exact tracks_ended own

end Beside
end Ferrobucket
