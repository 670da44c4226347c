import Ferrobucket.Clients
import Ferrobucket.Reference
/-! What an acknowledged put can rely on. Without deletes of objects nobody removes a body or
a sidecar: deleting a bucket removes empty directories only, so both files stay, and a get
that begins after the answer to the put finds them. -/
namespace Ferrobucket
open Text Posix Program

/-! ### Reading what is there -/

section There
variable {crates : Crates} {storage : FsStorage} {s : FS} {bucket key encoded : Str}
  {objectMeta : ObjectMeta} {content : Bytes}

/-- A stream delivers the front of what is left, and with enough reads all of it. -/
theorem wp_deliver (stream : ObjectStream) (sizes : List Nat) (position : Nat) :
    wp faultFree (stream.deliver sizes position) (fun outcome after => after = s ∧
      ∃ bytes whole, outcome = .ok (bytes, whole) ∧
        bytes <+: (stream.window (s.data stream.handle)).drop position ∧
        (whole = true → bytes = (stream.window (s.data stream.handle)).drop position) ∧
        (((stream.window (s.data stream.handle)).drop position).length < sizes.length → whole = true)) s := by
  induction sizes generalizing position with
  | nil => exact ⟨rfl, [], false, rfl, List.nil_prefix, nofun, fun enough => absurd enough (Nat.not_lt_zero _)⟩
  | cons size sizes ih =>
      unfold ObjectStream.deliver
      simp only [Prog.send_bind, wp_read, Prog.ofExcept, Prog.done_bind]
      cases piece : ((stream.window (s.data stream.handle)).drop position).take (size + 1) with
      | nil =>
          have ended : (stream.window (s.data stream.handle)).drop position = [] := by
            rcases List.take_eq_nil_iff.mp piece with impossible | ended
            · cases impossible
            · exact ended
          exact ⟨rfl, [], true, rfl, List.nil_prefix, fun _ => ended.symm, fun _ => rfl⟩
      | cons byte bytes =>
          have split := piece_split piece
          rw [List.drop_drop] at split
          apply wp_bind.mpr
          apply wp_mono (ih (position + (bytes.length + 1)))
          rintro _ _ ⟨rfl, later, whole, rfl, front, all, ends⟩
          refine ⟨rfl, byte :: bytes ++ later, whole, rfl, ?_, ?_, ?_⟩
          · rw [split]
            exact (List.prefix_append_right_inj _).mpr front
          · intro finished
            rw [split, all finished]
            rfl
          · intro enough
            apply ends
            rw [split] at enough
            simp only [List.length_append, List.length_cons] at enough ⊢
            omega

/-- Both files of an object are there. -/
structure Present (crates : Crates) (storage : FsStorage) (s : FS) (bucket key encoded : Str)
    (objectMeta : ObjectMeta) (content : Bytes) : Prop where
  valid : validateBucketName bucket = .ok ()
  admitted : encodeKey key = .ok encoded
  object : IsObjectName encoded
  body : s.look (bodyPlace storage bucket encoded) = some (.file content)
  sidecar : s.look (sidecarPlace storage bucket encoded) =
    some (.file (crates.objectMeta.encode objectMeta))

/-- The record of what is there is read whole. -/
theorem wp_record_present (tree : s.Tree) (limited : s.nameMax = none ∨ s.nameMax = some 255)
    (short : exceeds s.nameMax (FsStorage.sidecarName encoded) = false)
    (present : Present crates storage s bucket key encoded objectMeta content) :
    wp faultFree (readSidecar crates (storage.metaPath bucket encoded)) (fun outcome after =>
      after = s ∧ outcome = .ok objectMeta) s := by
  obtain ⟨valid, admitted, _, _, sidecar⟩ := present
  have sidecars : s.look (metaPlace storage bucket) = some .dir :=
    tree (sidecarPlace storage bucket encoded) (List.cons_ne_nil _ _) (by simp [sidecar])
  have located := locate_meta_path tree limited valid admitted sidecars
  rw [if_neg (by simp [short])] at located
  unfold readSidecar
  rw [wp_readJson, contents_file located sidecar]
  simp [readOutcome, Except.mapError, Codec.decode_encode]

/-- The body of what is there is opened. -/
theorem wp_stream_present (tree : s.Tree) (limited : s.nameMax = none ∨ s.nameMax = some 255)
    (present : Present crates storage s bucket key encoded objectMeta content) :
    wp faultFree (streamObject (storage.objectPath bucket encoded)) (fun outcome after =>
      after = s ∧ ∃ handle, s.data handle = content ∧ outcome = .ok ⟨handle, 0, none⟩) s := by
  obtain ⟨valid, admitted, object, body, _⟩ := present
  have objects : s.look (objectsPlace storage bucket) = some .dir :=
    tree (bodyPlace storage bucket encoded) (List.cons_ne_nil _ _) (by simp [body])
  have located := locate_body tree limited valid admitted objects
  rw [if_neg (name_parts (object_is_name object)).1] at located
  obtain ⟨inode, named, held⟩ := FS.look_file.mp body
  simp only [streamObject, Prog.send_bind, wp_open, FS.open_file located named, Prog.pure_eq]
  exact ⟨rfl, inode, held, rfl⟩

/-- What a download does when it has the record. -/
def streamed (path : PathBuf) (sizes : List Nat) (objectMeta : ObjectMeta) : Op Received := do
  let stream ← streamObject path
  let delivered ← ioOp (stream.deliver sizes 0)
  pure (.stream objectMeta delivered.1 delivered.2)

theorem download_streamed (crates : Crates) (storage : FsStorage) (sizes : List Nat)
    (valid : validateBucketName bucket = .ok ()) (admitted : encodeKey key = .ok encoded) :
    (Client.download bucket key none sizes).program crates storage =
      readSidecar crates (storage.metaPath bucket encoded) >>=
        streamed (storage.objectPath bucket encoded) sizes := by
  simp only [Client.program, getObject, valid, admitted, lift, Prog.ofExcept, Prog.done_bind,
    Prog.bind_assoc, Prog.pure_eq]
  rfl

/-- A get finds what is there. -/
theorem wp_get_present (tree : s.Tree) (limited : s.nameMax = none ∨ s.nameMax = some 255)
    (short : exceeds s.nameMax (FsStorage.sidecarName encoded) = false)
    (present : Present crates storage s bucket key encoded objectMeta content) :
    wp faultFree (getObject crates storage bucket key none) (fun outcome after => after = s ∧
      ∃ handle, s.data handle = content ∧ outcome = .ok (objectMeta, ⟨handle, 0, none⟩)) s := by
  unfold getObject
  simp only [present.valid, present.admitted, lift, Prog.ofExcept, Prog.done_bind]
  apply wp_bind.mpr
  apply wp_mono (wp_record_present tree limited short present)
  rintro _ _ ⟨rfl, rfl⟩
  apply wp_bind.mpr
  apply wp_mono (wp_stream_present tree limited present)
  rintro _ _ ⟨rfl, handle, held, rfl⟩
  exact ⟨rfl, handle, held, rfl⟩

/-- A download that has a record comes to the end of the body that is there. -/
theorem wp_streamed_present (tree : s.Tree) (limited : s.nameMax = none ∨ s.nameMax = some 255)
    (present : Present crates storage s bucket key encoded objectMeta content) {sizes : List Nat}
    (enough : content.length < sizes.length) (record : ObjectMeta) :
    wp faultFree (streamed (storage.objectPath bucket encoded) sizes record) (fun outcome after =>
      after = s ∧ outcome = .ok (.stream record content true)) s := by
  apply wp_bind.mpr
  apply wp_mono (wp_stream_present tree limited present)
  rintro _ _ ⟨rfl, handle, held, rfl⟩
  apply wp_bind.mpr
  rw [wp_ioOp]
  apply wp_mono (wp_deliver ⟨handle, 0, none⟩ sizes 0)
  rintro _ _ ⟨rfl, bytes, whole, rfl, _, all, ends⟩
  simp only [ObjectStream.window, held, List.drop_zero] at all ends
  obtain rfl := ends enough
  obtain rfl := all rfl
  exact ⟨rfl, rfl⟩

/-- A download of what is there comes to its end. -/
theorem wp_download_present (tree : s.Tree) (limited : s.nameMax = none ∨ s.nameMax = some 255)
    (short : exceeds s.nameMax (FsStorage.sidecarName encoded) = false)
    (present : Present crates storage s bucket key encoded objectMeta content) {sizes : List Nat}
    (enough : content.length < sizes.length) :
    wp faultFree ((Client.download bucket key none sizes).program crates storage) (fun outcome _ =>
      outcome = .ok (.stream objectMeta content true)) s := by
  rw [download_streamed crates storage sizes present.valid present.admitted]
  apply wp_bind.mpr
  apply wp_mono (wp_record_present tree limited short present)
  rintro _ _ ⟨rfl, rfl⟩
  apply wp_mono (wp_streamed_present tree limited present enough objectMeta)
  rintro _ _ ⟨_, rfl⟩
  rfl

end There

/-! ### What stays -/

section Staying
variable {Thread : Type} {crates : Crates} {storage : FsStorage} {start : FS} {store : Store}
  {clients : Thread → Client}

/-- Without deletes a file that was touched is there. -/
theorem touched_there {file : StoredFile} {past : List (Event Thread Reply)} {entry : Option FS.Entry}
    (undeleted : ∀ thread bucket key, clients thread ≠ .deleteObject bucket key)
    (explained : Explains crates storage start store clients file past entry)
    (touched : lastTouch (file.path storage) past ≠ none) : ∃ content, entry = some (.file content) := by
  unfold Explains at explained
  cases last : lastTouch (file.path storage) past with
  | none => exact absurd last touched
  | some found =>
      rw [last] at explained
      cases found with
      | installed writer =>
          obtain ⟨content, _, same⟩ := explained
          exact ⟨content, same⟩
      | removed remover =>
          obtain ⟨removes, _⟩ := explained
          obtain ⟨bucket, key, deletes⟩ := removed_deletes removes
          exact absurd deletes (undeleted remover bucket key)

variable [DecidableEq Thread]

/-- What an acknowledged put keeps: both files, whatever happens to other objects; and what
gets of the key are answered. -/
structure Survives (crates : Crates) (storage : FsStorage) (clients : Thread → Client)
    (bucket key : Str) (before : List (Event Thread Reply)) (last : Thread → Op Received) (t : FS) :
    Prop where
  present : ∃ encoded objectMeta content, Present crates storage t bucket key encoded objectMeta content
  beside : ∀ reader sizes, clients reader = .download bucket key none sizes →
    (∀ event ∈ before, event.thread ≠ reader) → ∀ outcome, last reader = ended outcome →
    ∃ objectMeta bytes whole, outcome = .ok (.stream objectMeta bytes whole)
  alone : wp faultFree (getObject crates storage bucket key none)
    (fun outcome _ => ∃ found, outcome = .ok found) t

theorem acknowledged_survives (holds : Holds crates storage start store) (tree : start.Tree)
    (addressed : ∀ thread, (clients thread).Addressed)
    (undeleted : ∀ thread bucket key, clients thread ≠ .deleteObject bucket key)
    {middle last : Thread → Op Received} {before after : List (Event Thread Reply)} {s t : FS}
    (first : Interleaves (fun _ => faultFree) (fun thread => (clients thread).program crates storage)
      start before middle s)
    (later : Interleaves (fun _ => faultFree) middle s after last t)
    {writer : Thread} {bucket key : Str} {body : Body} {contentType : Option Str}
    {objectMeta : ObjectMeta} (puts : clients writer = .putObject bucket key body contentType)
    (acknowledged : middle writer = .done (.object objectMeta)) :
    Survives crates storage clients bucket key before last t := by
  obtain ⟨ghosts, sharing, known⟩ := traffic_run holds tree addressed first
  obtain ⟨ghosts', sharing', known'⟩ := traffic_run holds tree addressed (interleaves_append first later)
  have reported := known writer (.ok (.object objectMeta)) acknowledged
  rw [puts] at reported
  obtain ⟨own, encoded, put⟩ := reported objectMeta rfl
  obtain ⟨stored, stores⟩ := put.stores
  rw [puts] at stores
  obtain ⟨rfl, admitted, _⟩ := stores
  -- Both files were touched before the answer.
  have touched : ∀ file : StoredFile, file = .body bucket encoded ∨ file = .sidecar bucket encoded →
      lastTouch (file.path storage) before ≠ none := by
    rintro file (rfl | rfl)
    · obtain ⟨seen, same, installed⟩ := put.body
      exact touched_later (by rw [StoredFile.path, installed]; rintro ⟨⟩)
        (sharing.extra.seen writer seen (.inl same))
    · obtain ⟨seen, same, installed⟩ := put.sidecar
      exact touched_later (by rw [StoredFile.path, installed]; rintro ⟨⟩)
        (sharing.extra.seen writer seen (.inr same))
  have limited : t.nameMax = none ∨ t.nameMax = some 255 := by
    rw [sharing'.apart.limit]
    exact holds.limit
  have short : exceeds t.nameMax (FsStorage.sidecarName encoded) = false := by
    rw [sharing'.apart.limit]
    exact put.short
  have found : ∃ record content, Present crates storage t bucket key encoded record content := by
    have bodyProper : (StoredFile.body bucket encoded).Proper := ⟨put.valid, put.object⟩
    have sidecarProper : (StoredFile.sidecar bucket encoded).Proper := ⟨put.valid, key, admitted⟩
    have bodyExplained := sharing'.extra.files _ bodyProper
    have sidecarExplained := sharing'.extra.files _ sidecarProper
    obtain ⟨content, body⟩ := touched_there undeleted bodyExplained
      (touched_later (touched _ (.inl rfl)) (List.prefix_append _ _))
    obtain ⟨bytes, sidecar⟩ := touched_there undeleted sidecarExplained
      (touched_later (touched _ (.inr rfl)) (List.prefix_append _ _))
    rw [sidecar] at sidecarExplained
    obtain ⟨record, rfl⟩ := sidecar_record holds put.valid sidecarExplained
    exact ⟨record, content, put.valid, admitted, put.object, body, sidecar⟩
  obtain ⟨record, content, present⟩ := found
  refine ⟨⟨encoded, record, content, present⟩, ?_, ?_⟩
  · intro reader sizes reads waiting outcome done
    have told := known' reader outcome done
    rw [reads] at told
    cases outcome with
    | ok received =>
        obtain ⟨objectMeta, bytes, whole, _, _, _, rfl, _⟩ := told.1 received rfl
        exact ⟨objectMeta, bytes, whole, rfl⟩
    | error e =>
        -- The file that it missed had been touched before it began.
        obtain ⟨file, seen, entry, which, has, ⟨past, event, rfl, mine⟩, explained, absent⟩ :=
          told.2 e rfl rfl encoded put.valid admitted put.short put.object
        have happened := sharing'.extra.seen reader _ has
        have began : before <+: past ++ [event] := by
          rcases List.prefix_or_prefix_of_prefix happened (List.prefix_append before after) with early | late
          · exact absurd mine (waiting event (early.subset (by simp)))
          · exact late
        obtain ⟨content, same⟩ := touched_there undeleted explained (touched_later (touched file which) began)
        exact absurd same (absent content)
  · apply wp_mono (wp_get_present sharing'.apart.tree limited short present)
    rintro _ _ ⟨_, handle, _, rfl⟩
    exact ⟨_, rfl⟩

end Staying

/-! ### One bucket, step by step -/

namespace Reference

/-- The bucket is there with all its directories. -/
def Complete (s : FS) : Prop :=
  s.nameMax = none ∧ ∃ store old sidecars, Holds Crates.reference storage s store ∧
    store.buckets.lookup bucket = some old ∧ old.sidecars = some sidecars

theorem bucketDisk_complete : Complete bucketDisk :=
  ⟨rfl, _, _, _, bucketDisk_holds, Finmap.lookup_insert _, rfl⟩

/-- A put of the object `a`. -/
theorem put_present {s : FS} (complete : Complete s) {body : Body} (sound : failure body = none) :
    ∃ objectMeta t, Runs faultFree (putObject Crates.reference storage bucket ['a'] body none) s
        (.ok objectMeta) t ∧ Complete t ∧ objectMeta.size = (delivered body).length ∧
      Present Crates.reference storage t bucket ['a'] ['a'] objectMeta (delivered body) := by
  obtain ⟨unlimited, store, old, sidecars, holds, present, kept⟩ := complete
  have valid : validateBucketName bucket = .ok () := by decide
  have admitted : encodeKey ['a'] = .ok ['a'] := by decide
  have put := wp_limited (put_refines holds bucket ['a'] body none)
  obtain ⟨outcome, t, run, ⟨time, rfl, after⟩, limit⟩ := wp_returns put
  obtain ⟨objectMeta, record, made⟩ := Store.put_made Crates.reference s.nameMax store none time valid
    present admitted sound (List.cons_ne_nil _ _) kept (by rw [unlimited]; rfl)
  rw [made] at run after
  have found := Finmap.lookup_insert (b := Store.storedBucket old sidecars ['a'] (delivered body) objectMeta)
    (a := bucket) store.buckets
  have stored := look_object after valid found ['a']
  have written := look_sidecar after valid found (FsStorage.sidecarName ['a'])
  refine ⟨objectMeta, t, run, ⟨limit.trans unlimited, _, _, _, after, found, rfl⟩, by rw [record], valid,
    admitted, ⟨['a'], by decide, admitted⟩, ?_, ?_⟩
  · simpa [bodyPlace, objectsPlace, Store.storedBucket] using stored
  · simpa [sidecarPlace, metaPlace, Store.storedBucket] using written

/-- A client that puts the object `a` runs to its end while the others wait. -/
theorem put_interleaves {Thread : Type} [DecidableEq Thread] (clients : Thread → Client) (thread : Thread)
    {pool middle : Thread → Op Received} {start s : FS} {events : List (Event Thread Reply)}
    {body : Body} (run : Interleaves (fun _ => faultFree) pool start events middle s)
    (complete : Complete s) (sound : failure body = none)
    (puts : clients thread = .putObject bucket ['a'] body none)
    (waits : middle thread = (clients thread).program Crates.reference storage) :
    ∃ objectMeta t events, Interleaves (fun _ => faultFree) pool start events
        (Function.update middle thread (.done (.object objectMeta))) t ∧
      Complete t ∧ objectMeta.size = (delivered body).length ∧
      Present Crates.reference storage t bucket ['a'] ['a'] objectMeta (delivered body) := by
  obtain ⟨objectMeta, t, put, after, size, present⟩ := put_present complete sound
  have answered : Runs faultFree ((clients thread).program Crates.reference storage) s
      (.ok (.object objectMeta)) t := by
    rw [puts]
    exact runs_then put (.done _ t)
  obtain ⟨later, own⟩ := runs_interleaves answered thread middle waits
  exact ⟨objectMeta, t, _, interleaves_append run own, after, size, present⟩

end Reference

/-- A put of the empty object `a` and a download of it. -/
def putAndGet : Bool → Client
  | true => .putObject Reference.bucket ['a'] [] none
  | false => .download Reference.bucket ['a'] none [0]

theorem putAndGet_addressed (thread : Bool) : (putAndGet thread).Addressed := by
  cases thread <;> exact trivial

/-- The put goes first, then the download. -/
theorem put_then_get : ∃ before after s t objectMeta, Interleaves (fun _ => faultFree)
      (fun thread => (putAndGet thread).program Crates.reference Reference.storage)
      Reference.bucketDisk before (Function.update
        (fun thread => (putAndGet thread).program Crates.reference Reference.storage) true
        (.done (.object objectMeta))) s ∧
    Interleaves (fun _ => faultFree) (Function.update
        (fun thread => (putAndGet thread).program Crates.reference Reference.storage) true
        (.done (.object objectMeta))) s after (Function.update (Function.update
        (fun thread => (putAndGet thread).program Crates.reference Reference.storage) true
        (.done (.object objectMeta))) false (.done (.stream objectMeta [] true))) t := by
  obtain ⟨objectMeta, s, before, first, complete, _, present⟩ :=
    Reference.put_interleaves putAndGet true
      (.stop (fun thread => (putAndGet thread).program Crates.reference Reference.storage) _)
      Reference.bucketDisk_complete (rfl : failure [] = none) rfl rfl
  obtain ⟨_, sharing, _⟩ := traffic_run Reference.bucketDisk_holds Reference.bucketDisk_tree
    putAndGet_addressed first
  obtain ⟨unlimited, _⟩ := complete
  obtain ⟨outcome, t, run, rfl⟩ := wp_returns (wp_download_present sharing.apart.tree (.inl unlimited)
    (by rw [unlimited]; rfl) present (by decide : (delivered []).length < [0].length))
  obtain ⟨after, later⟩ := runs_interleaves run false (Function.update
    (fun thread => (putAndGet thread).program Crates.reference Reference.storage) true
    (.done (.object objectMeta))) (Function.update_of_ne (by decide) _ _)
  exact ⟨before, after, s, t, objectMeta, first, later⟩

theorem acknowledged_survives_photos : ∃ before after middle last s t objectMeta,
    Interleaves (fun _ => faultFree)
      (fun thread => (putAndGet thread).program Crates.reference Reference.storage)
      Reference.bucketDisk before middle s ∧
    middle true = .done (.object objectMeta) ∧
    Interleaves (fun _ => faultFree) middle s after last t ∧
    last false = .done (.stream objectMeta [] true) ∧
    Survives Crates.reference Reference.storage putAndGet Reference.bucket ['a'] before last t := by
  have undeleted : ∀ thread bucket key, putAndGet thread ≠ .deleteObject bucket key := by
    intro thread bucket key
    cases thread <;> nofun
  obtain ⟨before, after, s, t, objectMeta, first, later⟩ := put_then_get
  refine ⟨before, after, _, _, s, t, objectMeta, first, Function.update_self .., later,
    Function.update_self .., ?_⟩
  exact acknowledged_survives Reference.bucketDisk_holds Reference.bucketDisk_tree putAndGet_addressed
    undeleted first later rfl (Function.update_self ..)

end Ferrobucket
