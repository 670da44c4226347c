import Ferrobucket.Versions
/-! Puts and deletes of one key at the same time. Each of its two files is as the call that
touched it last has left it, body and record for themselves; as nothing keeps two calls from
being the last on one file each, the object is whole only if that was the same call. -/
namespace Ferrobucket
open Text Posix Program

/-- Neither file of an object is there, or a body and the record that describes it. -/
inductive WholeObject (crates : Crates) (storage : FsStorage) (s : FS) (bucket encoded : Str) : Prop
  | absent (body : s.look (bodyPlace storage bucket encoded) = none)
      (sidecar : s.look (sidecarPlace storage bucket encoded) = none)
  | present (content : Bytes) (objectMeta : ObjectMeta)
      (body : s.look (bodyPlace storage bucket encoded) = some (.file content))
      (sidecar : s.look (sidecarPlace storage bucket encoded) =
        some (.file (crates.objectMeta.encode objectMeta)))
      (describes : Describes crates objectMeta content)

/-- The same call was the last to touch both files, or a delete was the last on each. -/
inductive TouchedAlike {Thread : Type} (body sidecar : Option (Touch Thread)) : Prop
  | same (same : sidecar = body)
  | removed {first second : Thread} (body : body = some (.removed first))
      (sidecar : sidecar = some (.removed second))

section Writers
variable {Thread : Type} {crates : Crates} {storage : FsStorage} {start s : FS} {store : Store}
  {clients : Thread → Client} {bucket key encoded : Str}

theorem whole_versioned (admitted : encodeKey key = .ok encoded)
    (whole : WholeObject crates storage start bucket encoded) :
    Versioned crates storage start bucket key := by
  intro other objectMeta content same sidecar body
  cases admitted.symm.trans same
  cases whole with
  | absent gone => simp [gone] at body
  | present content' objectMeta' there record describes =>
      rw [there] at body
      rw [record] at sidecar
      cases body
      obtain rfl : objectMeta' = objectMeta := by
        simpa [(codec_injective crates.objectMeta).eq_iff] using sidecar
      exact describes

/-- An object whose two files were touched alike is whole. -/
theorem touched_alike {past : List (Event Thread Reply)} (admitted : encodeKey key = .ok encoded)
    (before : WholeObject crates storage start bucket encoded)
    (puts : ∀ thread stored bytes, (clients thread).Stores crates store bucket encoded bytes stored →
      ∃ own key body contentType, clients thread = .putObject own key body contentType)
    (body : Explains crates storage start store clients (.body bucket encoded) past
      (s.look (bodyPlace storage bucket encoded)))
    (sidecar : Explains crates storage start store clients (.sidecar bucket encoded) past
      (s.look (sidecarPlace storage bucket encoded)))
    (settled : TouchedAlike (lastTouch (storage.objectPath bucket encoded) past)
      (lastTouch (storage.metaPath bucket encoded) past)) :
    WholeObject crates storage s bucket encoded := by
  have bodyTold := body
  have sidecarTold := sidecar
  unfold Explains at bodyTold sidecarTold
  simp only [StoredFile.path, StoredFile.place] at bodyTold sidecarTold
  cases settled with
  | removed first second =>
      rw [first] at bodyTold
      rw [second] at sidecarTold
      exact .absent bodyTold.2 sidecarTold.2
  | same same =>
      rw [same] at sidecarTold
      cases touched : lastTouch (storage.objectPath bucket encoded) past with
      | none =>
          rw [touched] at bodyTold sidecarTold
          cases before with
          | absent gone missing => exact .absent (bodyTold.trans gone) (sidecarTold.trans missing)
          | present content objectMeta there record describes =>
              exact .present content objectMeta (bodyTold.trans there) (sidecarTold.trans record) describes
      | some found =>
          rw [touched] at bodyTold sidecarTold
          cases found with
          | removed remover => exact .absent bodyTold.2 sidecarTold.2
          | installed writer =>
              obtain ⟨content, _, there⟩ := bodyTold
              obtain ⟨bytes, ⟨_, objectMeta, _, rfl⟩, record⟩ := sidecarTold
              rw [there] at body
              rw [record] at sidecar
              have describes := same_touch_describes (whole_versioned admitted before) admitted puts
                sidecar body same
              exact .present content objectMeta there record describes

variable [DecidableEq Thread]

/-- Body and record of a key are each what the last call on them has left, whole or absent;
and the object is whole when the same call was the last on both. -/
theorem writers_leave_last (holds : Holds crates storage start store) (tree : start.Tree)
    {last : Thread → Op Received} {events : List (Event Thread Reply)} {t : FS}
    (run : Interleaves (fun _ => faultFree) (fun thread => (clients thread).program crates storage)
      start events last t)
    (valid : validateBucketName bucket = .ok ()) (nonempty : key ≠ [])
    (admitted : encodeKey key = .ok encoded)
    (before : WholeObject crates storage start bucket encoded)
    (writers : ∀ thread, (∃ body contentType, clients thread = .putObject bucket key body contentType) ∨
      clients thread = .deleteObject bucket key) :
    Explains crates storage start store clients (.body bucket encoded) events
        (t.look (bodyPlace storage bucket encoded)) ∧
      Explains crates storage start store clients (.sidecar bucket encoded) events
        (t.look (sidecarPlace storage bucket encoded)) ∧
      (TouchedAlike (lastTouch (storage.objectPath bucket encoded) events)
          (lastTouch (storage.metaPath bucket encoded) events) →
        WholeObject crates storage t bucket encoded) := by
  have addressed : ∀ thread, (clients thread).Addressed := by
    intro thread
    rcases writers thread with ⟨body, contentType, put⟩ | deletes
    · rw [put]
      exact trivial
    · rw [deletes]
      exact trivial
  have puts : ∀ thread stored bytes, (clients thread).Stores crates store bucket encoded bytes stored →
      ∃ own key body contentType, clients thread = .putObject own key body contentType := by
    intro thread stored bytes stores
    rcases writers thread with ⟨body, contentType, put⟩ | deletes
    · exact ⟨bucket, key, body, contentType, put⟩
    · rw [deletes] at stores
      exact absurd stores not_false
  obtain ⟨ghosts, sharing, _⟩ := traffic_run holds tree addressed run
  have body := sharing.extra.files (.body bucket encoded) ⟨valid, key, nonempty, admitted⟩
  have sidecar := sharing.extra.files (.sidecar bucket encoded) ⟨valid, key, admitted⟩
  exact ⟨body, sidecar, touched_alike admitted before puts body sidecar⟩

end Writers

/-- Two puts of the object `a`. -/
def twoPuts : Bool → Client
  | false => .putObject Reference.bucket ['a'] [] none
  | true => .putObject Reference.bucket ['a'] [.ok (utf8 "hello".toList)] none

/-- On the disk that they begin on there is no object yet. -/
theorem bucketDisk_absent (encoded : Str) :
    WholeObject Crates.reference Reference.storage Reference.bucketDisk Reference.bucket encoded := by
  have valid : validateBucketName Reference.bucket = .ok () := by decide
  apply WholeObject.absent
  · rw [bodyPlace, objectsPlace, look_object Reference.bucketDisk_holds valid (Finmap.lookup_insert _)]
    rfl
  · rw [sidecarPlace, metaPlace,
      look_sidecar Reference.bucketDisk_holds valid (Finmap.lookup_insert _)]
    rfl

theorem writers_leave_last_photos : ∃ events last t,
    Interleaves (fun _ => faultFree)
      (fun thread => (twoPuts thread).program Crates.reference Reference.storage)
      Reference.bucketDisk events last t ∧
    (∀ thread, ∃ outcome, last thread = ended outcome) ∧
    Explains Crates.reference Reference.storage Reference.bucketDisk
        (Store.empty.setBucket Reference.bucket (.fresh Reference.info)) twoPuts
        (.body Reference.bucket ['a']) events
        (t.look (bodyPlace Reference.storage Reference.bucket ['a'])) ∧
    Explains Crates.reference Reference.storage Reference.bucketDisk
        (Store.empty.setBucket Reference.bucket (.fresh Reference.info)) twoPuts
        (.sidecar Reference.bucket ['a']) events
        (t.look (sidecarPlace Reference.storage Reference.bucket ['a'])) ∧
    (TouchedAlike (lastTouch (Reference.storage.objectPath Reference.bucket ['a']) events)
        (lastTouch (Reference.storage.metaPath Reference.bucket ['a']) events) →
      WholeObject Crates.reference Reference.storage t Reference.bucket ['a']) := by
  obtain ⟨_, s, before, first, complete, _⟩ := Reference.put_interleaves twoPuts false
    (.stop (fun thread => (twoPuts thread).program Crates.reference Reference.storage) _)
    Reference.bucketDisk_complete (rfl : failure [] = none) rfl rfl
  obtain ⟨_, t, events, second, _⟩ := Reference.put_interleaves twoPuts true first complete
    (rfl : failure [.ok (utf8 "hello".toList)] = none) rfl (Function.update_of_ne (by decide) _ _)
  refine ⟨events, _, t, second, ?_, ?_⟩
  · intro thread
    cases thread with
    | false =>
        exact ⟨.ok _, (Function.update_of_ne Bool.false_ne_true _ _).trans (Function.update_self ..)⟩
    | true => exact ⟨.ok _, Function.update_self ..⟩
  · apply writers_leave_last Reference.bucketDisk_holds Reference.bucketDisk_tree second (by decide)
      (List.cons_ne_nil _ _) (by decide : encodeKey ['a'] = .ok ['a']) (bucketDisk_absent ['a'])
    intro thread
    cases thread with
    | false => exact .inl ⟨[], none, rfl⟩
    | true => exact .inl ⟨_, none, rfl⟩

/-! ### One put around another -/

/-- The steps of a put until its body is in place. -/
def putBody (crates : Crates) (storage : FsStorage) (bucket encoded : Str) (body : Body) :
    Op (Str × Nat) := do
  if !(← Sys.exists (storage.bucketPath bucket)) then throw (.NoSuchBucket bucket)
  writeObjectBody crates (storage.objectsDir bucket) encoded body

/-- The steps that are left then. -/
def putRecord (crates : Crates) (storage : FsStorage) (bucket key encoded : Str)
    (contentType : Option Str) (written : Str × Nat) : Op ObjectMeta := do
  let lastModified ← Sys.now
  let objectMeta : ObjectMeta :=
    ⟨key, written.2, contentType.getD defaultContentType, written.1, lastModified⟩
  writeSidecar crates (storage.metaPath bucket encoded) objectMeta
  pure objectMeta

theorem put_halves (crates : Crates) (storage : FsStorage) {bucket key encoded : Str} (body : Body)
    (contentType : Option Str) (valid : validateBucketName bucket = .ok ())
    (admitted : encodeKey key = .ok encoded) :
    putObject crates storage bucket key body contentType =
      putBody crates storage bucket encoded body >>=
        putRecord crates storage bucket key encoded contentType := by
  simp only [putObject, putBody, valid, admitted, lift, Prog.ofExcept, Prog.done_bind, Prog.send_bind,
    Prog.call_bind]
  congr 1
  funext there
  cases there <;> rfl

namespace Reference

/-- A put has its body in place. -/
theorem put_body {s : FS} (complete : Complete s) {body : Body} (sound : failure body = none) :
    ∃ t, Runs faultFree (putBody Crates.reference storage bucket ['a'] body) s
        (.ok (hexMd5 Crates.reference (delivered body), (delivered body).length)) t ∧ Complete t := by
  obtain ⟨unlimited, store, old, sidecars, holds, present, kept⟩ := complete
  have valid : validateBucketName bucket = .ok () := by decide
  have admitted : encodeKey ['a'] = .ok ['a'] := by decide
  have nonempty : ['a'] ≠ [] := List.cons_ne_nil _ _
  have put : wp faultFree (putBody Crates.reference storage bucket ['a'] body) (fun outcome after =>
      outcome = .ok (hexMd5 Crates.reference (delivered body), (delivered body).length) ∧
        ∃ new, Holds Crates.reference storage after (store.setBucket bucket new) ∧
          new.sidecars = some sidecars) s := by
    simp only [putBody, Prog.send_bind, wp_exists, FS.exists_located (locate_bucket holds valid),
      look_bucket holds valid, present]
    apply wp_writeObjectBody (roomy_objects holds valid present)
      (locate_object_of_key holds valid present admitted nonempty)
    · intro e after broken
      rw [sound] at broken
      cases broken
    · intro after _ inside
      exact absurd inside (object_not_dir holds valid present ['a'])
    · intro after _ _ becomes
      have stored := sound_insert_object (delivered body) (holds.sound.buckets bucket old present)
        ⟨['a'], nonempty, admitted⟩
      exact ⟨rfl, _, holds_change holds present
        (view_insert_object Crates.reference old ['a'] (delivered body)) stored becomes, kept⟩
  obtain ⟨outcome, t, run, ⟨rfl, new, after, same⟩, limit⟩ := wp_returns (wp_limited put)
  exact ⟨t, run, limit.trans unlimited, _, new, sidecars, after, Finmap.lookup_insert _, same⟩

/-- A put that has its body in place writes its record, whoever's body is there by then. -/
theorem put_record {s : FS} (complete : Complete s) (written : Str × Nat) :
    ∃ objectMeta t, Runs faultFree (putRecord Crates.reference storage bucket ['a'] ['a'] none written) s
        (.ok objectMeta) t ∧ objectMeta.size = written.2 ∧
      t.look (sidecarPlace storage bucket ['a']) =
        some (.file (Crates.reference.objectMeta.encode objectMeta)) ∧
      t.look (bodyPlace storage bucket ['a']) = s.look (bodyPlace storage bucket ['a']) := by
  obtain ⟨unlimited, store, old, sidecars, holds, present, kept⟩ := complete
  have valid : validateBucketName bucket = .ok () := by decide
  have admitted : encodeKey ['a'] = .ok ['a'] := by decide
  have put : wp faultFree (putRecord Crates.reference storage bucket ['a'] ['a'] none written)
      (fun outcome after => ∃ objectMeta, outcome = .ok objectMeta ∧ objectMeta.size = written.2 ∧
        after.look (sidecarPlace storage bucket ['a']) =
          some (.file (Crates.reference.objectMeta.encode objectMeta)) ∧
        after.look (bodyPlace storage bucket ['a']) = s.look (bodyPlace storage bucket ['a'])) s := by
    simp only [putRecord, Prog.send_bind]
    apply wp_now
    intro time
    rw [wp_bind]
    apply wp_writeSidecar holds valid present admitted (List.cons_ne_nil _ _)
    · intro lost
      rw [kept] at lost
      cases lost
    · intro _ after _ long
      rw [unlimited] at long
      cases long
    · intro found after same _ still
      refine ⟨_, rfl, rfl, ?_, ?_⟩
      · have record := look_sidecar still valid (Finmap.lookup_insert _) (FsStorage.sidecarName ['a'])
        simpa [sidecarPlace, metaPlace] using record
      · have body := look_object still valid (Finmap.lookup_insert _) ['a']
        exact body.trans (look_object holds valid present ['a']).symm
  obtain ⟨outcome, t, run, objectMeta, rfl, size, record, body⟩ := wp_returns put
  exact ⟨objectMeta, t, run, size, record, body⟩

end Reference

/-- A whole put between the two halves of another: all have returned, and the record of no
bytes is beside a body of five. -/
theorem writers_leave_mixture : ∃ events last t objectMeta content,
    Interleaves (fun _ => faultFree)
      (fun thread => (twoPuts thread).program Crates.reference Reference.storage)
      Reference.bucketDisk events last t ∧
    (∀ thread, ∃ outcome, last thread = ended outcome) ∧
    t.look (bodyPlace Reference.storage Reference.bucket ['a']) = some (.file content) ∧
    t.look (sidecarPlace Reference.storage Reference.bucket ['a']) =
      some (.file (Crates.reference.objectMeta.encode objectMeta)) ∧
    objectMeta.size = 0 ∧ content.length = 5 := by
  have valid : validateBucketName Reference.bucket = .ok () := by decide
  have admitted : encodeKey ['a'] = .ok ['a'] := by decide
  have waiting : (twoPuts false).program Crates.reference Reference.storage =
      putBody Crates.reference Reference.storage Reference.bucket ['a'] [] >>= fun written =>
        putRecord Crates.reference Reference.storage Reference.bucket ['a'] ['a'] none written >>=
          fun objectMeta => pure (.object objectMeta) := by
    rw [← Prog.bind_assoc, ← put_halves Crates.reference Reference.storage [] none valid admitted]
    rfl
  obtain ⟨s, begun, complete⟩ := Reference.put_body Reference.bucketDisk_complete (rfl : failure [] = none)
  obtain ⟨before, first⟩ := runs_interleaves_then begun false
    (fun thread => (twoPuts thread).program Crates.reference Reference.storage) waiting
  obtain ⟨_, s', between, second, complete', _, present⟩ := Reference.put_interleaves twoPuts true first
    complete (rfl : failure [.ok (utf8 "hello".toList)] = none) rfl
    (Function.update_of_ne (by decide) _ _)
  obtain ⟨older, t, finished, size, record, body⟩ := Reference.put_record complete'
    (hexMd5 Crates.reference (delivered []), (delivered []).length)
  have answered : Runs faultFree
      (putRecord Crates.reference Reference.storage Reference.bucket ['a'] ['a'] none
        (hexMd5 Crates.reference (delivered []), (delivered []).length) >>=
          fun objectMeta => (pure (.object objectMeta) : Op Received)) s' (.ok (.object older)) t :=
    runs_then finished (.done _ t)
  obtain ⟨after, third⟩ := runs_interleaves answered false _
    ((Function.update_of_ne Bool.false_ne_true _ _).trans (Function.update_self ..))
  refine ⟨_, _, t, older, _, interleaves_append second third, ?_, body.trans present.body, record, size,
    by decide⟩
  intro thread
  cases thread with
  | false => exact ⟨.ok (.object older), Function.update_self ..⟩
  | true => exact ⟨.ok _, (Function.update_of_ne (by decide) _ _).trans (Function.update_self ..)⟩

end Ferrobucket
