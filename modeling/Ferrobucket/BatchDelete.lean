import Ferrobucket.BucketTotals
/-! Deleting many objects with one request. The adapter deletes key by key and sorts the
entries of the request into those that are gone and those that failed. Which of the two
happens to an entry does not depend on the others, so neither does the store in the end. -/
namespace Ferrobucket
open Text Posix Program Grouping

/-! ### The request -/

structure ObjectIdentifier where
  key : Str

structure Delete where
  objects : List ObjectIdentifier
  quiet : Option Bool

structure DeletedObject where
  key : Option Str
  deriving DecidableEq

/-- `s3s::dto::Error`. -/
structure DeleteError where
  code : Option Str
  key : Option Str
  message : Option Str
  deriving DecidableEq

structure DeleteObjectsOutput where
  deleted : Option (List DeletedObject)
  errors : Option (List DeleteError)

section Adapter
variable (storage : FsStorage) (texts : Texts)

/-- The loop over the entries. A key that does not exist counts as deleted. -/
def deleteEach (bucket : Str) (quiet : Bool) : List ObjectIdentifier → List DeletedObject →
    List DeleteError → S3Op (List DeletedObject × List DeleteError)
  | [], deleted, errors => pure (deleted, errors)
  | obj :: rest, deleted, errors => do
      let key := obj.key
      match ← (deleteObject storage bucket key).attempt with
      | .ok () | .error (.NoSuchKey _) =>
          deleteEach bucket quiet rest (if quiet then deleted else deleted ++ [⟨some key⟩]) errors
      | .error e =>
          deleteEach bucket quiet rest deleted
            (errors ++ [⟨some "InternalError".toList, some key, some (e.text texts)⟩])

/-- The adapter's `delete_objects`. -/
def s3DeleteObjects (bucket : Str) (delete : Delete) : S3Op (S3Response DeleteObjectsOutput) := do
  let quiet := delete.quiet.getD false
  let (deleted, errors) ← deleteEach storage texts bucket quiet delete.objects [] []
  pure { output :=
    { deleted := if deleted.isEmpty then none else some deleted
      errors := if errors.isEmpty then none else some errors } }

end Adapter

/-! ### One key -/

/-- The error for a key that no delete can remove. The empty key is the directory itself. -/
def refusal (key : Str) : Option StorageError :=
  match encodeKey key with
  | .error e => some e
  | .ok _ => if key = [] then some (.Io (.os .EISDIR)) else none

theorem refusal_some (key : Str) : (refusal key).isSome = (key = [] || !(encodeKey key).isOk) := by
  unfold refusal
  cases encodeKey key with
  | error e => simp [Except.isOk, Except.toBool]
  | ok encoded => by_cases empty : key = [] <;> simp [empty, Except.isOk, Except.toBool]

theorem refusal_none {key : Str} (accepted : refusal key = none) :
    key ≠ [] ∧ ∃ encoded, encodeKey key = .ok encoded := by
  unfold refusal at accepted
  cases admitted : encodeKey key with
  | error e =>
      rw [admitted] at accepted
      cases accepted
  | ok encoded =>
      rw [admitted] at accepted
      by_cases empty : key = []
      · simp [empty] at accepted
      · exact ⟨empty, encoded, rfl⟩

/-- A refusal is never that the key does not exist. -/
theorem refusal_not_missing {key : Str} {e : StorageError} (refused : refusal key = some e) :
    ∀ text, e ≠ .NoSuchKey text := by
  rintro text rfl
  unfold refusal encodeKey at refused
  simp only [] at refused
  split at refused
  · next rejected =>
      obtain rfl := Option.some.inj refused
      split at rejected
      · cases rejected
      · split at rejected <;> cases rejected
  · split at refused <;> cases refused

/-- The bucket without the object of a key. -/
def Bucket.remove (bucket : Bucket) (key : Str) : Bucket :=
  match refusal key, encodeKey key with
  | none, .ok encoded =>
      { bucket with
        objects := bucket.objects.erase encoded
        sidecars := bucket.sidecars.map fun sidecars => sidecars.erase (FsStorage.sidecarName encoded) }
  | _, _ => bucket

/-- Every body has its record and every record its body. -/
structure Bucket.Consistent (nameMax : Option Nat) (bucket : Bucket) : Prop where
  complete : bucket.Complete nameMax
  paired : bucket.Paired

section Remove
variable {bucket : Bucket} {name key encoded : Str} {nameMax : Option Nat}

theorem remove_refused {e : StorageError} (refused : refusal key = some e) : bucket.remove key = bucket := by
  simp [Bucket.remove, refused]

theorem remove_accepted (accepted : refusal key = none) (admitted : encodeKey key = .ok encoded) :
    bucket.remove key =
      { bucket with
        objects := bucket.objects.erase encoded
        sidecars := bucket.sidecars.map fun sidecars =>
          sidecars.erase (FsStorage.sidecarName encoded) } := by
  simp [Bucket.remove, accepted, admitted]

/-- The order of two removals does not matter. -/
theorem remove_comm (bucket : Bucket) (first second : Str) :
    (bucket.remove first).remove second = (bucket.remove second).remove first := by
  cases left : refusal first with
  | some e => rw [remove_refused left, remove_refused left]
  | none =>
      cases right : refusal second with
      | some e => rw [remove_refused right, remove_refused right]
      | none =>
          obtain ⟨_, one, admitted⟩ := refusal_none left
          obtain ⟨_, other, again⟩ := refusal_none right
          rw [remove_accepted left admitted, remove_accepted right again, remove_accepted right again,
            remove_accepted left admitted]
          have objects : (bucket.objects.erase one).erase other = (bucket.objects.erase other).erase one :=
            Finmap.erase_erase
          cases kept : bucket.sidecars with
          | none => simp [objects]
          | some sidecars =>
              have records : (sidecars.erase (FsStorage.sidecarName one)).erase
                    (FsStorage.sidecarName other) =
                  (sidecars.erase (FsStorage.sidecarName other)).erase (FsStorage.sidecarName one) :=
                Finmap.erase_erase
              simp [objects, records]

instance : RightCommutative Bucket.remove := ⟨remove_comm⟩

/-- What is there after a removal was there before. -/
theorem remove_object {n : Str} {body : Bytes}
    (stored : (bucket.remove key).objects.lookup n = some body) : bucket.objects.lookup n = some body := by
  cases refused : refusal key with
  | some e => rwa [remove_refused refused] at stored
  | none =>
      obtain ⟨_, own, admitted⟩ := refusal_none refused
      rw [remove_accepted refused admitted] at stored
      by_cases same : n = own
      · subst same
        simp at stored
      · rwa [Finmap.lookup_erase_ne same] at stored

theorem remove_sound (sound : bucket.Sound name) (key : Str) : (bucket.remove key).Sound name := by
  cases refused : refusal key with
  | some e => rwa [remove_refused refused]
  | none =>
      obtain ⟨_, encoded, admitted⟩ := refusal_none refused
      rw [remove_accepted refused admitted]
      have bare := sound_erase_object encoded sound
      cases kept : bucket.sidecars with
      | none => simpa [kept] using bare
      | some sidecars => exact sound_erase_sidecar (FsStorage.sidecarName encoded) bare kept

theorem remove_paired (paired : bucket.Paired) (key : Str) : (bucket.remove key).Paired := by
  cases refused : refusal key with
  | some e => rwa [remove_refused refused]
  | none =>
      obtain ⟨_, own, admitted⟩ := refusal_none refused
      rw [remove_accepted refused admitted]
      intro erased encoded objectMeta kept record
      obtain ⟨sidecars, before, rfl⟩ := Option.map_eq_some_iff.mp kept
      by_cases same : encoded = own
      · subst same
        simp at record
      · have different : FsStorage.sidecarName encoded ≠ FsStorage.sidecarName own :=
          fun clash => same (sidecar_injective clash)
        rw [Finmap.lookup_erase_ne different] at record
        obtain ⟨body, stored⟩ := paired sidecars encoded objectMeta before record
        exact ⟨body, by simpa [Finmap.lookup_erase_ne same] using stored⟩

theorem stores_remove (accepted : refusal key = none) (other : Str) :
    (bucket.remove key).Stores other ↔ other ≠ key ∧ bucket.Stores other := by
  obtain ⟨_, own, admitted⟩ := refusal_none accepted
  rw [remove_accepted accepted admitted]
  constructor
  · rintro ⟨encoded, body, again, stored⟩
    by_cases same : encoded = own
    · subst same
      simp at stored
    · refine ⟨?_, encoded, body, again, by simpa [Finmap.lookup_erase_ne same] using stored⟩
      rintro rfl
      exact same (Except.ok.inj (again.symm.trans admitted))
  · rintro ⟨different, encoded, body, again, stored⟩
    have other : encoded ≠ own := by
      rintro rfl
      exact different (encode_key_injective again admitted)
    exact ⟨encoded, body, again, by simpa [Finmap.lookup_erase_ne other] using stored⟩

theorem record_remove (accepted : refusal key = none) {other : Str} (different : other ≠ key) :
    (bucket.remove key).recordOf nameMax other = bucket.recordOf nameMax other := by
  obtain ⟨_, own, admitted⟩ := refusal_none accepted
  rw [remove_accepted accepted admitted]
  unfold Bucket.recordOf
  cases again : encodeKey other with
  | error e => rfl
  | ok encoded =>
      have apart : FsStorage.sidecarName encoded ≠ FsStorage.sidecarName own := by
        intro clash
        obtain rfl := sidecar_injective clash
        exact different (encode_key_injective again admitted)
      cases kept : bucket.sidecars <;> simp [Except.toOption, Finmap.lookup_erase_ne apart]

theorem remove_complete (complete : bucket.Complete nameMax) (key : Str) :
    (bucket.remove key).Complete nameMax := by
  cases refused : refusal key with
  | some e => rwa [remove_refused refused]
  | none =>
      constructor
      · obtain ⟨_, encoded, admitted⟩ := refusal_none refused
        rw [remove_accepted refused admitted]
        simpa using complete.sidecars
      · intro other stored
        obtain ⟨different, before⟩ := (stores_remove refused other).mp stored
        rw [record_remove refused different]
        exact complete.records other before

theorem remove_consistent (consistent : bucket.Consistent nameMax) (key : Str) :
    (bucket.remove key).Consistent nameMax :=
  ⟨remove_complete consistent.complete key, remove_paired consistent.paired key⟩

/-- In a consistent bucket a key without a body has nothing to remove. -/
theorem remove_absent (paired : bucket.Paired) (admitted : encodeKey key = .ok encoded)
    (absent : bucket.objects.lookup encoded = none) : bucket.remove key = bucket := by
  cases refused : refusal key with
  | some e => exact remove_refused refused
  | none =>
      rw [remove_accepted refused admitted]
      have objects : bucket.objects.erase encoded = bucket.objects := by
        apply Finmap.ext_lookup
        intro n
        by_cases same : n = encoded
        · rw [same, Finmap.lookup_erase, absent]
        · rw [Finmap.lookup_erase_ne same]
      have records : (bucket.sidecars.map fun sidecars =>
          sidecars.erase (FsStorage.sidecarName encoded)) = bucket.sidecars := by
        cases kept : bucket.sidecars with
        | none => rfl
        | some sidecars =>
            apply congrArg some
            apply Finmap.ext_lookup
            intro n
            by_cases same : n = FsStorage.sidecarName encoded
            · rw [same, Finmap.lookup_erase]
              cases record : sidecars.lookup (FsStorage.sidecarName encoded) with
              | none => rfl
              | some objectMeta =>
                  obtain ⟨body, stored⟩ := paired sidecars encoded objectMeta kept record
                  rw [absent] at stored
                  cases stored
            · rw [Finmap.lookup_erase_ne same]
      rw [objects, records]

/-- Every path but those of the key is as before. -/
theorem view_remove {crates : Crates} {inner : List Str}
    (apart : ∀ encoded, encodeKey key = .ok encoded →
      inner ≠ [objectsName, encoded] ∧ inner ≠ [metaName, FsStorage.sidecarName encoded]) :
    (bucket.remove key).view crates inner = bucket.view crates inner := by
  cases refused : refusal key with
  | some e => rw [remove_refused refused]
  | none =>
      obtain ⟨_, encoded, admitted⟩ := refusal_none refused
      obtain ⟨noObject, noRecord⟩ := apart encoded admitted
      have bare := congrFun (view_erase_object crates bucket encoded) inner
      rw [Function.update_of_ne noObject] at bare
      rw [remove_accepted refused admitted]
      cases kept : bucket.sidecars with
      | none => simpa [kept] using bare
      | some sidecars =>
          have record := congrFun (view_erase_sidecar crates
            { bucket with objects := bucket.objects.erase encoded } (FsStorage.sidecarName encoded) kept) inner
          rw [Function.update_of_ne noRecord] at record
          exact record.trans bare

end Remove

/-! ### One delete -/

theorem set_twice (store : Store) (name : Str) (first second : Bucket) :
    (store.setBucket name first).setBucket name second = store.setBucket name second := by
  unfold Store.setBucket
  rw [Finmap.insert_insert]

/-- In a consistent bucket a delete removes the object, fails with the refusal of the key, or
finds nothing. -/
theorem delete_consistent {store : Store} {nameMax : Option Nat} {name : Str} {bucket : Bucket}
    (sound : bucket.Sound name) (consistent : bucket.Consistent nameMax)
    (present : store.buckets.lookup name = some bucket) (key : Str) :
    (store.deleteObject nameMax name key).2 = store.setBucket name (bucket.remove key) ∧
      match refusal key with
      | some e => (store.deleteObject nameMax name key).1 = .error e
      | none => (store.deleteObject nameMax name key).1 = .ok () ∨
          (store.deleteObject nameMax name key).1 = .error (.NoSuchKey key) := by
  unfold Store.deleteObject
  simp only [sound.valid]
  cases admitted : encodeKey key with
  | error e =>
      have refused : refusal key = some e := by simp [refusal, admitted]
      rw [remove_refused refused, setBucket_same present, refused]
      exact ⟨rfl, rfl⟩
  | ok encoded =>
      simp only [present]
      by_cases empty : key = []
      · have refused : refusal key = some (.Io (.os .EISDIR)) := by
          rw [refusal, admitted]
          exact if_pos empty
        rw [remove_refused refused, setBucket_same present, refused, if_pos empty]
        exact ⟨rfl, rfl⟩
      · have accepted : refusal key = none := by simp [refusal, admitted, empty]
        rw [if_neg empty, accepted]
        cases stored : bucket.objects.lookup encoded with
        | none =>
            rw [remove_absent consistent.paired admitted stored, setBucket_same present]
            exact ⟨rfl, .inr rfl⟩
        | some body =>
            -- A stored key has a record that can be read, so its name fits.
            obtain ⟨objectMeta, record, _⟩ := consistent.complete.records key ⟨encoded, body, admitted, stored⟩
            rw [remove_accepted accepted admitted]
            unfold Bucket.recordOf at record
            cases kept : bucket.sidecars with
            | none => simp [admitted, kept, Except.toOption] at record
            | some sidecars =>
                have short : exceeds nameMax (FsStorage.sidecarName encoded) = false := by
                  by_contra long
                  simp [admitted, kept, Except.toOption, long] at record
                simp [short]

/-! ### All deletes -/

section Batch
variable {crates : Crates} {storage : FsStorage} {s : FS} {store : Store} {name : Str} {bucket : Bucket}

/-- The entries that are reported deleted. -/
def deletions (quiet : Bool) (objects : List ObjectIdentifier) : List DeletedObject :=
  if quiet then [] else
    (objects.filter fun obj => (refusal obj.key).isNone).map fun obj => ⟨some obj.key⟩

/-- The entries that are reported as errors. -/
def refusals (texts : Texts) (objects : List ObjectIdentifier) : List DeleteError :=
  objects.filterMap fun obj => (refusal obj.key).map fun e =>
    ⟨some "InternalError".toList, some obj.key, some (e.text texts)⟩

def Bucket.removeAll (bucket : Bucket) (objects : List ObjectIdentifier) : Bucket :=
  (objects.map ObjectIdentifier.key).foldl Bucket.remove bucket

section Entries
variable {obj : ObjectIdentifier} (rest : List ObjectIdentifier)

theorem refusals_refused (texts : Texts) {e : StorageError} (refused : refusal obj.key = some e) :
    refusals texts (obj :: rest) =
      ⟨some "InternalError".toList, some obj.key, some (e.text texts)⟩ :: refusals texts rest := by
  rw [refusals, List.filterMap_cons, refused]
  rfl

theorem refusals_accepted (texts : Texts) (accepted : refusal obj.key = none) :
    refusals texts (obj :: rest) = refusals texts rest := by
  rw [refusals, List.filterMap_cons, accepted]
  rfl

theorem deletions_refused (quiet : Bool) {e : StorageError} (refused : refusal obj.key = some e) :
    deletions quiet (obj :: rest) = deletions quiet rest := by
  simp [deletions, refused]

theorem deletions_accepted (quiet : Bool) (deleted : List DeletedObject)
    (accepted : refusal obj.key = none) :
    deleted ++ deletions quiet (obj :: rest) =
      (if quiet then deleted else deleted ++ [⟨some obj.key⟩]) ++ deletions quiet rest := by
  cases quiet <;> simp [deletions, accepted]

end Entries

theorem wp_deleteEach (texts : Texts) (holds : Holds crates storage s store)
    (present : store.buckets.lookup name = some bucket) (consistent : bucket.Consistent s.nameMax)
    (quiet : Bool) (objects : List ObjectIdentifier) (deleted : List DeletedObject)
    (errors : List DeleteError) :
    wp faultFree (deleteEach storage texts name quiet objects deleted errors) (fun outcome after =>
      outcome = .ok (deleted ++ deletions quiet objects, errors ++ refusals texts objects) ∧
        Holds crates storage after (store.setBucket name (bucket.removeAll objects)) ∧
        after.nameMax = s.nameMax) s := by
  induction objects generalizing s store bucket deleted errors with
  | nil =>
      have nothing : deletions quiet [] = [] := by cases quiet <;> rfl
      unfold deleteEach
      rw [Prog.pure_eq, wp_done, nothing, List.append_nil, refusals, List.filterMap_nil, List.append_nil,
        Bucket.removeAll, List.map_nil, List.foldl_nil, setBucket_same present]
      exact ⟨rfl, holds, rfl⟩
  | cons obj rest ih =>
      have sound := holds.sound.buckets name bucket present
      have erased := delete_consistent sound consistent present obj.key
      unfold deleteEach
      simp only []
      rw [wp_bind, wp_attempt]
      apply wp_mono (wp_limited (delete_refines holds name obj.key))
      rintro outcome middle ⟨⟨rfl, after⟩, limit⟩
      rw [erased.1] at after
      have there : (store.setBucket name (bucket.remove obj.key)).buckets.lookup name =
          some (bucket.remove obj.key) := Finmap.lookup_insert _
      have still := remove_consistent consistent obj.key
      rw [← limit] at still
      have later := ih after there still
      rw [set_twice, limit] at later
      cases refused : refusal obj.key with
      | some e =>
          have answered := erased.2
          rw [refused] at answered
          simp only [] at answered
          simp only [answered]
          rw [refusals_refused rest texts refused, deletions_refused rest quiet refused]
          have reached := later deleted (errors ++
            [⟨some "InternalError".toList, some obj.key, some (e.text texts)⟩])
          rw [List.append_assoc] at reached
          cases e with
          | NoSuchKey text => exact absurd rfl (refusal_not_missing refused text)
          | _ => exact reached
      | none =>
          have answered := erased.2
          rw [refused] at answered
          simp only [] at answered
          rw [refusals_accepted rest texts refused, deletions_accepted rest quiet deleted refused]
          rcases answered with found | missing
          · rw [found]
            exact later _ errors
          · rw [missing]
            exact later _ errors

/-! What the removals leave. -/

theorem removeAll_sound (sound : bucket.Sound name) (objects : List ObjectIdentifier) :
    (bucket.removeAll objects).Sound name := by
  induction objects generalizing bucket with
  | nil => exact sound
  | cons obj rest ih => exact ih (remove_sound sound obj.key)

theorem removeAll_consistent {nameMax : Option Nat} (consistent : bucket.Consistent nameMax)
    (objects : List ObjectIdentifier) : (bucket.removeAll objects).Consistent nameMax := by
  induction objects generalizing bucket with
  | nil => exact consistent
  | cons obj rest ih => exact ih (remove_consistent consistent obj.key)

theorem stores_removeAll (bucket : Bucket) (objects : List ObjectIdentifier) (key : Str) :
    (bucket.removeAll objects).Stores key ↔
      bucket.Stores key ∧ ∀ obj ∈ objects, refusal obj.key = none → obj.key ≠ key := by
  induction objects generalizing bucket with
  | nil => simp [Bucket.removeAll]
  | cons obj rest ih =>
      have first : (bucket.remove obj.key).Stores key ↔
          bucket.Stores key ∧ (refusal obj.key = none → obj.key ≠ key) := by
        cases refused : refusal obj.key with
        | some e => simp [remove_refused refused]
        | none =>
            rw [stores_remove refused, and_comm]
            simp [ne_comm]
      have later := ih (bucket.remove obj.key)
      rw [first] at later
      rw [List.forall_mem_cons, ← and_assoc]
      exact later

theorem view_removeAll {inner : List Str} (bucket : Bucket) (objects : List ObjectIdentifier)
    (apart : ∀ obj ∈ objects, ∀ encoded, encodeKey obj.key = .ok encoded →
      inner ≠ [objectsName, encoded] ∧ inner ≠ [metaName, FsStorage.sidecarName encoded]) :
    (bucket.removeAll objects).view crates inner = bucket.view crates inner := by
  induction objects generalizing bucket with
  | nil => rfl
  | cons obj rest ih =>
      have later := ih (bucket.remove obj.key) fun other member =>
        apart other (List.mem_cons_of_mem obj member)
      exact later.trans (view_remove (apart obj List.mem_cons_self))

theorem removeAll_perm {left right : List ObjectIdentifier} (same : left.Perm right) :
    bucket.removeAll left = bucket.removeAll right :=
  (same.map ObjectIdentifier.key).foldl_eq bucket

/-! ### What the request does -/

/-- A list as it stands in a response, which has no empty lists. -/
def reported {Value : Type} (entries : List Value) : Option (List Value) :=
  if entries.isEmpty then none else some entries

/-- The response to a batch. -/
def batchResponse (quiet : Option Bool) (deleted : List DeletedObject) (errors : List DeleteError) :
    S3Response DeleteObjectsOutput :=
  { output :=
    { deleted := if quiet = some true then none else reported deleted
      errors := reported errors } }

/-- The entries of a batch, sorted: each of them on one side, in the order of the request. -/
structure Sorted (objects : List ObjectIdentifier) (deleted : List DeletedObject)
    (errors : List DeleteError) : Prop where
  gone : deleted.map DeletedObject.key = ((objects.map ObjectIdentifier.key).filter fun key =>
    !(key = [] || !(encodeKey key).isOk)).map some
  failed : errors.map DeleteError.key = ((objects.map ObjectIdentifier.key).filter fun key =>
    key = [] || !(encodeKey key).isOk).map some
  once : (deleted.map DeletedObject.key ++ errors.map DeleteError.key).Perm
    (objects.map fun obj => some obj.key)
  coded : ∀ e ∈ errors, e.code = some "InternalError".toList

theorem refusals_keys (texts : Texts) (objects : List ObjectIdentifier) :
    (refusals texts objects).map DeleteError.key =
      ((objects.map ObjectIdentifier.key).filter fun key =>
        key = [] || !(encodeKey key).isOk).map some := by
  have same : (fun key : Str => key = [] || !(encodeKey key).isOk) = fun key => (refusal key).isSome := by
    funext key
    exact (refusal_some key).symm
  rw [same]
  induction objects with
  | nil => rfl
  | cons obj rest ih =>
      cases refused : refusal obj.key with
      | some e =>
          have taken : (refusal obj.key).isSome = true := by rw [refused]; rfl
          rw [refusals_refused rest texts refused, List.map_cons, ih, List.map_cons,
            List.filter_cons_of_pos (p := fun key => (refusal key).isSome) taken]
          rfl
      | none =>
          have left : ¬ (refusal obj.key).isSome = true := by simp [refused]
          rw [refusals_accepted rest texts refused, ih, List.map_cons,
            List.filter_cons_of_neg (p := fun key => (refusal key).isSome) left]

theorem batch_sorted (texts : Texts) (objects : List ObjectIdentifier) :
    Sorted objects (deletions false objects) (refusals texts objects) := by
  have gone : (deletions false objects).map DeletedObject.key =
      ((objects.map ObjectIdentifier.key).filter fun key =>
        !(key = [] || !(encodeKey key).isOk)).map some := by
    rw [deletions, List.filter_map, List.map_map]
    simp only [Bool.false_eq_true, if_false, List.map_map]
    have same : (fun obj : ObjectIdentifier => (refusal obj.key).isNone) =
        (fun key => !(key = [] || !(encodeKey key).isOk)) ∘ ObjectIdentifier.key := by
      funext obj
      rw [Function.comp_apply, ← refusal_some, Option.not_isSome]
    rw [same]
    rfl
  have failed := refusals_keys texts objects
  refine ⟨gone, failed, ?_, ?_⟩
  · rw [gone, failed, ← List.map_append]
    have both := List.filter_append_perm (fun key => key = [] || !(encodeKey key).isOk)
      (objects.map ObjectIdentifier.key)
    have whole := (List.perm_append_comm.trans both).map some
    rw [List.map_map] at whole
    exact whole
  · intro e member
    obtain ⟨obj, _, made⟩ := List.mem_filterMap.mp member
    obtain ⟨_, _, rfl⟩ := Option.map_eq_some_iff.mp made
    rfl

/-- The bucket once the request is answered. -/
structure Removed (crates : Crates) (storage : FsStorage) (name : Str) (objects : List ObjectIdentifier)
    (before after : FS) : Prop where
  gone : ∀ obj ∈ objects, ∀ encoded, encodeKey obj.key = .ok encoded → obj.key ≠ [] →
    exceeds before.nameMax (FsStorage.sidecarName encoded) = false →
    wp faultFree (headObject crates storage name obj.key)
      (fun outcome _ => ∃ text, outcome = .error (.NoSuchKey text)) after ∧
    ∀ range, wp faultFree (getObject crates storage name obj.key range)
      (fun outcome _ => ∃ text, outcome = .error (.NoSuchKey text)) after
  unlisted : ∀ req, wp faultFree (listObjectsV2 crates storage name req) (fun outcome _ =>
    (req.continuationToken = none → outcome.isOk = true) ∧
    ∀ page, outcome = .ok page → ∀ o ∈ page.objects, ∀ obj ∈ objects, obj.key ≠ [] →
      (encodeKey obj.key).isOk = true → o.key ≠ obj.key) after
  others : ∀ key encoded, encodeKey key = .ok encoded → (∀ obj ∈ objects, obj.key ≠ key) →
    ∀ inner ∈ [[name, objectsName, encoded], [name, metaName, FsStorage.sidecarName encoded]],
      under storage.dataRoot after.look inner = under storage.dataRoot before.look inner
  aside : ∀ inner, (∀ obj ∈ objects, ∀ encoded, encodeKey obj.key = .ok encoded →
      inner ≠ [name, objectsName, encoded] ∧ inner ≠ [name, metaName, FsStorage.sidecarName encoded]) →
    under storage.dataRoot after.look inner = under storage.dataRoot before.look inner

theorem refusal_of {key encoded : Str} (admitted : encodeKey key = .ok encoded) (nonempty : key ≠ []) :
    refusal key = none := by
  rw [refusal, admitted]
  exact if_neg nonempty

theorem removed_others {before after : FS} {objects : List ObjectIdentifier}
    (aside : ∀ inner, (∀ obj ∈ objects, ∀ encoded, encodeKey obj.key = .ok encoded →
        inner ≠ [name, objectsName, encoded] ∧ inner ≠ [name, metaName, FsStorage.sidecarName encoded]) →
      under storage.dataRoot after.look inner = under storage.dataRoot before.look inner)
    {key encoded : Str} (admitted : encodeKey key = .ok encoded) (apart : ∀ obj ∈ objects, obj.key ≠ key) :
    ∀ inner ∈ [[name, objectsName, encoded], [name, metaName, FsStorage.sidecarName encoded]],
      under storage.dataRoot after.look inner = under storage.dataRoot before.look inner := by
  intro inner member
  apply aside
  intro obj inside other again
  have different : encoded ≠ other := by
    rintro rfl
    exact apart obj inside (encode_key_injective again admitted)
  have records : FsStorage.sidecarName encoded ≠ FsStorage.sidecarName other :=
    fun clash => different (sidecar_injective clash)
  rcases List.mem_cons.mp member with rfl | record
  · simp [different]
  · obtain rfl := List.mem_singleton.mp record
    simp [records]

/-- In a consistent bucket no record is left under a key that is not stored. -/
theorem record_absent {key encoded : Str} {sidecars : Names ObjectMeta} (paired : bucket.Paired)
    (kept : bucket.sidecars = some sidecars) (admitted : encodeKey key = .ok encoded)
    (absent : ¬ bucket.Stores key) : sidecars.lookup (FsStorage.sidecarName encoded) = none := by
  cases record : sidecars.lookup (FsStorage.sidecarName encoded) with
  | none => rfl
  | some objectMeta =>
      obtain ⟨body, stored⟩ := paired sidecars encoded objectMeta kept record
      exact absurd ⟨encoded, body, admitted, stored⟩ absent

theorem head_absent {key encoded : Str} {nameMax : Option Nat} (consistent : bucket.Consistent nameMax)
    (sound : bucket.Sound name) (present : store.buckets.lookup name = some bucket)
    (admitted : encodeKey key = .ok encoded) (absent : ¬ bucket.Stores key)
    (short : exceeds nameMax (FsStorage.sidecarName encoded) = false) :
    ∃ text, store.headObject storage nameMax name key = .error (.NoSuchKey text) := by
  refine ⟨(storage.metaPath name encoded).display, ?_⟩
  cases kept : bucket.sidecars with
  | none => simp [Store.headObject, sound.valid, admitted, present, kept]
  | some sidecars =>
      have nothing := record_absent consistent.paired kept admitted absent
      simp [Store.headObject, sound.valid, admitted, present, kept, short, nothing]

theorem restrict_mem {sorted found : List Str} {pfx : Option Str}
    (ended : (match pfx with
      | none => pure sorted
      | some pfx => pure (sorted.filter fun k => startsWith k pfx) :
        Except StorageError (List Str)) = .ok found) :
    ∀ key ∈ found, key ∈ sorted := by
  intro key member
  cases pfx with
  | none =>
      obtain rfl := Except.ok.inj ended
      exact member
  | some label =>
      obtain rfl := Except.ok.inj ended
      exact (List.mem_filter.mp member).1

theorem select_mem {keys found : List Str} {req : ListV2Req} (selected : selectKeys keys req = .ok found) :
    ∀ key ∈ found, key ∈ keys := by
  intro key member
  unfold selectKeys at selected
  cases token : req.continuationToken with
  | none =>
      rw [token] at selected
      exact (List.mem_insertionSort _).mp (restrict_mem selected key member)
  | some text =>
      rw [token] at selected
      cases decoded : decodeContinuationToken text with
      | error e =>
          simp only [decoded] at selected
          cases selected
      | ok after =>
          simp only [decoded] at selected
          exact (List.mem_insertionSort _).mp (List.mem_filter.mp (restrict_mem selected key member)).1

/-- What a page lists is stored. -/
theorem page_stored {nameMax : Option Nat} (complete : bucket.Complete nameMax) (sound : bucket.Sound name)
    (present : store.buckets.lookup name = some bucket) {req : ListV2Req} {page : ListV2Res}
    (answered : store.listObjectsV2 storage nameMax name req = .ok page) :
    ∀ o ∈ page.objects, bucket.Stores o.key := by
  cases selected : selectKeys (Store.scannedKeys bucket) req with
  | error e => simp [Store.listObjectsV2, sound.valid, present, selected] at answered
  | ok keys =>
      obtain ⟨⟨records, _⟩, _⟩ := list_page storage sound.valid present selected answered
      intro o member
      obtain ⟨position, inside, rfl⟩ := List.getElem_of_mem member
      have counted : position <
          (((pageEntries req keys).take (effectiveMaxKeys req)).filterMap Entry.alone).length := by
        rwa [records.length_eq]
      have record := records.get counted inside
      have taken := List.getElem_mem counted
      obtain ⟨entry, among, alone⟩ := List.mem_filterMap.mp taken
      have selectedKey := last_mem (List.mem_of_mem_take among)
      cases entry with
      | group label last => cases alone
      | single own =>
          obtain same := Option.some.inj alone
          have scanned := select_mem selected own selectedKey
          have stored := (mem_scanned sound own).mp scanned
          simp only [List.get_eq_getElem, ← same] at record
          rw [complete_named complete stored record]
          exact stored

theorem wp_s3DeleteObjects (texts : Texts) (holds : Holds crates storage s store)
    (present : store.buckets.lookup name = some bucket) (consistent : bucket.Consistent s.nameMax)
    (objects : List ObjectIdentifier) (quiet : Option Bool) :
    wp faultFree (s3DeleteObjects storage texts name ⟨objects, quiet⟩) (fun outcome after =>
      outcome = .ok (batchResponse quiet (deletions false objects) (refusals texts objects)) ∧
        Holds crates storage after (store.setBucket name (bucket.removeAll objects)) ∧
        after.nameMax = s.nameMax) s := by
  unfold s3DeleteObjects
  simp only []
  rw [wp_bind]
  apply wp_mono (wp_deleteEach texts holds present consistent (quiet.getD false) objects [] [])
  rintro outcome after ⟨rfl, reached, limit⟩
  refine ⟨?_, reached, limit⟩
  rcases quiet with _ | _ | _ <;> rfl

/-- A bucket that has lost the keys, seen through the operations. -/
theorem removed_holds {before after : FS} (holds : Holds crates storage before store)
    (present : store.buckets.lookup name = some bucket) (consistent : bucket.Consistent before.nameMax)
    (objects : List ObjectIdentifier)
    (reached : Holds crates storage after (store.setBucket name (bucket.removeAll objects)))
    (limit : after.nameMax = before.nameMax) : Removed crates storage name objects before after := by
  have still := removeAll_consistent consistent objects
  rw [← limit] at still
  have there : (store.setBucket name (bucket.removeAll objects)).buckets.lookup name =
      some (bucket.removeAll objects) := Finmap.lookup_insert _
  have sound := reached.sound.buckets name _ there
  have lost : ∀ obj ∈ objects, refusal obj.key = none → ¬ (bucket.removeAll objects).Stores obj.key := by
    intro obj member accepted stored
    exact ((stores_removeAll bucket objects obj.key).mp stored).2 obj member accepted rfl
  have aside : ∀ inner, (∀ obj ∈ objects, ∀ encoded, encodeKey obj.key = .ok encoded →
        inner ≠ [name, objectsName, encoded] ∧ inner ≠ [name, metaName, FsStorage.sidecarName encoded]) →
      under storage.dataRoot after.look inner = under storage.dataRoot before.look inner := by
    intro inner apart
    rw [reached.seen, holds.seen, view_setBucket (bucket_not_uploads sound.valid)]
    cases inner with
    | nil => rfl
    | cons first rest =>
        by_cases own : first = name
        · subst own
          rw [List.head?_cons, if_pos rfl, view_bucket (bucket_not_uploads sound.valid), present]
          apply view_removeAll bucket objects
          intro obj member encoded admitted
          obtain ⟨noObject, noRecord⟩ := apart obj member encoded admitted
          exact ⟨fun same => noObject (congrArg _ same), fun same => noRecord (congrArg _ same)⟩
        · rw [if_neg]
          simpa using own
  refine ⟨?_, ?_, fun key encoded => removed_others aside, aside⟩
  · intro obj member encoded admitted nonempty short
    rw [← limit] at short
    have absent := lost obj member (refusal_of admitted nonempty)
    have missing : ∃ text, (store.setBucket name (bucket.removeAll objects)).headObject storage
        after.nameMax name obj.key = .error (.NoSuchKey text) :=
      head_absent still sound there admitted absent short
    obtain ⟨text, answered⟩ := missing
    constructor
    · rw [head_refines reached]
      exact ⟨text, answered⟩
    · intro range
      unfold getObject
      rw [wp_bind, wp_lift, sound.valid]
      simp only []
      rw [wp_bind, wp_lift, admitted]
      simp only []
      rw [wp_bind, wp_readSidecar reached sound.valid admitted, answered]
      exact ⟨text, rfl⟩
  · intro req
    apply list_refines reached
    constructor
    · intro fresh
      have selected := select_first (Store.scannedKeys (bucket.removeAll objects)) req fresh
      have readable : ∀ key ∈ matching (Store.scannedKeys (bucket.removeAll objects)) req.pfx,
          ∃ objectMeta, (bucket.removeAll objects).recordOf after.nameMax key = some objectMeta := by
        intro key member
        have scanned := (List.mem_insertionSort _).mp (List.mem_filter.mp member).1
        obtain ⟨objectMeta, record, _⟩ := still.complete.records key ((mem_scanned sound key).mp scanned)
        exact ⟨objectMeta, record⟩
      obtain ⟨page, answered⟩ := list_page_found storage sound.valid there selected readable
      rw [answered]
      rfl
    · intro page answered o listed obj member nonempty accepted same
      have stored := page_stored still.complete sound there answered o listed
      rw [same] at stored
      have ⟨encoded, _, admitted, _⟩ := stored
      exact lost obj member (refusal_of admitted nonempty) stored

/-- A batch sorts its entries, removes what it reports deleted and nothing else, and comes to
the same end in any order. -/
theorem batch_delete_partitions (texts : Texts) (holds : Holds crates storage s store)
    (present : store.buckets.lookup name = some bucket) (consistent : bucket.Consistent s.nameMax)
    (objects : List ObjectIdentifier) :
    ∃ deleted errors, Sorted objects deleted errors ∧ ∀ quiet,
      wp faultFree (s3DeleteObjects storage texts name ⟨objects, quiet⟩) (fun outcome after =>
        outcome = .ok (batchResponse quiet deleted errors) ∧
        Removed crates storage name objects s after ∧
        ∀ permuted, permuted.Perm objects →
          wp faultFree (s3DeleteObjects storage texts name ⟨permuted, quiet⟩) (fun outcome final =>
            ∃ gone failed, outcome = .ok (batchResponse quiet gone failed) ∧ gone.Perm deleted ∧
              failed.Perm errors ∧
              under storage.dataRoot final.look = under storage.dataRoot after.look) s) s := by
  refine ⟨_, _, batch_sorted texts objects, ?_⟩
  intro quiet
  apply wp_mono (wp_s3DeleteObjects texts holds present consistent objects quiet)
  rintro outcome after ⟨rfl, reached, limit⟩
  refine ⟨rfl, removed_holds holds present consistent objects reached limit, ?_⟩
  intro permuted same
  apply wp_mono (wp_s3DeleteObjects texts holds present consistent permuted quiet)
  rintro outcome final ⟨rfl, ended, _⟩
  refine ⟨_, _, rfl, ?_, same.filterMap _, ?_⟩
  · exact (same.filter _).map _
  · rw [ended.seen, reached.seen, removeAll_perm same]

end Batch

/-! ### A batch on the photos -/

theorem batch_delete_partitions_photos : ∃ s store old,
    Holds Crates.reference Reference.storage s store ∧
    store.buckets.lookup Reference.bucket = some old ∧ old.objects.keys.card = 1 ∧
    ∃ deleted errors, Sorted [⟨['a']⟩, ⟨[]⟩, ⟨['a']⟩] deleted errors ∧ ∀ quiet,
      wp faultFree (s3DeleteObjects Reference.storage Reference.texts Reference.bucket
        ⟨[⟨['a']⟩, ⟨[]⟩, ⟨['a']⟩], quiet⟩) (fun outcome after =>
        outcome = .ok (batchResponse quiet deleted errors) ∧
        Removed Crates.reference Reference.storage Reference.bucket [⟨['a']⟩, ⟨[]⟩, ⟨['a']⟩] s after ∧
        ∀ permuted, permuted.Perm [⟨['a']⟩, ⟨[]⟩, ⟨['a']⟩] →
          wp faultFree (s3DeleteObjects Reference.storage Reference.texts Reference.bucket
            ⟨permuted, quiet⟩) (fun outcome final =>
            ∃ gone failed, outcome = .ok (batchResponse quiet gone failed) ∧ gone.Perm deleted ∧
              failed.Perm errors ∧ under Reference.storage.dataRoot final.look =
                under Reference.storage.dataRoot after.look) s) s := by
  obtain ⟨s, store, old, _, holds, present, _, complete, paired, count, _⟩ := Reference.hello_alone
  exact ⟨s, store, old, holds, present, count,
    batch_delete_partitions Reference.texts holds present ⟨complete _ old present, paired⟩ _⟩

/-- The empty key fails, and a key whose record has too long a name is deleted without being
missing. -/
theorem long_key_deleted {key encoded : Str} (admitted : encodeKey key = .ok encoded)
    (nonempty : key ≠ []) (long : exceeds (some 255) (FsStorage.sidecarName encoded) = true) :
    ∃ s after store old, Holds Crates.reference Reference.storage s store ∧
      store.buckets.lookup Reference.bucket = some old ∧ old.Consistent s.nameMax ∧
      Runs faultFree (s3DeleteObjects Reference.storage Reference.texts Reference.bucket
        ⟨[⟨[]⟩, ⟨key⟩], none⟩) s
        (.ok (batchResponse none [⟨some key⟩]
          [⟨some "InternalError".toList, some [], some "I/O error: ".toList⟩])) after ∧
      wp faultFree (headObject Crates.reference Reference.storage Reference.bucket key)
        (fun outcome _ => outcome = .error (.Io (.os .ENAMETOOLONG))) after := by
  obtain ⟨s, store, info, limit, holds, present⟩ := Reference.bucket_made (some 255) (.inr rfl)
  have consistent : (Bucket.fresh info).Consistent s.nameMax :=
    ⟨fresh_complete s.nameMax info, fresh_paired info⟩
  have empty : encodeKey [] = .ok [] := by decide
  have accepted := refusal_of admitted nonempty
  have refused : refusal [] = some (.Io (.os .EISDIR)) := by
    rw [refusal, empty]
    exact if_pos rfl
  have batch := wp_s3DeleteObjects Reference.texts holds present consistent [⟨[]⟩, ⟨key⟩] none
  obtain ⟨outcome, after, run, rfl, reached, same⟩ := wp_returns batch
  have gone : deletions false [⟨[]⟩, ⟨key⟩] = [⟨some key⟩] := by
    simp [deletions, refused, accepted]
  have failed : refusals Reference.texts [⟨[]⟩, ⟨key⟩] =
      [⟨some "InternalError".toList, some [], some "I/O error: ".toList⟩] := by
    simp only [refusals, List.filterMap_cons, refused, accepted, Option.map_some, Option.map_none,
      List.filterMap_nil]
    rfl
  have left : (Bucket.fresh info).removeAll [⟨[]⟩, ⟨key⟩] = .fresh info := by
    have first : (Bucket.fresh info).remove [] = .fresh info := remove_refused refused
    have second : (Bucket.fresh info).remove key = .fresh info :=
      remove_absent (fresh_paired info) admitted (Finmap.lookup_empty _)
    rw [Bucket.removeAll, List.map_cons, List.map_cons, List.map_nil, List.foldl_cons, List.foldl_cons,
      List.foldl_nil, first, second]
  rw [gone, failed] at run
  rw [left, setBucket_same present] at reached
  refine ⟨s, after, store, _, holds, present, consistent, run, ?_⟩
  have valid := (holds.sound.buckets _ _ present).valid
  rw [head_refines reached, same, limit]
  simp [Store.headObject, valid, admitted, present, Bucket.fresh, long]

theorem deleted_key_not_missing : encodeKey [] = .ok [] ∧ ∃ key, key = List.replicate 251 'a' ∧
    ∃ s after store old, Holds Crates.reference Reference.storage s store ∧
      store.buckets.lookup Reference.bucket = some old ∧ old.Consistent s.nameMax ∧
      Runs faultFree (s3DeleteObjects Reference.storage Reference.texts Reference.bucket
        ⟨[⟨[]⟩, ⟨key⟩], none⟩) s
        (.ok (batchResponse none [⟨some key⟩]
          [⟨some "InternalError".toList, some [], some "I/O error: ".toList⟩])) after ∧
      wp faultFree (headObject Crates.reference Reference.storage Reference.bucket key)
        (fun outcome _ => outcome = .error (.Io (.os .ENAMETOOLONG))) after := by
  have empty : encodeKey [] = .ok [] := by decide
  have admitted : encodeKey (List.replicate 251 'a') = .ok (List.replicate 251 'a') :=
    encode_key_replicate (by decide) (by omega)
  have long : exceeds (some 255) (FsStorage.sidecarName (List.replicate 251 'a')) = true := by
    decide +kernel
  exact ⟨empty, _, rfl, long_key_deleted admitted (List.cons_ne_nil _ _) long⟩

end Ferrobucket
