import Ferrobucket.ListingLoop
/-! Which keys can really be stored where names are limited to 255 bytes. The check of
`encode_key` is on the name of the body; the sidecar is five bytes longer. -/
namespace Ferrobucket
open Text Posix Program

/-- Look at an object in all three ways, and delete it. -/
def lookAndDelete (crates : Crates) (storage : FsStorage) (bucket key : Str) (maxKeys : Option Nat)
    (patience : Nat) : Op (Option (List ListV2Res)) := do
  let _ ← headObject crates storage bucket key
  let _ ← fetchObject crates storage bucket key
  let pages ← listAll crates storage bucket patience ⟨none, none, none, maxKeys⟩
  deleteObject storage bucket key
  pure pages

/-- Put an object first. -/
def storeAndLook (crates : Crates) (storage : FsStorage) (bucket key : Str) (chunks : List Bytes)
    (contentType : Option Str) (maxKeys : Option Nat) (patience : Nat) :
    Op (Option (List ListV2Res)) := do
  let _ ← putObject crates storage bucket key (chunks.map .ok) contentType
  lookAndDelete crates storage bucket key maxKeys patience

/-- Every call answered `Ok` and the listing had the key. -/
def StoredAndListed (key : Str) (outcome : Except StorageError (Option (List ListV2Res))) : Prop :=
  ∃ pages, outcome = .ok (some pages) ∧
    ∃ objectMeta ∈ pages.flatMap ListV2Res.objects, objectMeta.key = key

/-- Every stored key but one has a sidecar that can be read. -/
structure Bucket.ReadableBut (nameMax : Option Nat) (bucket : Bucket) (key : Str) : Prop where
  sidecars : bucket.sidecars.isSome = true
  records : ∀ other, other ≠ key → bucket.Stores other →
    ∃ objectMeta, bucket.recordOf nameMax other = some objectMeta

theorem sidecar_exceeds (encoded : Str) :
    exceeds (some 255) (FsStorage.sidecarName encoded) = false ↔ utf8Len encoded ≤ 250 := by
  simp only [exceeds, sidecar_length, decide_eq_false_iff_not]
  omega

theorem forall_two_mem {Left Right : Type} {related : Left → Right → Prop} {left : List Left}
    {right : List Right} (all : List.Forall₂ related left right) {first : Left} (member : first ∈ left) :
    ∃ second ∈ right, related first second := by
  induction all with
  | nil => cases member
  | cons head _ ih =>
      rcases List.mem_cons.mp member with rfl | later
      · exact ⟨_, List.mem_cons_self, head⟩
      · obtain ⟨second, inside, found⟩ := ih later
        exact ⟨second, List.mem_cons_of_mem _ inside, found⟩

section Limited
variable {crates : Crates} {storage : FsStorage} {s : FS} {store : Store} {bucket : Str}
  {old : Bucket}

/-- A listing without an error has read the sidecar of every body. -/
theorem listed_records (holds : Holds crates storage s store)
    (present : store.buckets.lookup bucket = some old) {patience : Nat} {maxKeys : Option Nat}
    {t : FS} {pages : List ListV2Res}
    (run : Runs faultFree (listAll crates storage bucket patience ⟨none, none, none, maxKeys⟩) s
      (.ok (some pages)) t) :
    ∀ key, old.Stores key → ∃ objectMeta ∈ pages.flatMap ListV2Res.objects,
      old.recordOf s.nameMax key = some objectMeta := by
  have sound := holds.sound.buckets bucket old present
  have selected := select_first (Store.scannedKeys old) ⟨none, none, none, maxKeys⟩ rfl
  obtain ⟨_, paged⟩ := listAll_run holds sound.valid present patience selected (.inl rfl) run
  have records := paged_objects paged
  rw [plain_entries rfl] at records
  intro key stored
  have member : key ∈ matching (Store.scannedKeys old) none :=
    List.mem_filter.mpr ⟨(List.mem_insertionSort _).mpr ((mem_scanned sound key).mpr stored), rfl⟩
  exact forall_two_mem records member

theorem stored_needs {key encoded : Str} {chunks : List Bytes} {contentType : Option Str}
    {maxKeys : Option Nat} {patience : Nat} (holds : Holds crates storage s store)
    (limit : s.nameMax = some 255) (present : store.buckets.lookup bucket = some old)
    (admitted : encodeKey key = .ok encoded) {pages : Option (List ListV2Res)} {t : FS}
    (run : Runs faultFree (storeAndLook crates storage bucket key chunks contentType maxKeys patience) s
      (.ok pages) t) (listed : pages.isSome = true) :
    utf8Len encoded ≤ 250 ∧ old.ReadableBut (some 255) key := by
  unfold storeAndLook at run
  obtain ⟨made, afterPut, put, run⟩ := runs_bind_ok run
  unfold lookAndDelete at run
  obtain ⟨head, afterHead, looked, run⟩ := runs_bind_ok run
  obtain ⟨fetched, afterFetch, read, run⟩ := runs_bind_ok run
  obtain ⟨found, afterList, list, run⟩ := runs_bind_ok run
  obtain ⟨_, afterDelete, _, run⟩ := runs_bind_ok run
  cases run
  obtain ⟨shown, rfl⟩ := Option.isSome_iff_exists.mp listed
  have limited := wp_limited (put_refines holds bucket key (chunks.map .ok) contentType)
  obtain ⟨⟨time, answered, still⟩, same⟩ := wp_runs limited put
  obtain ⟨own, name, sidecars, valid, again, names, _, _, kept, short, _, left⟩ :=
    Store.put_ok crates s.nameMax store answered.symm
  rw [present] at again
  obtain rfl := Option.some.inj again
  obtain rfl := Except.ok.inj (admitted.symm.trans names)
  rw [left] at still
  obtain rfl : afterHead = afterPut :=
    wp_runs ((head_refines still bucket key (fun _ after => after = afterPut)).mpr rfl) looked
  obtain rfl : afterFetch = afterHead :=
    wp_runs ((fetch_refines still bucket key (fun _ after => after = afterHead)).mpr rfl) read
  have records := listed_records still (Finmap.lookup_insert _) list
  rw [limit] at short same
  rw [same] at records
  refine ⟨(sidecar_exceeds encoded).mp short, by simp [kept], ?_⟩
  intro other different stored
  obtain ⟨objectMeta, _, record⟩ := records other ((stores_insert _ _ admitted other).mpr (.inr stored))
  rw [record_insert _ _ kept admitted short, if_neg different] at record
  exact ⟨objectMeta, record⟩

theorem scanned_insert {sidecars : Names ObjectMeta} {key encoded : Str} (content : Bytes)
    (objectMeta : ObjectMeta) (sound : old.Sound bucket)
    (still : (Store.storedBucket old sidecars encoded content objectMeta).Sound bucket)
    (admitted : encodeKey key = .ok encoded) :
    (Store.scannedKeys (Store.storedBucket old sidecars encoded content objectMeta)).length ≤
      (Store.scannedKeys old).length + 1 := by
  have among : Store.scannedKeys (Store.storedBucket old sidecars encoded content objectMeta) ⊆
      key :: Store.scannedKeys old := by
    intro other member
    have stored := (stores_insert content objectMeta admitted other).mp ((mem_scanned still other).mp member)
    rw [List.mem_cons, mem_scanned sound]
    exact stored
  exact (List.subperm_of_subset (scanned_nodup still) among).length_le

/-- A delete finds what a put has stored. -/
theorem delete_stored {nameMax : Option Nat} {sidecars : Names ObjectMeta} {key encoded : Str}
    (content : Bytes) (objectMeta : ObjectMeta) (valid : validateBucketName bucket = .ok ())
    (nonempty : key ≠ []) (admitted : encodeKey key = .ok encoded)
    (short : exceeds nameMax (FsStorage.sidecarName encoded) = false) :
    ((store.setBucket bucket (Store.storedBucket old sidecars encoded content objectMeta)).deleteObject
      nameMax bucket key).1 = .ok () := by
  simp [Store.deleteObject, valid, nonempty, admitted, short, Store.setBucket, Store.storedBucket]

theorem wp_lookAndDelete {key : Str} {objectMeta : ObjectMeta} {content : Bytes}
    {maxKeys : Option Nat} {patience : Nat} (holds : Holds crates storage s store)
    (present : store.buckets.lookup bucket = some old)
    (record : old.recordOf s.nameMax key = some objectMeta) (named : objectMeta.key = key)
    (stored : old.Stores key) (body : store.bodyOf bucket key = some content)
    (readable : ∀ other, old.Stores other → ∃ found, old.recordOf s.nameMax other = some found)
    (deletes : (store.deleteObject s.nameMax bucket key).1 = .ok ())
    (patient : (Store.scannedKeys old).length < patience) :
    wp faultFree (lookAndDelete crates storage bucket key maxKeys patience)
      (fun outcome _ => StoredAndListed key outcome) s := by
  have sound := holds.sound.buckets bucket old present
  have head := (head_record storage sound.valid present key objectMeta).mpr record
  have fetched : store.getObject storage s.nameMax bucket key = .ok (objectMeta, content) := by
    simp [Store.getObject, head, body]
  unfold lookAndDelete
  rw [wp_bind, head_refines holds, head]
  simp only []
  rw [wp_bind, fetch_refines holds, fetched]
  simp only []
  rw [wp_bind]
  have selected := select_first (Store.scannedKeys old) ⟨none, none, none, maxKeys⟩ rfl
  have few := (few_entries ⟨none, none, none, maxKeys⟩ (Store.scannedKeys old)).trans_lt patient
  have listed := wp_listAll holds sound.valid present patience ⟨none, none, none, maxKeys⟩ _ selected
    (.inl rfl) (fun other member => by
      have scanned := (List.mem_insertionSort _).mp (List.mem_filter.mp member).1
      exact readable other ((mem_scanned sound other).mp scanned)) few
  apply wp_mono (wp_and_runs listed)
  rintro outcome after ⟨⟨pages, rfl⟩, run⟩
  obtain ⟨shown, member, found⟩ := listed_records holds present run key stored
  obtain ⟨rfl, _⟩ := listAll_run holds sound.valid present patience selected (.inl rfl) run
  rw [record] at found
  obtain rfl := Option.some.inj found
  simp only []
  rw [wp_bind]
  apply wp_mono (delete_refines holds bucket key)
  rintro outcome final ⟨answered, _⟩
  rw [answered, deletes]
  exact ⟨pages, rfl, objectMeta, member, named⟩

theorem stored_suffices {key encoded : Str} {chunks : List Bytes} {contentType : Option Str}
    {maxKeys : Option Nat} {patience : Nat} (holds : Holds crates storage s store)
    (limit : s.nameMax = some 255) (present : store.buckets.lookup bucket = some old)
    (nonempty : key ≠ []) (admitted : encodeKey key = .ok encoded)
    (patient : (Store.scannedKeys old).length + 1 < patience) (short : utf8Len encoded ≤ 250)
    (readable : old.ReadableBut (some 255) key) :
    wp faultFree (storeAndLook crates storage bucket key chunks contentType maxKeys patience)
      (fun outcome _ => StoredAndListed key outcome) s := by
  have sound := holds.sound.buckets bucket old present
  obtain ⟨sidecars, kept⟩ := Option.isSome_iff_exists.mp readable.sidecars
  have fits := (sidecar_exceeds encoded).mpr short
  unfold storeAndLook
  rw [wp_bind]
  apply wp_mono (wp_limited (put_refines holds bucket key (chunks.map .ok) contentType))
  rintro outcome after ⟨⟨time, answered, still⟩, same⟩
  rw [limit] at answered still same
  obtain ⟨objectMeta, shape, made⟩ := Store.put_made crates (some 255) store contentType time
    sound.valid present admitted (chunks_whole chunks) nonempty kept fits
  rw [made] at answered still
  rw [answered]
  have lookup := Finmap.lookup_insert (a := bucket) (b := Store.storedBucket old sidecars encoded
    (delivered (chunks.map .ok)) objectMeta) store.buckets
  have soundNow := still.sound.buckets bucket _ lookup
  have stores : ∀ other, (Store.storedBucket old sidecars encoded (delivered (chunks.map .ok))
      objectMeta).Stores other ↔ other = key ∨ old.Stores other := stores_insert _ _ admitted
  have record := record_insert (delivered (chunks.map .ok)) objectMeta kept admitted fits
  -- The put is done; the readers find the record it left, and the deletion its body.
  have named : objectMeta.key = key := by rw [shape]
  have own : (Store.storedBucket old sidecars encoded (delivered (chunks.map .ok)) objectMeta).recordOf
      after.nameMax key = some objectMeta := by rw [same, record, if_pos rfl]
  have body : (store.setBucket bucket (Store.storedBucket old sidecars encoded
      (delivered (chunks.map .ok)) objectMeta)).bodyOf bucket key = some (delivered (chunks.map .ok)) := by
    simp [Store.bodyOf, Store.setBucket, Store.storedBucket, admitted, Except.toOption]
  apply wp_lookAndDelete still lookup own named ((stores key).mpr (.inl rfl)) body
  · intro other stored
    rw [same, record]
    by_cases own : other = key
    · exact ⟨_, if_pos own⟩
    · rw [if_neg own]
      rcases (stores other).mp stored with equal | before
      · exact absurd equal own
      · exact readable.records other own before
  · rw [same]
    exact delete_stored _ _ sound.valid nonempty admitted fits
  · exact (scanned_insert _ _ sound soundNow admitted).trans_lt patient

/-- A key can be stored, listed and deleted exactly when the name of its sidecar fits, in a
bucket where nothing else is unreadable already. -/
theorem admitted_key_stored_iff {key encoded : Str} (chunks : List Bytes) (contentType : Option Str)
    (maxKeys : Option Nat) (patience : Nat) (holds : Holds crates storage s store)
    (limit : s.nameMax = some 255) (present : store.buckets.lookup bucket = some old)
    (nonempty : key ≠ []) (admitted : encodeKey key = .ok encoded)
    (patient : (Store.scannedKeys old).length + 1 < patience) :
    wp faultFree (storeAndLook crates storage bucket key chunks contentType maxKeys patience)
      (fun outcome _ => StoredAndListed key outcome) s ↔
    utf8Len encoded ≤ 250 ∧ old.ReadableBut (some 255) key := by
  constructor
  · intro succeeds
    obtain ⟨outcome, t, run, pages, rfl, _⟩ := wp_returns succeeds
    exact stored_needs holds limit present admitted run rfl
  · rintro ⟨short, readable⟩
    exact stored_suffices holds limit present nonempty admitted patient short readable

end Limited

theorem fresh_readable (nameMax : Option Nat) (info : BucketInfo) (key : Str) :
    Bucket.ReadableBut nameMax (.fresh info) key := by
  obtain ⟨sidecars, records⟩ := fresh_complete nameMax info
  refine ⟨sidecars, ?_⟩
  intro other _ stored
  obtain ⟨objectMeta, record, _⟩ := records other stored
  exact ⟨objectMeta, record⟩

theorem fresh_scanned (info : BucketInfo) : Store.scannedKeys (.fresh info) = [] := by
  simp [Store.scannedKeys, Bucket.fresh]

theorem admitted_key_stored_iff_photo : ∃ s, s.nameMax = some 255 ∧
    wp faultFree (storeAndLook Crates.reference Reference.storage Reference.bucket "2023/a".toList
      [utf8 "hello".toList] none none 2)
      (fun outcome _ => StoredAndListed "2023/a".toList outcome) s := by
  obtain ⟨s, store, info, limit, holds, fresh⟩ := Reference.bucket_made (some 255) (.inr rfl)
  have admitted : encodeKey "2023/a".toList = .ok "2023%2Fa".toList := by decide
  have patient : (Store.scannedKeys (.fresh info)).length + 1 < 2 := by
    rw [fresh_scanned]
    decide
  have iff := admitted_key_stored_iff [utf8 "hello".toList] none none 2 holds limit fresh (by decide)
    admitted patient
  exact ⟨s, limit, iff.mpr ⟨by decide, fresh_readable _ info _⟩⟩

/-- 255 letters are admitted, and the put fails. -/
theorem longest_key_not_stored :
    ¬ ∀ (crates : Crates) (storage : FsStorage) (s : FS) (store : Store) (bucket key encoded : Str)
      (old : Bucket) (chunks : List Bytes) (contentType : Option Str) (maxKeys : Option Nat)
      (patience : Nat), Holds crates storage s store → s.nameMax = some 255 →
      store.buckets.lookup bucket = some old → key ≠ [] → encodeKey key = .ok encoded →
      (Store.scannedKeys old).length + 1 < patience →
      wp faultFree (storeAndLook crates storage bucket key chunks contentType maxKeys patience)
        (fun outcome _ => StoredAndListed key outcome) s := by
  intro always
  obtain ⟨s, store, info, limit, holds, fresh⟩ := Reference.bucket_made (some 255) (.inr rfl)
  have admitted : encodeKey (List.replicate 255 'a') = .ok (List.replicate 255 'a') :=
    encode_key_replicate (by decide) (by omega)
  have patient : (Store.scannedKeys (.fresh info)).length + 1 < 2 := by
    rw [fresh_scanned]
    decide
  have succeeds := always Crates.reference Reference.storage s store Reference.bucket
    (List.replicate 255 'a') _ _ [utf8 "hello".toList] none none 2 holds limit fresh (by decide) admitted
    patient
  obtain ⟨outcome, t, run, pages, rfl, _⟩ := wp_returns succeeds
  have short := (stored_needs holds limit fresh admitted run rfl).1
  revert short
  decide +kernel

end Ferrobucket
