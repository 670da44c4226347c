import Ferrobucket.Requests
import Ferrobucket.ServerFns
/-! The totals of the bucket table. They are folded over one page of a listing, which holds
at most a thousand objects, in sums that wrap at sixty-four bits. -/
namespace Ferrobucket
open Text Posix Program Grouping

/-- Every body has a sidecar that can be read. -/
def Bucket.Recorded (nameMax : Option Nat) (bucket : Bucket) : Prop :=
  ∀ key, bucket.Stores key → ∃ objectMeta, bucket.recordOf nameMax key = some objectMeta

theorem complete_recorded {nameMax : Option Nat} {bucket : Bucket} (complete : bucket.Complete nameMax) :
    bucket.Recorded nameMax := by
  intro key stored
  obtain ⟨objectMeta, record, _⟩ := complete.records key stored
  exact ⟨objectMeta, record⟩

/-- The size that the record of a key says. -/
def Bucket.sizeOf (nameMax : Option Nat) (bucket : Bucket) (key : Str) : Nat :=
  ((bucket.recordOf nameMax key).map ObjectMeta.size).getD 0

/-- The sizes of all stored objects together. -/
def Bucket.totalSize (nameMax : Option Nat) (bucket : Bucket) : Nat :=
  ((Store.scannedKeys bucket).map (bucket.sizeOf nameMax)).sum

/-- The row says how many objects the bucket has and how long they are together. -/
structure Exact (nameMax : Option Nat) (bucket : Bucket) (row : BucketRow) : Prop where
  count : row.objectCount.toNat = bucket.objects.keys.card
  size : row.totalSize.toNat = bucket.totalSize nameMax

theorem sum_wraps (sizes : List Nat) :
    (sizes.map UInt64.ofNat).sum.toNat = sizes.sum % 2 ^ 64 := by
  induction sizes with
  | nil => rfl
  | cons size rest ih =>
      rw [List.map_cons, List.sum_cons, List.sum_cons, UInt64.toNat_add, ih, UInt64.toNat_ofNat']
      omega

theorem scanned_count {name : Str} {bucket : Bucket} (sound : bucket.Sound name) :
    (Store.scannedKeys bucket).length = bucket.objects.keys.card := by
  rw [← Finset.length_sort (s := bucket.objects.keys) (r := (· ≤ ·))]
  apply List.filterMap_length_eq_length.mpr
  intro encoded member
  have stored := Finmap.mem_keys.mp ((Finset.mem_sort _).mp member)
  obtain ⟨body, inside⟩ := Finmap.mem_iff.mp stored
  obtain ⟨key, _, admitted⟩ := sound.objects encoded body inside
  rw [decode_encode_key admitted]
  rfl

/-- Without a delimiter the first entries are the first keys. -/
theorem plain_taken {req : ListV2Req} (plain : req.delimiter = none) (keys : List Str) (count : Nat) :
    ((pageEntries req keys).take count).filterMap Entry.alone = keys.take count := by
  have alone : pageEntries req keys = keys.map .single := by
    unfold pageEntries
    rw [plain]
    induction keys with
    | nil => rfl
    | cons key rest ih => rw [entries_single rest rfl, List.map_cons, ih]
  rw [alone, ← List.map_take, List.filterMap_map]
  exact List.filterMap_some

/-- What the records say, one after the other. -/
theorem recorded_sizes {nameMax : Option Nat} {bucket : Bucket} {keys : List Str} {objects : List ObjectMeta}
    (records : List.Forall₂ (fun key objectMeta => bucket.recordOf nameMax key = some objectMeta)
      keys objects) : objects.map ObjectMeta.size = keys.map (bucket.sizeOf nameMax) := by
  induction records with
  | nil => rfl
  | cons record _ ih =>
      rw [List.map_cons, List.map_cons, ih]
      simp [Bucket.sizeOf, record]

/-- What the row of a bucket is made of: the first thousand keys in order. -/
structure FirstPage (nameMax : Option Nat) (bucket : Bucket) (row : BucketRow) : Prop where
  count : row.objectCount.toNat = min 1000 bucket.objects.keys.card
  size : row.totalSize.toNat = (((matching (Store.scannedKeys bucket) none).take 1000).map
    (bucket.sizeOf nameMax)).sum % 2 ^ 64

theorem matching_all (keys : List Str) : (matching keys none).Perm keys := by
  have all : matching keys none = keys.insertionSort (· ≤ ·) := by simp [matching, startsWith]
  rw [all]
  exact List.perm_insertionSort _ _

/-- A page holds everything exactly if there is no more than a thousand. -/
theorem first_page_exact {nameMax : Option Nat} {name : Str} {bucket : Bucket} {row : BucketRow}
    (sound : bucket.Sound name) (first : FirstPage nameMax bucket row) :
    Exact nameMax bucket row ↔ bucket.objects.keys.card ≤ 1000 ∧ bucket.totalSize nameMax < 2 ^ 64 := by
  have count := (matching_all (Store.scannedKeys bucket)).length_eq.trans (scanned_count sound)
  have whole : bucket.objects.keys.card ≤ 1000 →
      row.totalSize.toNat = bucket.totalSize nameMax % 2 ^ 64 := by
    intro few
    have all := ((matching_all (Store.scannedKeys bucket)).map (bucket.sizeOf nameMax)).sum_eq
    rw [first.size, List.take_of_length_le (by omega), all]
    rfl
  constructor
  · rintro ⟨exact, size⟩
    have few : bucket.objects.keys.card ≤ 1000 := by
      rw [first.count] at exact
      omega
    refine ⟨few, ?_⟩
    rw [whole few] at size
    omega
  · rintro ⟨few, small⟩
    refine ⟨?_, ?_⟩
    · rw [first.count]
      omega
    · rw [whole few]
      omega

section Rows
variable {crates : Crates} {storage : FsStorage} {s : FS} {store : Store}

theorem wp_bucketRow (texts : Texts) (holds : Holds crates storage s store) {info : BucketInfo}
    {bucket : Bucket} (present : store.buckets.lookup info.name = some bucket)
    (recorded : bucket.Recorded s.nameMax) :
    wp faultFree (bucketRow crates storage texts info) (fun outcome after => after = s ∧
      ∃ row, outcome = .ok row ∧ row.name = info.name ∧ FirstPage s.nameMax bucket row) s := by
  have sound := holds.sound.buckets info.name bucket present
  have selected := select_first (Store.scannedKeys bucket) {} rfl
  have readable : ∀ key ∈ matching (Store.scannedKeys bucket) none,
      ∃ objectMeta, bucket.recordOf s.nameMax key = some objectMeta := by
    intro key member
    have scanned := (matching_all _).mem_iff.mp member
    exact recorded key ((mem_scanned sound key).mp scanned)
  obtain ⟨page, answered⟩ := list_page_found storage sound.valid present selected readable
  obtain ⟨⟨records, _⟩, _⟩ := list_page storage sound.valid present selected answered
  unfold bucketRow
  rw [wp_bind, wp_told]
  apply list_refines holds
  rw [answered]
  rw [plain_taken rfl] at records
  have sizes := recorded_sizes records
  have count := (matching_all (Store.scannedKeys bucket)).length_eq.trans (scanned_count sound)
  refine ⟨rfl, _, rfl, rfl, ?_, ?_⟩
  · have length := records.length_eq
    rw [List.length_take, count] at length
    have thousand : effectiveMaxKeys {} = 1000 := rfl
    rw [thousand] at length
    have small : page.objects.length < 2 ^ 64 := by omega
    rw [length]
    exact UInt64.toNat_ofNat_of_lt' small
  · have summed := sum_wraps (page.objects.map ObjectMeta.size)
    rw [List.map_map, sizes] at summed
    exact summed

/-- Each reported bucket gets a row of its own. -/
theorem wp_bucketRows (texts : Texts) (holds : Holds crates storage s store)
    (recorded : ∀ name bucket, store.buckets.lookup name = some bucket → bucket.Recorded s.nameMax)
    (infos : List BucketInfo)
    (reported : ∀ info ∈ infos, ∃ bucket, store.buckets.lookup info.name = some bucket) :
    wp faultFree (bucketRows crates storage texts infos) (fun outcome after => after = s ∧
      ∃ rows, outcome = .ok rows ∧ rows.map BucketRow.name = infos.map BucketInfo.name ∧
        ∀ row ∈ rows, ∃ bucket, store.buckets.lookup row.name = some bucket ∧
          FirstPage s.nameMax bucket row) s := by
  induction infos with
  | nil => exact ⟨rfl, [], rfl, rfl, fun _ member => nomatch member⟩
  | cons info rest ih =>
      obtain ⟨bucket, present⟩ := reported info List.mem_cons_self
      have later := ih fun other member => reported other (List.mem_cons_of_mem info member)
      unfold bucketRows
      rw [wp_bind]
      apply wp_mono (wp_bucketRow texts holds present (recorded info.name bucket present))
      rintro _ _ ⟨rfl, row, rfl, named, first⟩
      simp only []
      rw [wp_bind]
      apply wp_mono later
      rintro _ _ ⟨rfl, rows, rfl, names, pages⟩
      refine ⟨rfl, row :: rows, rfl, ?_, ?_⟩
      · rw [List.map_cons, List.map_cons, named, names]
      · intro other member
        rcases List.mem_cons.mp member with rfl | inside
        · rw [named]
          exact ⟨bucket, present, first⟩
        · exact pages other inside

/-- The row of a bucket is made of its first page. -/
theorem wp_listBucketsFn (texts : Texts) (holds : Holds crates storage s store)
    (recorded : ∀ name bucket, store.buckets.lookup name = some bucket → bucket.Recorded s.nameMax)
    {name : Str} {bucket : Bucket} {info : BucketInfo} (present : store.buckets.lookup name = some bucket)
    (made : bucket.info = some info) :
    wp faultFree (listBucketsFn crates storage texts) (fun outcome _ =>
      ∃ rows, outcome = .ok rows ∧ (∃ row ∈ rows, row.name = name) ∧
        ∀ row ∈ rows, row.name = name → FirstPage s.nameMax bucket row) s := by
  have sound := holds.sound.buckets name bucket present
  unfold listBucketsFn
  rw [wp_bind, wp_told]
  apply wp_mono (list_buckets_refines holds)
  rintro _ _ ⟨rfl, order, _, all, rfl⟩
  have reported : ∀ own ∈ store.bucketInfos order,
      ∃ bucket, store.buckets.lookup own.name = some bucket := by
    intro own member
    obtain ⟨other, _, inside⟩ := List.mem_filterMap.mp member
    obtain ⟨found, there, record⟩ := Option.bind_eq_some_iff.mp inside
    rw [(holds.sound.buckets other found there).named own record]
    exact ⟨found, there⟩
  apply wp_mono (wp_bucketRows texts holds recorded _ reported)
  rintro _ _ ⟨rfl, rows, rfl, names, pages⟩
  refine ⟨rows, rfl, ?_, ?_⟩
  · have listed : name ∈ rows.map BucketRow.name := by
      rw [names]
      refine List.mem_map.mpr ⟨info, ?_, sound.named info made⟩
      apply List.mem_filterMap.mpr
      refine ⟨name, all name (by simp [present]), ?_⟩
      simp [present, made]
    obtain ⟨row, member, same⟩ := List.mem_map.mp listed
    exact ⟨row, member, same⟩
  · intro row member same
    obtain ⟨other, there, first⟩ := pages row member
    rw [same, present] at there
    obtain rfl := Option.some.inj there
    exact first

/-- The row of a bucket is exact as long as the bucket fits one page. -/
theorem bucket_totals_exact_iff (texts : Texts) (holds : Holds crates storage s store)
    (recorded : ∀ name bucket, store.buckets.lookup name = some bucket → bucket.Recorded s.nameMax)
    {name : Str} {bucket : Bucket} {info : BucketInfo} (present : store.buckets.lookup name = some bucket)
    (made : bucket.info = some info) :
    wp faultFree (listBucketsFn crates storage texts) (fun outcome _ => ∃ rows, outcome = .ok rows ∧
      (∃ row ∈ rows, row.name = name) ∧ ∀ row ∈ rows, row.name = name → Exact s.nameMax bucket row) s ↔
    bucket.objects.keys.card ≤ 1000 ∧ bucket.totalSize s.nameMax < 2 ^ 64 := by
  have sound := holds.sound.buckets name bucket present
  have tabled := wp_listBucketsFn texts holds recorded present made
  constructor
  · intro exact
    obtain ⟨outcome, t, run, rows, rfl, ⟨row, member, same⟩, all⟩ := wp_returns tabled
    obtain ⟨others, again, _, exacts⟩ := wp_runs exact run
    cases again
    exact (first_page_exact sound (all row member same)).mp (exacts row member same)
  · intro few
    apply wp_mono tabled
    rintro outcome _ ⟨rows, rfl, there, all⟩
    refine ⟨rows, rfl, there, ?_⟩
    intro row member same
    exact (first_page_exact sound (all row member same)).mpr few

end Rows

/-! ### A thousand and one photos -/

namespace Reference

/-- A bucket with these keys, each with the empty body, and nothing else in the store. -/
theorem keys_stored (keys : List Str) (distinct : keys.Nodup)
    (admitted : ∀ key ∈ keys, key ≠ [] ∧ ∃ encoded, encodeKey key = .ok encoded) :
    ∃ s store old info, s.nameMax = none ∧ Holds Crates.reference storage s store ∧
      store.buckets.lookup bucket = some old ∧ old.info = some info ∧
      (∀ name own, store.buckets.lookup name = some own → own.Complete s.nameMax) ∧
      (∀ key, old.Stores key ↔ key ∈ keys) ∧ old.objects.keys.card = keys.length := by
  obtain ⟨s, time, _, unlimited, _, holds⟩ := bucket_stored none (.inl rfl)
  have fresh : (Store.empty.setBucket bucket (.fresh ⟨bucket, time⟩)).buckets.lookup bucket =
      some (.fresh ⟨bucket, time⟩) := Finmap.lookup_insert _
  have complete := fresh_complete s.nameMax ⟨bucket, time⟩
  have stores := wp_putAll holds fresh complete (keys.map fun key => ⟨key, [], none⟩) (by
    rw [unlimited]
    intro put member
    obtain ⟨key, inside, rfl⟩ := List.mem_map.mp member
    obtain ⟨nonempty, encoded, names⟩ := admitted key inside
    exact ⟨nonempty, rfl, encoded, names, rfl⟩)
  obtain ⟨outcome, t, run, rfl⟩ := wp_returns stores
  obtain ⟨after, new, held, present, whole, stored, record, aside⟩ := puts_run holds fresh complete run
  have limit := (runs_continue run).limit
  have keep : ∀ key, new.Stores key ↔ key ∈ keys := by
    intro key
    rw [stored, List.map_map]
    simp [Bucket.Stores, Bucket.fresh]
  refine ⟨t, after, new, _, limit.trans unlimited, held, present, record, ?_, keep, ?_⟩
  · intro name own there
    by_cases same : name = bucket
    · subst same
      rw [present] at there
      obtain rfl := Option.some.inj there
      exact whole
    · rw [aside name same] at there
      simp [Store.setBucket, Store.empty, Finmap.lookup_insert_of_ne _ same] at there
  · have sound := held.sound.buckets bucket new present
    rw [← scanned_count sound]
    have same : (Store.scannedKeys new).Perm keys := by
      rw [List.perm_ext_iff_of_nodup (scanned_nodup sound) distinct]
      intro key
      rw [mem_scanned sound, keep]
    exact same.length_eq

/-- The body `hello` under the key `a`, and nothing else in the store. -/
theorem hello_alone : ∃ s store old info, Holds Crates.reference storage s store ∧
    store.buckets.lookup bucket = some old ∧ old.info = some info ∧
    (∀ name own, store.buckets.lookup name = some own → own.Complete s.nameMax) ∧ old.Paired ∧
    old.objects.keys.card = 1 ∧ old.totalSize s.nameMax = 5 := by
  obtain ⟨s, time, _, unlimited, _, holds⟩ := bucket_stored none (.inl rfl)
  have valid : validateBucketName bucket = .ok () := by decide
  have admitted : encodeKey ['a'] = .ok ['a'] := by decide
  have fresh : (Store.empty.setBucket bucket (.fresh ⟨bucket, time⟩)).buckets.lookup bucket =
      some (.fresh ⟨bucket, time⟩) := Finmap.lookup_insert _
  have short : exceeds s.nameMax (FsStorage.sidecarName ['a']) = false := by
    rw [unlimited]
    rfl
  have put := wp_limited (put_refines holds bucket ['a'] [.ok (utf8 "hello".toList)] none)
  obtain ⟨outcome, t, _, ⟨now, rfl, after⟩, limit⟩ := wp_returns put
  obtain ⟨objectMeta, record, made⟩ := Store.put_made Crates.reference s.nameMax _ none now valid fresh
    admitted (rfl : failure [.ok (utf8 "hello".toList)] = none) (List.cons_ne_nil _ _) rfl short
  rw [made] at after
  have present := Finmap.lookup_insert (a := bucket) (b := Store.storedBucket (.fresh ⟨bucket, time⟩) ∅
    ['a'] (utf8 "hello".toList) objectMeta) (Store.empty.setBucket bucket (.fresh ⟨bucket, time⟩)).buckets
  have sound := after.sound.buckets bucket _ present
  have complete := complete_insert (utf8 "hello".toList) objectMeta (fresh_complete s.nameMax ⟨bucket, time⟩)
    rfl admitted short (by rw [record])
  have only : ∀ key, key ∈ Store.scannedKeys (Store.storedBucket (.fresh ⟨bucket, time⟩) ∅ ['a']
      (utf8 "hello".toList) objectMeta) ↔ key ∈ [['a']] := by
    intro key
    rw [mem_scanned sound, stores_insert _ _ admitted]
    simp [Bucket.Stores, Bucket.fresh]
  have same := (List.perm_ext_iff_of_nodup (scanned_nodup sound) (List.nodup_singleton _)).mpr only
  have changed : (Bucket.fresh ⟨bucket, time⟩).Change (fun _ _ => True) (Store.storedBucket
      (.fresh ⟨bucket, time⟩) ∅ ['a'] (utf8 "hello".toList) objectMeta) := .whole _ _ _ rfl trivial
  have paired := change_paired (fresh_paired ⟨bucket, time⟩) changed
  refine ⟨t, _, _, _, after, present, rfl, ?_, paired, ?_, ?_⟩
  · intro name own there
    rw [limit]
    by_cases equal : name = bucket
    · subst equal
      obtain rfl := Option.some.inj (present.symm.trans there)
      exact complete
    · simp [Store.setBucket, Store.empty, Finmap.lookup_insert_of_ne _ equal] at there
  · rw [← scanned_count sound]
    exact same.length_eq
  · refine (same.map _).sum_eq.trans ?_
    rw [limit]
    have five : (utf8 "hello".toList).length = 5 := by decide
    simp [Bucket.sizeOf, Bucket.recordOf, admitted, Except.toOption, Store.storedBucket, short, record,
      delivered]
    exact five

end Reference

theorem bucket_totals_exact_iff_photos : ∃ s store old,
    Holds Crates.reference Reference.storage s store ∧
    store.buckets.lookup Reference.bucket = some old ∧ old.totalSize s.nameMax = 5 ∧
    wp faultFree (listBucketsFn Crates.reference Reference.storage Reference.texts)
      (fun outcome _ => ∃ rows, outcome = .ok rows ∧ (∃ row ∈ rows, row.name = Reference.bucket) ∧
        ∀ row ∈ rows, row.name = Reference.bucket → Exact s.nameMax old row) s := by
  obtain ⟨s, store, old, info, holds, present, made, complete, _, count, total⟩ := Reference.hello_alone
  have recorded := fun name own there => complete_recorded (complete name own there)
  refine ⟨s, store, old, holds, present, total, ?_⟩
  exact (bucket_totals_exact_iff Reference.texts holds recorded present made).mpr ⟨by omega, by omega⟩

/-- `a00` to `k00`. -/
def numberedKeys : List Str :=
  (List.range 1001).map fun n =>
    [Char.ofNat (97 + n / 100), Char.ofNat (48 + n / 10 % 10), Char.ofNat (48 + n % 10)]

theorem numbered_chars {n : Nat} (small : n < 1001) : (Char.ofNat (97 + n / 100)).toNat = 97 + n / 100 ∧
    (Char.ofNat (48 + n / 10 % 10)).toNat = 48 + n / 10 % 10 ∧
    (Char.ofNat (48 + n % 10)).toNat = 48 + n % 10 :=
  ⟨char_code (by omega), char_code (by omega), char_code (by omega)⟩

theorem numbered_distinct : numberedKeys.Nodup := by
  apply List.Nodup.map_on _ List.nodup_range
  intro m inside n member same
  obtain ⟨first, second, third⟩ := numbered_chars (List.mem_range.mp inside)
  obtain ⟨fourth, fifth, sixth⟩ := numbered_chars (List.mem_range.mp member)
  simp only [List.cons.injEq, and_true] at same
  obtain ⟨hundreds, tens, ones⟩ := same
  rw [hundreds, fourth] at first
  rw [tens, fifth] at second
  rw [ones, sixth] at third
  omega

theorem numbered_admitted {key : Str} (member : key ∈ numberedKeys) : key ≠ [] ∧ encodeKey key = .ok key := by
  obtain ⟨n, inside, rfl⟩ := List.mem_map.mp member
  have small := List.mem_range.mp inside
  obtain ⟨hundreds, tens, ones⟩ := numbered_chars small
  refine ⟨List.cons_ne_nil _ _, encode_key_letters ?_ (by simp)⟩
  simp only [List.forall_mem_cons, ascii_alphanumeric_iff, hundreds, tens, ones, List.not_mem_nil,
    false_imp_iff, implies_true, and_true]
  omega
/-- Of a thousand and one objects the row counts a thousand. -/
theorem last_photo_not_counted : ∃ s store old rows t,
    Holds Crates.reference Reference.storage s store ∧
    (∀ name own, store.buckets.lookup name = some own → own.Complete s.nameMax) ∧
    store.buckets.lookup Reference.bucket = some old ∧ old.objects.keys.card = 1001 ∧
    Runs faultFree (listBucketsFn Crates.reference Reference.storage Reference.texts) s (.ok rows) t ∧
    ∃ row ∈ rows, row.name = Reference.bucket ∧ row.objectCount.toNat = 1000 := by
  obtain ⟨s, store, old, info, _, holds, present, made, complete, _, count⟩ :=
    Reference.keys_stored numberedKeys numbered_distinct fun key member =>
      ⟨(numbered_admitted member).1, key, (numbered_admitted member).2⟩
  have recorded := fun name own there => complete_recorded (complete name own there)
  obtain ⟨_, t, run, rows, rfl, ⟨row, member, same⟩, all⟩ :=
    wp_returns (wp_listBucketsFn Reference.texts holds recorded present made)
  have number : old.objects.keys.card = 1001 := count.trans (by simp [numberedKeys])
  have first := (all row member same).count
  rw [number] at first
  exact ⟨s, store, old, rows, t, holds, complete, present, number, run, row, member, same, first⟩

end Ferrobucket
