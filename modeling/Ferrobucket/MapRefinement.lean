import Ferrobucket.MapModel
/-! The store refines its map: one simulation for each command, and from these the
answers of every run that starts with an empty data root. -/
namespace Ferrobucket
open Text Posix Program

/-! ### One command -/

/-- A file system, the store on it and the map it stands for. -/
def Stands (crates : Crates) (storage : FsStorage) (s : FS) (model : MapStore) : Prop :=
  s.nameMax = none ∧ ∃ store, Holds crates storage s store ∧ store.Represents crates model

section Steps
variable {crates : Crates} {storage : FsStorage} {s : FS} {model : MapStore}

/-- The command is answered like the map answers, and the map changes with the store. -/
def Simulated (crates : Crates) (storage : FsStorage) (call : Op Answer) (next : Answer × MapStore)
    (s : FS) : Prop :=
  wp faultFree call (fun outcome after => outcome = .ok next.1 ∧ Stands crates storage after next.2) s

theorem create_simulated (stands : Stands crates storage s model) (name : Str) :
    Simulated crates storage (answer (createBucket crates storage name) fun _ => .done)
      (model.createBucket name) s := by
  obtain ⟨unlimited, store, holds, represents⟩ := stands
  unfold Simulated
  rw [wp_answer]
  apply wp_mono (wp_limited (create_refines holds name))
  rintro outcome after ⟨⟨time, rfl, still, _⟩, limit⟩
  have unlimited := limit.trans unlimited
  unfold MapStore.createBucket
  unfold Store.createBucket at still ⊢
  cases valid : validateBucketName name with
  | error e =>
      rw [valid] at still
      exact ⟨rfl, unlimited, store, still, represents⟩
  | ok _ =>
  cases present : store.buckets.lookup name with
  | some bucket =>
      rw [valid, present] at still
      obtain ⟨objects, found, _⟩ := represents_some represents present
      simp only [found]
      exact ⟨rfl, unlimited, store, still, represents⟩
  | none =>
      rw [valid, present] at still
      simp only [represents_none represents present]
      exact ⟨rfl, unlimited, _, still, represents_set represents (represents_fresh _)⟩

theorem delete_bucket_simulated (stands : Stands crates storage s model) (name : Str) :
    Simulated crates storage (answer (deleteBucket storage name) fun _ => .done)
      (model.deleteBucket name) s := by
  obtain ⟨unlimited, store, holds, represents⟩ := stands
  unfold Simulated
  rw [wp_answer]
  apply wp_mono (wp_limited (delete_bucket_refines holds (represents_paired holds.sound represents) name))
  rintro outcome after ⟨⟨rfl, still⟩, limit⟩
  have unlimited := limit.trans unlimited
  unfold MapStore.deleteBucket
  unfold Store.deleteBucket at still ⊢
  cases valid : validateBucketName name with
  | error e =>
      rw [valid] at still
      exact ⟨rfl, unlimited, store, still, represents⟩
  | ok _ =>
  cases present : store.buckets.lookup name with
  | none =>
      rw [valid, present] at still
      simp only [represents_none represents present]
      exact ⟨rfl, unlimited, store, still, represents⟩
  | some bucket =>
      obtain ⟨objects, found, inside⟩ := represents_some represents present
      have same := represents_empty (holds.sound.buckets name bucket present) inside
      simp only [valid, present] at still ⊢
      simp only [found]
      by_cases empty : bucket.objects = ∅
      · rw [if_pos empty] at still ⊢
        rw [if_pos (same.mp empty)]
        exact ⟨rfl, unlimited, _, still, represents_drop represents⟩
      · rw [if_neg empty] at still ⊢
        rw [if_neg fun gone => empty (same.mpr gone)]
        exact ⟨rfl, unlimited, store, still, represents⟩

theorem delivered_chunks (chunks : List Bytes) : delivered (chunks.map .ok) = chunks.flatten := by
  induction chunks with
  | nil => rfl
  | cons chunk rest ih => simp [delivered, ih]

theorem put_simulated (stands : Stands crates storage s model) (bucket : Str) (key : ObjectKey)
    (chunks : List Bytes) (contentType : Option Str) :
    Simulated crates storage
      (answer (putObject crates storage bucket key (chunks.map .ok) contentType) fun objectMeta =>
        .object objectMeta.record)
      (model.putObject crates bucket key chunks.flatten (contentType.getD defaultContentType)) s := by
  obtain ⟨unlimited, store, holds, represents⟩ := stands
  unfold Simulated
  rw [wp_answer]
  apply wp_mono (wp_limited (put_refines holds bucket key (chunks.map .ok) contentType))
  rintro outcome after ⟨⟨time, rfl, still⟩, limit⟩
  rw [unlimited] at limit still ⊢
  unfold MapStore.putObject
  cases valid : validateBucketName bucket with
  | error e =>
      simp only [Store.putObject, valid] at still ⊢
      exact ⟨rfl, limit, store, still, represents⟩
  | ok _ =>
  cases present : store.buckets.lookup bucket with
  | none =>
      simp only [Store.putObject, valid, present] at still ⊢
      simp only [represents_none represents present]
      exact ⟨rfl, limit, store, still, represents⟩
  | some old =>
  obtain ⟨objects, found, inside⟩ := represents_some represents present
  simp only [found]
  cases admitted : encodeKey key with
  | error e =>
      simp only [Store.putObject, valid, present, admitted] at still ⊢
      exact ⟨rfl, limit, store, still, represents⟩
  | ok encoded =>
      obtain ⟨sidecars, kept⟩ := Option.isSome_iff_exists.mp inside.sidecars
      obtain ⟨objectMeta, shape, made⟩ := Store.put_made crates none store contentType time valid
        present admitted (chunks_whole chunks) key.property kept rfl
      rw [made] at still ⊢
      rw [delivered_chunks] at still shape
      have record : objectMeta.record =
          .of crates key (chunks.flatten, contentType.getD defaultContentType) := by rw [shape]; rfl
      refine ⟨by rw [← record]; rfl, limit, _, still, ?_⟩
      exact represents_set represents (represents_stored _ inside kept admitted record)

/-- Reading an object of the store is finding it in the map. -/
theorem head_found_in_map (storage : FsStorage) {store : Store}
    (represents : store.Represents crates model) (bucket key : Str) :
    (∃ e variant, store.headObject storage none bucket key = .error e ∧ e.variant = variant ∧
      ∀ shown, model.find bucket key shown = .refused variant) ∨
    (∃ objectMeta value bytes, store.headObject storage none bucket key = .ok objectMeta ∧
      objectMeta.record = .of crates key value ∧ store.bodyOf bucket key = some bytes ∧
      bytes = value.1 ∧ ∀ shown, model.find bucket key shown = shown value) := by
  unfold MapStore.find
  cases valid : validateBucketName bucket with
  | error e => exact .inl ⟨e, e.variant, by simp [Store.headObject, valid], rfl, fun _ => rfl⟩
  | ok _ =>
  cases admitted : encodeKey key with
  | error e => exact .inl ⟨e, e.variant, by simp [Store.headObject, valid, admitted], rfl, fun _ => rfl⟩
  | ok encoded =>
  cases present : store.buckets.lookup bucket with
  | none =>
      refine .inl ⟨.NoSuchKey (storage.metaPath bucket encoded).display, .NoSuchKey,
        by simp [Store.headObject, valid, admitted, present], rfl, ?_⟩
      intro shown
      simp [represents_none represents present]
  | some old =>
      obtain ⟨objects, found, inside⟩ := represents_some represents present
      obtain ⟨sidecars, kept⟩ := Option.isSome_iff_exists.mp inside.sidecars
      have records := inside.records key
      have bodies := inside.bodies key
      have record : old.recordOf none key = sidecars.lookup (FsStorage.sidecarName encoded) := by
        simp [Bucket.recordOf, admitted, Except.toOption, kept, exceeds]
      rw [record] at records
      cases stored : objects.lookup key with
      | none =>
          rw [stored, Option.map_none, Option.map_eq_none_iff] at records
          refine .inl ⟨.NoSuchKey (storage.metaPath bucket encoded).display, .NoSuchKey,
            by simp [Store.headObject, valid, admitted, present, kept, exceeds, records], rfl, ?_⟩
          intro shown
          simp [found, stored]
      | some value =>
          rw [stored, Option.map_some, Option.map_eq_some_iff] at records
          obtain ⟨objectMeta, taken, same⟩ := records
          rw [stored] at bodies
          refine .inr ⟨objectMeta, value, value.1,
            by simp [Store.headObject, valid, admitted, present, kept, exceeds, taken], same, ?_, rfl, ?_⟩
          · rw [Option.map_some] at bodies
            simpa [Store.bodyOf, present, Bucket.bodyOf] using bodies
          · intro shown
            simp [found, stored]

theorem head_simulated (stands : Stands crates storage s model) (bucket key : Str) :
    Simulated crates storage
      (answer (headObject crates storage bucket key) fun objectMeta => .object objectMeta.record)
      (model.find bucket key fun value => .object (.of crates key value), model) s := by
  obtain ⟨unlimited, store, holds, represents⟩ := stands
  unfold Simulated
  rw [wp_answer, head_refines holds, unlimited]
  rcases head_found_in_map storage represents bucket key with
    ⟨e, variant, head, same, found⟩ | ⟨objectMeta, value, bytes, head, record, _, _, found⟩
  · rw [head]
    simp only [found, reply, same]
    exact ⟨trivial, unlimited, store, holds, represents⟩
  · rw [head]
    simp only [found, reply, record]
    exact ⟨trivial, unlimited, store, holds, represents⟩

theorem get_simulated (stands : Stands crates storage s model) (bucket key : Str) :
    Simulated crates storage
      (answer (fetchObject crates storage bucket key) fun found => .content found.1.record found.2)
      (model.find bucket key fun value => .content (.of crates key value) value.1, model) s := by
  obtain ⟨unlimited, store, holds, represents⟩ := stands
  unfold Simulated
  rw [wp_answer, fetch_refines holds, unlimited]
  unfold Store.getObject
  rcases head_found_in_map storage represents bucket key with
    ⟨e, variant, head, same, found⟩ | ⟨objectMeta, value, bytes, head, record, body, rfl, found⟩
  · rw [head]
    simp only [found, reply, same]
    exact ⟨trivial, unlimited, store, holds, represents⟩
  · rw [head, body]
    simp only [found, reply, record]
    exact ⟨trivial, unlimited, store, holds, represents⟩

theorem delete_simulated (stands : Stands crates storage s model) (bucket : Str) (key : ObjectKey) :
    Simulated crates storage (answer (deleteObject storage bucket key) fun _ => .done)
      (model.deleteObject bucket key) s := by
  obtain ⟨unlimited, store, holds, represents⟩ := stands
  unfold Simulated
  rw [wp_answer]
  apply wp_mono (wp_limited (delete_refines holds bucket key))
  rintro outcome after ⟨⟨rfl, still⟩, limit⟩
  rw [unlimited] at limit still ⊢
  unfold MapStore.deleteObject
  unfold Store.deleteObject at still ⊢
  cases valid : validateBucketName bucket with
  | error e =>
      rw [valid] at still
      exact ⟨rfl, limit, store, still, represents⟩
  | ok _ =>
  cases admitted : encodeKey key with
  | error e =>
      rw [valid, admitted] at still
      exact ⟨rfl, limit, store, still, represents⟩
  | ok encoded =>
  cases present : store.buckets.lookup bucket with
  | none =>
      rw [valid, admitted, present] at still
      simp only [represents_none represents present]
      exact ⟨rfl, limit, store, still, represents⟩
  | some old =>
      obtain ⟨objects, found, inside⟩ := represents_some represents present
      obtain ⟨sidecars, kept⟩ := Option.isSome_iff_exists.mp inside.sidecars
      have bodies := inside.bodies key
      simp only [Bucket.bodyOf, admitted, Except.toOption, Option.bind_some] at bodies
      simp only [valid, admitted, present, if_neg key.property, kept] at still ⊢
      simp only [found]
      cases value : objects.lookup key.val with
      | none =>
          rw [value, Option.map_none] at bodies
          simp only [bodies] at still ⊢
          exact ⟨rfl, limit, store, still, represents⟩
      | some pair =>
          rw [value, Option.map_some] at bodies
          simp only [bodies, exceeds, Bool.false_eq_true, if_false] at still ⊢
          exact ⟨rfl, limit, _, still, represents_set represents (represents_deleted inside kept admitted)⟩

/-- The records name the buckets of the map. -/
theorem info_names {store : Store} (sound : store.Sound) (represents : store.Represents crates model)
    (order : List Str) : (store.bucketInfos order).map BucketInfo.name =
      order.filter fun name => (model.lookup name).isSome := by
  unfold Store.bucketInfos
  induction order with
  | nil => rfl
  | cons name rest ih =>
      cases present : store.buckets.lookup name with
      | none =>
          have absent := represents_none represents present
          simp [present, absent, ih]
      | some bucket =>
          obtain ⟨objects, found, inside⟩ := represents_some represents present
          obtain ⟨info, made⟩ := Option.isSome_iff_exists.mp inside.info
          have named := (sound.buckets name bucket present).named info made
          simp [present, found, made, named, ih]

theorem list_buckets_simulated (stands : Stands crates storage s model) :
    Simulated crates storage
      (answer (listBuckets crates storage) fun infos => .buckets (infos.map BucketInfo.name : List Str))
      (.buckets model.keys.val, model) s := by
  obtain ⟨unlimited, store, holds, represents⟩ := stands
  unfold Simulated
  rw [wp_answer]
  apply wp_mono (list_buckets_refines holds)
  rintro outcome after ⟨rfl, order, distinct, covers, rfl⟩
  refine ⟨?_, unlimited, store, holds, represents⟩
  have same : ((store.bucketInfos order).map BucketInfo.name : Multiset Str) = model.keys.val := by
    rw [info_names holds.sound represents]
    apply (Multiset.Nodup.ext (Multiset.coe_nodup.mpr (distinct.filter _)) model.keys.nodup).mpr
    intro name
    rw [Multiset.mem_coe, List.mem_filter, Finset.mem_val, Finmap.mem_keys, Finmap.lookup_isSome]
    constructor
    · exact And.right
    · intro member
      refine ⟨covers name ?_, member⟩
      intro absent
      have none := represents_none represents absent
      rw [Finmap.lookup_eq_none] at none
      exact none member
  simp only [reply]
  rw [same]

/-- The scan of a bucket directory finds the keys of the map. -/
theorem scanned_keys {bucket : Bucket} {objects : Objects} {name : Str} (sound : bucket.Sound name)
    (represents : bucket.Represents crates objects) :
    (Store.scannedKeys bucket).Perm (objects.keys.sort (· ≤ ·)) := by
  apply (List.perm_ext_iff_of_nodup (scanned_nodup sound) (Finset.sort_nodup _ _)).mpr
  intro key
  rw [mem_scanned sound, represents_stores represents, Finset.mem_sort, Finmap.mem_keys]

theorem matching_keys {bucket : Bucket} {objects : Objects} {name : Str} (sound : bucket.Sound name)
    (represents : bucket.Represents crates objects) (pfx : Option Str) :
    matching (Store.scannedKeys bucket) pfx =
      (objects.keys.sort (· ≤ ·)).filter fun key => startsWith key (pfx.getD []) := by
  have same : (Store.scannedKeys bucket).insertionSort (· ≤ ·) = objects.keys.sort (· ≤ ·) := by
    have reordered := (List.perm_insertionSort (· ≤ ·) _).trans (scanned_keys sound represents)
    exact reordered.eq_of_pairwise (fun _ _ _ _ => le_antisymm) (List.pairwise_insertionSort _ _)
      (Finset.pairwise_sort _ _)
  unfold matching
  rw [same]

theorem records_listed {bucket : Bucket} {objects : Objects}
    (represents : bucket.Represents crates objects) {keys : List Str} {found : List ObjectMeta}
    (records : List.Forall₂ (fun key objectMeta => bucket.recordOf none key = some objectMeta)
      keys found) :
    found.map ObjectMeta.record =
      keys.filterMap fun key => (objects.lookup key).map (Record.of crates key) := by
  induction records with
  | nil => rfl
  | @cons key objectMeta keys found record _ ih =>
      have same := represents.records key
      rw [record, Option.map_some] at same
      rw [List.map_cons, List.filterMap_cons, ← same, ih]

theorem list_simulated {patience : Nat} (stands : Stands crates storage s model) (bucket : Str)
    (pfx : Option Str) (maxKeys : Option Nat) (positive : 0 < patience)
    (patient : ∀ objects, model.lookup bucket = some objects → objects.keys.card < patience) :
    Simulated crates storage
      (serve crates storage patience (.listObjects bucket pfx maxKeys))
      (model.listObjects crates bucket pfx, model) s := by
  obtain ⟨unlimited, store, holds, represents⟩ := stands
  unfold Simulated serve
  rw [wp_answer]
  unfold MapStore.listObjects
  obtain ⟨more, rfl⟩ := Nat.exists_eq_add_of_lt positive
  rw [Nat.zero_add]
  cases valid : validateBucketName bucket with
  | error e =>
      have refused : store.listObjectsV2 storage s.nameMax bucket ⟨pfx, none, none, maxKeys⟩ =
          .error e := by simp [Store.listObjectsV2, valid]
      apply wp_mono (wp_listAll_refused holds more _ refused)
      rintro outcome after ⟨rfl, rfl⟩
      exact ⟨rfl, unlimited, store, holds, represents⟩
  | ok _ =>
  cases present : store.buckets.lookup bucket with
  | none =>
      have refused : store.listObjectsV2 storage s.nameMax bucket ⟨pfx, none, none, maxKeys⟩ =
          .error (.NoSuchBucket bucket) := by simp [Store.listObjectsV2, valid, present]
      simp only [represents_none represents present]
      apply wp_mono (wp_listAll_refused holds more _ refused)
      rintro outcome after ⟨rfl, rfl⟩
      exact ⟨rfl, unlimited, store, holds, represents⟩
  | some old =>
      obtain ⟨objects, found, inside⟩ := represents_some represents present
      have sound := holds.sound.buckets bucket old present
      simp only [found]
      have selected := select_first (Store.scannedKeys old) ⟨pfx, none, none, maxKeys⟩ rfl
      have enough : (Store.scannedKeys old).length < more + 1 := by
        have length := (scanned_keys sound inside).length_eq
        rw [Finset.length_sort] at length
        have bound := patient objects found
        omega
      have few := (few_entries ⟨pfx, none, none, maxKeys⟩ (Store.scannedKeys old)).trans_lt enough
      have readable : ∀ key ∈ matching (Store.scannedKeys old) pfx,
          ∃ objectMeta, old.recordOf s.nameMax key = some objectMeta := by
        intro key member
        have scanned := (List.mem_insertionSort _).mp (List.mem_filter.mp member).1
        have stored := (represents_stores inside key).mp ((mem_scanned sound key).mp scanned)
        rw [← Finmap.lookup_isSome] at stored
        obtain ⟨value, lookup⟩ := Option.isSome_iff_exists.mp stored
        have records := inside.records key
        rw [lookup, Option.map_some, Option.map_eq_some_iff] at records
        obtain ⟨objectMeta, record, _⟩ := records
        rw [unlimited]
        exact ⟨objectMeta, record⟩
      apply wp_mono (wp_and_runs (wp_listAll holds valid present (more + 1) _ _ selected (.inl rfl)
        readable few))
      rintro outcome after ⟨⟨pages, rfl⟩, run⟩
      obtain ⟨rfl, paged⟩ := listAll_run holds valid present (more + 1) selected (.inl rfl) run
      have records := paged_objects paged
      rw [plain_entries rfl, unlimited] at records
      have listed := records_listed inside records
      rw [matching_keys sound inside] at listed
      refine ⟨?_, unlimited, store, holds, represents⟩
      simp only [reply, listed]
      rfl

end Steps
/-! ### Whole runs -/

/-- No bucket holds more keys than a listing has patience for, however the run goes on. -/
structure Budget (patience remaining : Nat) (model : MapStore) : Prop where
  requests : remaining ≤ patience
  keys : ∀ name objects, model.lookup name = some objects → objects.keys.card + remaining ≤ patience

section Budgets
variable {patience remaining : Nat} {model : MapStore} {name : Str} {objects : Objects}

theorem budget_same (budget : Budget patience (remaining + 1) model) :
    Budget patience remaining model := by
  refine ⟨Nat.le_of_succ_le budget.requests, ?_⟩
  intro name objects found
  have bound := budget.keys name objects found
  omega

theorem budget_set (budget : Budget patience (remaining + 1) model)
    (few : objects.keys.card + remaining ≤ patience) :
    Budget patience remaining (model.insert name objects) := by
  refine ⟨Nat.le_of_succ_le budget.requests, ?_⟩
  intro other inside found
  by_cases same : other = name
  · subst same
    rw [Finmap.lookup_insert] at found
    obtain rfl := Option.some.inj found
    exact few
  · rw [Finmap.lookup_insert_of_ne _ same] at found
    exact (budget_same budget).keys other inside found

theorem budget_erase (budget : Budget patience (remaining + 1) model) :
    Budget patience remaining (model.erase name) := by
  refine ⟨Nat.le_of_succ_le budget.requests, ?_⟩
  intro other inside found
  by_cases same : other = name
  · subst same
    simp at found
  · rw [Finmap.lookup_erase_ne same] at found
    exact (budget_same budget).keys other inside found

/-- A command adds at most one key. -/
theorem budget_step (crates : Crates) (command : Command)
    (budget : Budget patience (remaining + 1) model) :
    Budget patience remaining (MapStore.step crates command model).2 := by
  cases command with
  | createBucket name =>
      simp only [MapStore.step, MapStore.createBucket]
      split
      · exact budget_same budget
      · split
        · exact budget_same budget
        · exact budget_set budget (by simpa using Nat.le_of_succ_le budget.requests)
  | deleteBucket name =>
      simp only [MapStore.step, MapStore.deleteBucket]
      split
      · exact budget_same budget
      · split
        · exact budget_same budget
        · split
          · exact budget_erase budget
          · exact budget_same budget
  | putObject bucket key chunks contentType =>
      simp only [MapStore.step, MapStore.putObject]
      split
      · exact budget_same budget
      · split
        · exact budget_same budget
        · next objects found =>
            split
            · exact budget_same budget
            · apply budget_set budget
              have bound := budget.keys bucket objects found
              have grown : (objects.insert key.val (chunks.flatten,
                  contentType.getD defaultContentType)).keys.card ≤ objects.keys.card + 1 := by
                apply (Finset.card_le_card _).trans (Finset.card_insert_le key.val objects.keys)
                intro other member
                rw [Finmap.mem_keys, Finmap.mem_insert] at member
                rw [Finset.mem_insert, Finmap.mem_keys]
                exact member
              omega
  | deleteObject bucket key =>
      simp only [MapStore.step, MapStore.deleteObject]
      split
      · exact budget_same budget
      · split
        · exact budget_same budget
        · split
          · exact budget_same budget
          · next objects found =>
              split
              · exact budget_same budget
              · apply budget_set budget
                have bound := budget.keys bucket objects found
                have fewer := Finset.card_erase_le (a := key.val) (s := objects.keys)
                rw [Finmap.keys_erase]
                omega
  | getObject bucket key => exact budget_same budget
  | headObject bucket key => exact budget_same budget
  | listBuckets => exact budget_same budget
  | listObjects bucket pfx maxKeys => exact budget_same budget

end Budgets

theorem serve_simulated {crates : Crates} {storage : FsStorage} {patience remaining : Nat} {s : FS}
    {model : MapStore} (command : Command) (stands : Stands crates storage s model)
    (budget : Budget patience (remaining + 1) model) :
    Simulated crates storage (serve crates storage patience command)
      (MapStore.step crates command model) s := by
  cases command with
  | createBucket name => exact create_simulated stands name
  | deleteBucket name => exact delete_bucket_simulated stands name
  | putObject bucket key chunks contentType => exact put_simulated stands bucket key chunks contentType
  | getObject bucket key => exact get_simulated stands bucket key
  | headObject bucket key => exact head_simulated stands bucket key
  | deleteObject bucket key => exact delete_simulated stands bucket key
  | listBuckets => exact list_buckets_simulated stands
  | listObjects bucket pfx maxKeys =>
      have positive : 0 < patience := Nat.lt_of_lt_of_le (Nat.succ_pos remaining) budget.requests
      apply list_simulated stands bucket pfx maxKeys positive
      intro objects found
      have bound := budget.keys bucket objects found
      omega

/-- From an empty data root every run of commands is answered as the map answers it. -/
theorem store_refines_map (crates : Crates) {storage : FsStorage} {s : FS}
    (start : EmptyRoot storage s) (unlimited : s.nameMax = none) (commands : List Command)
    (patience : Nat) (patient : commands.length ≤ patience) :
    wp faultFree (runAll (serve crates storage patience) commands) (fun outcome _ =>
      outcome = .ok (answerAll (MapStore.step crates) commands ∅).1) s := by
  have standing : Stands crates storage s ∅ := by
    refine ⟨unlimited, .empty, holds_empty crates start (.inl unlimited), ?_⟩
    intro name
    simp only [Store.empty, Finmap.lookup_empty]
    exact .none
  have budget : Budget patience commands.length (∅ : MapStore) := by
    refine ⟨patient, ?_⟩
    intro name objects found
    simp at found
  have simulated := wp_runAll (fun remaining state model =>
    Stands crates storage state model ∧ Budget patience remaining model)
    (fun remaining command state model related => wp_mono (serve_simulated command related.1 related.2)
      fun outcome after satisfied => ⟨satisfied.1, satisfied.2, budget_step crates command related.2⟩)
    commands ⟨standing, budget⟩
  apply wp_mono simulated
  rintro outcome after ⟨answered, _⟩
  exact answered

theorem store_refines_map_photos :
    wp faultFree (runAll (serve Crates.reference Reference.storage 4)
      [.createBucket Reference.bucket,
        .putObject Reference.bucket ⟨"2023/a".toList, by decide⟩ [utf8 "hel".toList, utf8 "lo".toList] none,
        .getObject Reference.bucket ⟨"2023/a".toList, by decide⟩, .deleteBucket Reference.bucket])
      (fun outcome _ => outcome = .ok [.done,
        .object ⟨"2023/a".toList, 5, "application/octet-stream".toList,
          "5d41402abc4b2a76b9719d911017c592".toList⟩,
        .content ⟨"2023/a".toList, 5, "application/octet-stream".toList,
          "5d41402abc4b2a76b9719d911017c592".toList⟩ (utf8 "hello".toList),
        .refused .BucketNotEmpty]) (Reference.disk none) := by
  exact store_refines_map Crates.reference (Reference.disk_empty none) rfl _ 4 (by decide)

end Ferrobucket
