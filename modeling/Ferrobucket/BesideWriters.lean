import Ferrobucket.LastWriters
import Ferrobucket.ListingRaces
/-! The listing is safe beside puts and deletes when no temporary file is taken for a key and
every sidecar it opens is there. -/
namespace Ferrobucket
open Text Posix Program Grouping

/-! ### The directory while others write -/

section Here
variable {Thread : Type} {crates : Crates} {storage : FsStorage} {calls : Thread → KeyCall} {bucket : Str}
  {start s t : FS} {store : Store} {old : Bucket} {stages : Option Thread → Sights (Option Thread)}
  {past : List (Event (Option Thread) Reply)}

/-- An entry that is no temporary file is the body of a key that was given. -/
theorem entry_given (holds : Holds crates storage start store)
    (present : store.buckets.lookup bucket = some old) (dirs : SameDirs start s)
    (traffic : Traffic crates storage start store (participants calls bucket) stages past s) {name : Str}
    (there : s.look (name :: objectsPlace storage bucket) ≠ none) (plain : isTempName name = false) :
    ∃ key body, encodeKey key = .ok name ∧
      s.look (name :: objectsPlace storage bucket) = some (.file body) ∧ Given calls bucket old key := by
  have sound := holds.sound.buckets bucket old present
  have before : start.look (name :: objectsPlace storage bucket) = (old.objects.lookup name).map .file :=
    look_object holds sound.valid present name
  cases found : s.look (name :: objectsPlace storage bucket) with
  | none => exact absurd found there
  | some entry =>
      cases entry with
      | dir =>
          have directory := (dirs _).mp found
          rw [before] at directory
          cases stored : old.objects.lookup name <;> simp [stored] at directory
      | file body =>
          by_cases object : IsObjectName name
          · have explained := traffic.files (.body bucket name) ⟨sound.valid, object⟩
            unfold Explains at explained
            cases last : lastTouch ((StoredFile.body bucket name).path storage) past with
            | none =>
                rw [last] at explained
                have kept : start.look (name :: objectsPlace storage bucket) = some (.file body) :=
                  explained.symm.trans found
                rw [before] at kept
                obtain ⟨content, stored, _⟩ := Option.map_eq_some_iff.mp kept
                obtain ⟨key, _, admitted⟩ := object
                exact ⟨key, body, admitted, rfl, .inl ⟨name, content, admitted, stored⟩⟩
            | some touched =>
                rw [last] at explained
                cases touched with
                | removed thread => exact absurd explained.2 there
                | installed thread =>
                    obtain ⟨content, ⟨objectMeta, stores⟩, _⟩ := explained
                    obtain ⟨key, other, contentType, put⟩ :=
                      participants_store thread bucket name content objectMeta stores
                    rw [put] at stores
                    obtain ⟨writer, call⟩ := participants_put put
                    exact ⟨key, body, stores.2.1, rfl, .inr ⟨writer, other, contentType, call⟩⟩
          · -- Such a file was there before, and then it was no file of a bucket.
            have elsewhere : Elsewhere storage (name :: objectsPlace storage bucket) := by
              refine ⟨not_isTemp plain, not_bucketRecord, ?_⟩
              rintro (⟨other, encoded⟩ | ⟨other, encoded⟩) proper same
              · obtain ⟨rfl, rfl⟩ := bodyPlace_injective same
                exact object proper.2
              · exact body_not_sidecar same
            have kept := traffic.others _ body elsewhere found
            rw [before] at kept
            obtain ⟨content, stored, _⟩ := Option.map_eq_some_iff.mp kept
            exact absurd (sound.objects name content stored) object

/-- The directory can be read all the time. -/
theorem objects_located (holds : Holds crates storage start store)
    (present : store.buckets.lookup bucket = some old) (dirs : SameDirs start s) {held : Option Thread → Held}
    (apart : Apart (bucketTerms storage start holds.limit) held s) :
    s.locateDir (storage.objectsDir bucket) = .ok (objectsPlace storage bucket) := by
  have valid := (holds.sound.buckets bucket old present).valid
  have inside := (dirs _).mpr (look_objects holds valid present)
  exact FS.locateDir_dir ((reaches_objects holds.limit valid).there s apart.tree apart.limit inside) inside

/-- The bucket is there all the time. -/
theorem bucket_stays (holds : Holds crates storage start store)
    (present : store.buckets.lookup bucket = some old) (dirs : SameDirs start s) {held : Option Thread → Held}
    (apart : Apart (bucketTerms storage start holds.limit) held s) :
    s.exists (storage.bucketPath bucket) = true := by
  have valid := (holds.sound.buckets bucket old present).valid
  have inside : s.look (bucket :: storage.dataRoot) = some .dir :=
    (dirs _).mpr (by rw [look_bucket holds valid, present]; rfl)
  have located := (reaches_bucket holds.limit valid).there s apart.tree apart.limit inside
  rw [FS.exists_located located, inside]
  rfl

end Here
/-! ### The keys that are selected -/

/-- The request asks for the key: it lies behind the token and has the prefix. -/
def ListV2Req.wants (req : ListV2Req) (after : Option Str) (key : Str) : Bool :=
  after.all (· < key) && startsWith key (req.pfx.getD [])

section Selection
variable {storage : FsStorage} {bucket : Str} {s : FS} {req : ListV2Req} {after : Option Str}
  {keys order : List Str}

theorem toOption_ok {name key : Str} : (decodeKey name).toOption = some key ↔ decodeKey name = .ok key := by
  cases decodeKey name <;> simp [Except.toOption]

theorem wants_iff {key : Str} :
    req.wants after key = true ↔ req.pfx.getD [] <+: key ∧ after.all (· < key) = true := by
  unfold ListV2Req.wants
  rw [Bool.and_eq_true, starts_with_iff, and_comm]

theorem select_wanted (token : req.continuationToken = after.map encodeContinuationToken) :
    selectKeys keys req = .ok ((keys.insertionSort (· ≤ ·)).filter (req.wants after)) := by
  rw [select_after keys token]
  unfold matching ListV2Req.wants
  rw [List.filter_filter]

/-- The keys of a scan may be twice in it, when a temporary file is taken for one of them; those
that are asked for are in order when they are not. -/
theorem wanted_sorted (once : (keys.filter (req.wants after)).Nodup) :
    ((keys.insertionSort (· ≤ ·)).filter (req.wants after)).Pairwise (· < ·) := by
  have ascending : (keys.insertionSort (· ≤ ·)).Pairwise (· ≤ ·) := List.pairwise_insertionSort _ _
  have same := (List.perm_insertionSort (· ≤ ·) keys).filter (req.wants after)
  exact ((ascending.filter _).and (same.nodup_iff.mpr once)).imp fun both => lt_of_le_of_ne both.1 both.2

/-- Every entry that is taken for a key that is asked for is the body of that key. -/
structure Plain (storage : FsStorage) (bucket : Str) (req : ListV2Req) (after : Option Str) (s : FS)
    (order : List Str) : Prop where
  once : order.Nodup
  entries : ∀ name, name ∈ order ↔ s.look (name :: objectsPlace storage bucket) ≠ none
  bodies : ∀ name ∈ order, ∀ key, decodeKey name = .ok key → req.wants after key = true →
    encodeKey key = .ok name ∧ ∃ body, s.look (name :: objectsPlace storage bucket) = some (.file body)

theorem plain_nodup (plain : Plain storage bucket req after s order) :
    ((order.filterMap fun name => (decodeKey name).toOption).filter (req.wants after)).Nodup := by
  unfold List.Nodup
  rw [List.pairwise_filter, List.pairwise_filterMap]
  apply plain.once.imp_of_mem
  intro left right inLeft inRight different first decoded second again wanted too
  rintro rfl
  have one := (plain.bodies left inLeft first (toOption_ok.mp decoded) wanted).1
  have other := (plain.bodies right inRight first (toOption_ok.mp again) too).1
  exact different (Except.ok.inj (one.symm.trans other))

theorem mem_plain (plain : Plain storage bucket req after s order) (key : Str) :
    key ∈ ((order.filterMap fun name => (decodeKey name).toOption).insertionSort (· ≤ ·)).filter
        (req.wants after) ↔
      (StoredIn storage bucket s key ∧ req.pfx.getD [] <+: key) ∧ after.all (· < key) = true := by
  rw [List.mem_filter, List.mem_insertionSort, and_assoc, ← wants_iff]
  apply and_congr_left
  intro wanted
  constructor
  · intro member
    obtain ⟨name, listed, decoded⟩ := List.mem_filterMap.mp member
    obtain ⟨admitted, body, found⟩ := plain.bodies name listed key (toOption_ok.mp decoded) wanted
    exact ⟨name, body, admitted, found⟩
  · rintro ⟨name, body, admitted, found⟩
    refine List.mem_filterMap.mpr ⟨name, (plain.entries name).mpr ?_, ?_⟩
    · exact fun absent => by cases absent.symm.trans found
    · exact toOption_ok.mpr (decode_encode_key admitted)

end Selection
/-! ### The page -/

/-- What a listing is to find beside writers: in the directory no temporary file that it takes
for a key it asks for, and every sidecar when it opens it. -/
def Undisturbed {Thread : Type} (req : ListV2Req) (after : Option Str) : Event (Option Thread) Reply → Prop
  | ⟨none, .readDir _, .ok entries⟩ => ∀ entry ∈ entries, isTempName entry.name = true →
      ∀ key, decodeKey entry.name = .ok key → req.wants after key = false
  | ⟨none, .open _, .error _⟩ => False
  | _ => True

/-- The page shows nothing but keys that were given, and it accounts for every key that is
stored in all the states `during` the call, up to its token. -/
structure SafePage {Thread : Type} (storage : FsStorage) (calls : Thread → KeyCall) (bucket : Str)
    (req : ListV2Req) (after : Option Str) (old : Bucket) (during : FS → Prop) (page : ListV2Res) :
    Prop where
  objects : ∀ key ∈ page.objects.map ObjectMeta.key, Given calls bucket old key
  prefixes : ∀ label ∈ page.commonPrefixes, ∃ key, Given calls bucket old key ∧ req.Collapses key label
  covers : ∃ next : Option Str, page.nextContinuationToken = next.map encodeContinuationToken ∧
    ∀ key, (∀ s, during s → StoredIn storage bucket s key) → after.all (· < key) = true →
      (req.Direct key → key ∈ page.objects.map ObjectMeta.key ∨ next.any (· < key) = true) ∧
      ∀ label, req.Collapses key label → label ∈ page.commonPrefixes ∨ next.any (· < key) = true

section Safety
variable {Thread : Type} {crates : Crates} {storage : FsStorage} {calls : Thread → KeyCall} {bucket : Str}
  {start s t : FS} {store : Store} {old : Bucket} {req : ListV2Req} {after : Option Str} {keys order : List Str}
  {page : ListV2Res}

theorem key_of_item : Item.key ∘ itemOf = Entry.alone := by
  funext entry
  cases entry <;> rfl

theorem label_of_item : Item.label ∘ itemOf = Entry.label := by
  funext entry
  cases entry <;> rfl

/-- What is not up to the token lies behind it. -/
theorem up_to_or_behind (next : Option Str) (key : Str) :
    next.all (key ≤ ·) = true ∨ next.any (· < key) = true := by
  cases next with
  | none => exact .inl rfl
  | some bound => simpa using le_or_gt key bound

theorem safe_page (plain : Plain storage bucket req after s order)
    (given : ∀ key, StoredIn storage bucket s key → Given calls bucket old key) {during : FS → Prop}
    (now : during s)
    (same : keys = ((order.filterMap fun name => (decodeKey name).toOption).insertionSort (· ≤ ·)).filter
      (req.wants after)) (cut : CutFrom req keys page) :
    SafePage storage calls bucket req after old during page := by
  have sorted : keys.Pairwise (· < ·) := same ▸ wanted_sorted (plain_nodup plain)
  have member : ∀ key, key ∈ keys ↔
      (StoredIn storage bucket s key ∧ req.pfx.getD [] <+: key) ∧ after.all (· < key) = true :=
    same ▸ mem_plain plain
  obtain ⟨objects, prefixes, carried, truncated⟩ := cut
  rw [cap_page_eq] at objects prefixes carried truncated
  simp only [List.filterMap_map, key_of_item, label_of_item] at objects prefixes
  have labels : page.commonPrefixes.Perm
      (((pageEntries req keys).take (effectiveMaxKeys req)).filterMap Entry.label) :=
    prefixes ▸ List.perm_insertionSort _ _
  have part := List.take_sublist (effectiveMaxKeys req) (pageEntries req keys)
  constructor
  · intro key shown
    rw [objects] at shown
    have among := (part.filterMap Entry.alone).subset shown
    unfold pageEntries at among
    rw [singles] at among
    exact given key ((member key).mp (List.mem_filter.mp among).1).1.1
  · intro label shown
    obtain ⟨key, inside, collapsed⟩ :=
      mem_labels.mp ((part.filterMap Entry.label).subset (labels.mem_iff.mp shown))
    obtain ⟨⟨stored, starts⟩, _⟩ := (member key).mp inside
    exact ⟨key, given key stored, (collapses_iff req key label).mpr ⟨starts, collapsed⟩⟩
  · obtain ⟨next, span, _, _, token⟩ := cut_spans sorted member objects labels truncated carried
    refine ⟨next, token, fun key always behind => ⟨fun direct => ?_, fun label collapses => ?_⟩⟩
    · exact (up_to_or_behind next key).imp_left fun upTo =>
        span.direct key (always s now) behind upTo direct
    · exact (up_to_or_behind next key).imp_left fun upTo =>
        span.collapsed key label (always s now) behind upTo collapses

variable [DecidableEq Thread] {last : Option Thread → Op Response}
  {events past later : List (Event (Option Thread) Reply)} {answer : Except Errno (List DirEntry)}

/-- The state in which the directory was read. -/
theorem read_plain (holds : Holds crates storage start store) (tree : start.Tree)
    (present : store.buckets.lookup bucket = some old) (named : old.Named)
    (run : Interleaves (fun _ => faultFree) (besideWriters crates storage calls bucket req) start
      (past ++ (⟨none, .readDir (storage.objectsDir bucket), answer⟩ :: later)) last t)
    (undisturbed : Undisturbed req after
      (⟨none, .readDir (storage.objectsDir bucket), answer⟩ : Event (Option Thread) Reply)) :
    ∃ middle s order, Interleaves (fun _ => faultFree) (besideWriters crates storage calls bucket req) start
        past middle s ∧
      Interleaves (fun _ => faultFree) middle s
        (⟨none, .readDir (storage.objectsDir bucket), answer⟩ :: later) last t ∧
      Plain storage bucket req after s order ∧
      (∀ key, StoredIn storage bucket s key → Given calls bucket old key) ∧
      scanned answer = order.filterMap fun name => (decodeKey name).toOption := by
  obtain ⟨middle, s, front, back⟩ := interleaves_split run
  obtain ⟨next, step⟩ := interleaves_first back
  obtain ⟨dirs, ghosts, sharing, _⟩ := beside_run holds tree present named front
  have located := objects_located holds present dirs sharing.apart
  obtain ⟨order, once, entries, rfl⟩ := readDir_entries step located
  refine ⟨middle, s, order, front, back, ⟨once, entries, ?_⟩, ?_, ?_⟩
  · intro name listed key decoded wanted
    cases temp : isTempName name with
    | true =>
        have unasked := undisturbed _ (List.mem_map_of_mem listed) temp key decoded
        cases unasked.symm.trans wanted
    | false =>
        obtain ⟨own, body, admitted, found, _⟩ :=
          entry_given holds present dirs sharing.extra ((entries name).mp listed) temp
        obtain rfl : own = key := Except.ok.inj ((decode_encode_key admitted).symm.trans decoded)
        exact ⟨admitted, body, found⟩
  · rintro key ⟨encoded, body, admitted, found⟩
    have lasting : isTempName encoded = false := by
      by_cases empty : encoded = []
      · rw [empty]
        decide
      · exact object_not_temp (encoded_object admitted empty)
    have there : s.look (encoded :: objectsPlace storage bucket) ≠ none :=
      fun absent => by cases absent.symm.trans found
    obtain ⟨own, _, again, _, given⟩ := entry_given holds present dirs sharing.extra there lasting
    rwa [encode_key_injective admitted again]
  · unfold scanned
    simp only [List.filterMap_map]
    rfl

/-- Nothing stops the listing. -/
theorem never_stops (holds : Holds crates storage start store) (tree : start.Tree)
    (present : store.buckets.lookup bucket = some old) (named : old.Named)
    {event : Event (Option Thread) Reply} (own : event.thread = none) (stops : Stops storage bucket event)
    (run : Interleaves (fun _ => faultFree) (besideWriters crates storage calls bucket req) start
      (past ++ (event :: later)) last t) : ¬ Undisturbed req after event := by
  intro undisturbed
  obtain ⟨middle, s, front, back⟩ := interleaves_split run
  obtain ⟨next, step⟩ := interleaves_first back
  obtain ⟨dirs, ghosts, sharing, _⟩ := beside_run holds tree present named front
  cases stops with
  | missing thread =>
      obtain rfl := quiet_same rfl step
      have gone := exists_reply step
      rw [bucket_stays holds present dirs sharing.apart] at gone
      cases gone
  | unread thread e =>
      obtain ⟨_, _, _, impossible⟩ := readDir_entries step (objects_located holds present dirs sharing.apart)
      cases impossible
  | lost thread path e =>
      obtain rfl : thread = none := own
      exact undisturbed

end Safety
/-! ### A put that has not ended -/

section Photos

def onePut : Unit → KeyCall := fun _ => .putObject Reference.bucket ['a'] [] none

/-- The bucket with a body in it and no record for it. -/
def halfStored : Bucket :=
  { Bucket.fresh Reference.info with objects := (Bucket.fresh Reference.info).objects.insert ['a'] [] }

theorem half_put : ∃ written t store,
    Runs faultFree (putBody Crates.reference Reference.storage Reference.bucket ['a'] []) Reference.bucketDisk
      (.ok written) t ∧
    Holds Crates.reference Reference.storage t store ∧
    store.buckets.lookup Reference.bucket = some halfStored := by
  have valid : validateBucketName Reference.bucket = .ok () := by decide
  have admitted : encodeKey ['a'] = .ok ['a'] := by decide
  have holds := Reference.bucketDisk_holds
  have present : (Store.empty.setBucket Reference.bucket (.fresh Reference.info)).buckets.lookup
      Reference.bucket = some (.fresh Reference.info) := Finmap.lookup_insert _
  have put : wp faultFree (putBody Crates.reference Reference.storage Reference.bucket ['a'] [])
      (fun outcome after => (∃ written, outcome = .ok written) ∧ ∃ store,
        Holds Crates.reference Reference.storage after store ∧
          store.buckets.lookup Reference.bucket = some halfStored) Reference.bucketDisk := by
    simp only [putBody, Prog.send_bind, wp_exists, FS.exists_located (locate_bucket holds valid),
      look_bucket holds valid, present]
    apply wp_writeObjectBody (roomy_objects holds valid present)
      (locate_object_of_key holds valid present admitted (List.cons_ne_nil _ _))
    · rintro e after ⟨⟩
    · intro after _ inside
      exact absurd inside (object_not_dir holds valid present ['a'])
    · intro after _ _ becomes
      have stored := sound_insert_object [] (holds.sound.buckets Reference.bucket _ present)
        ⟨['a'], List.cons_ne_nil _ _, admitted⟩
      exact ⟨⟨_, rfl⟩, _, holds_change holds present
        (view_insert_object Crates.reference (.fresh Reference.info) ['a'] []) stored becomes,
        Finmap.lookup_insert _⟩
  obtain ⟨outcome, t, run, ⟨written, rfl⟩, store, still, there⟩ := wp_returns put
  exact ⟨written, t, store, run, still, there⟩

/-- A body without a record is listed by no listing. -/
theorem half_unlisted {store : Store} (present : store.buckets.lookup Reference.bucket = some halfStored)
    (nameMax : Option Nat) : ∃ e, store.listObjectsV2 Reference.storage nameMax Reference.bucket {} = .error e := by
  have valid : validateBucketName Reference.bucket = .ok () := by decide
  cases answered : store.listObjectsV2 Reference.storage nameMax Reference.bucket {} with
  | error e => exact ⟨e, rfl⟩
  | ok page =>
      exfalso
      have names : halfStored.objects.keys = {['a']} := by
        ext name
        rw [Finmap.mem_keys, Finset.mem_singleton, halfStored, Finmap.mem_insert]
        exact or_iff_left (Finmap.notMem_empty)
      have scan : Store.scannedKeys halfStored = [['a']] := by
        rw [Store.scannedKeys, names, Finset.sort_singleton]
        decide
      have selected := select_first (Store.scannedKeys halfStored) {} rfl
      obtain ⟨shows, _, _⟩ := list_page Reference.storage valid present selected answered
      have own : ((pageEntries {} (matching (Store.scannedKeys halfStored) none)).take
          (effectiveMaxKeys {})).filterMap Entry.alone = [['a']] := by
        rw [scan]
        decide
      have objects := shows.objects
      rw [own] at objects
      obtain ⟨objectMeta, _, record, _⟩ := List.forall₂_cons_left_iff.mp objects
      have admitted : encodeKey ['a'] = .ok ['a'] := by decide
      simp [Bucket.recordOf, admitted, Except.toOption, halfStored, Bucket.fresh] at record

end Photos
end Ferrobucket
