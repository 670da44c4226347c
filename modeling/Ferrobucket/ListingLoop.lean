import Ferrobucket.Pagination
import Ferrobucket.Reference
/-! A listing followed through all its pages: the client asks again with the token of
the last page until a page is not truncated. Where every body has its own sidecar this
ends, without an error, and the pages together are the sorted keys of the bucket. -/
namespace Ferrobucket
open Text Posix Program Grouping

/-- The client's loop, for at most `patience` requests. -/
def listAll (crates : Crates) (storage : FsStorage) (bucket : Str) :
    Nat → ListV2Req → Op (Option (List ListV2Res))
  | 0, _ => pure none
  | patience + 1, req => do
      let page ← listObjectsV2 crates storage bucket req
      if page.isTruncated then
        let later ← listAll crates storage bucket patience
          { req with continuationToken := page.nextContinuationToken }
        pure (later.map fun pages => page :: pages)
      else pure (some [page])

/-! ### Buckets and the records in them -/

def Bucket.Stores (bucket : Bucket) (key : Str) : Prop :=
  ∃ encoded body, encodeKey key = .ok encoded ∧ bucket.objects.lookup encoded = some body

/-- The sidecar of a key, where it can be read. -/
def Bucket.recordOf (nameMax : Option Nat) (bucket : Bucket) (key : Str) : Option ObjectMeta :=
  (encodeKey key).toOption.bind fun encoded =>
    bucket.sidecars.bind fun sidecars =>
      if exceeds nameMax (FsStorage.sidecarName encoded) then none
      else sidecars.lookup (FsStorage.sidecarName encoded)

/-- Every body has a sidecar that can be read and that names the key of the body. -/
structure Bucket.Complete (nameMax : Option Nat) (bucket : Bucket) : Prop where
  sidecars : bucket.sidecars.isSome = true
  records : ∀ key, bucket.Stores key →
    ∃ objectMeta, bucket.recordOf nameMax key = some objectMeta ∧ objectMeta.key = key

section Stored
variable {bucket : Bucket} {name : Str}

theorem mem_scanned (sound : bucket.Sound name) (key : Str) :
    key ∈ Store.scannedKeys bucket ↔ bucket.Stores key := by
  unfold Store.scannedKeys Bucket.Stores
  simp only [List.mem_filterMap, Finset.mem_sort, Finmap.mem_keys, Finmap.mem_iff]
  constructor
  · rintro ⟨encoded, ⟨body, stored⟩, decoded⟩
    obtain ⟨own, _, admitted⟩ := sound.objects encoded body stored
    rw [decode_encode_key admitted] at decoded
    obtain rfl := Option.some.inj decoded
    exact ⟨encoded, body, admitted, stored⟩
  · rintro ⟨encoded, body, admitted, stored⟩
    refine ⟨encoded, ⟨body, stored⟩, ?_⟩
    rw [decode_encode_key admitted]
    rfl

theorem scanned_nodup (sound : bucket.Sound name) : (Store.scannedKeys bucket).Nodup := by
  unfold Store.scannedKeys List.Nodup
  rw [List.pairwise_filterMap]
  apply (Finset.sort_nodup bucket.objects.keys (· ≤ ·)).imp_of_mem
  intro left right inLeft inRight different first decoded second again
  simp only [Finset.mem_sort, Finmap.mem_keys, Finmap.mem_iff] at inLeft inRight
  obtain ⟨leftBody, leftStored⟩ := inLeft
  obtain ⟨rightBody, rightStored⟩ := inRight
  obtain ⟨leftKey, _, leftAdmitted⟩ := sound.objects left leftBody leftStored
  obtain ⟨rightKey, _, rightAdmitted⟩ := sound.objects right rightBody rightStored
  rw [decode_encode_key leftAdmitted] at decoded
  rw [decode_encode_key rightAdmitted] at again
  obtain rfl := Option.some.inj decoded
  obtain rfl := Option.some.inj again
  rintro rfl
  exact different (Except.ok.inj (leftAdmitted.symm.trans rightAdmitted))

section Storing
variable {sidecars : Names ObjectMeta} {key encoded : Str} (content : Bytes) (objectMeta : ObjectMeta)

theorem stores_insert (admitted : encodeKey key = .ok encoded) (other : Str) :
    (Store.storedBucket bucket sidecars encoded content objectMeta).Stores other ↔
      other = key ∨ bucket.Stores other := by
  unfold Bucket.Stores Store.storedBucket
  constructor
  · rintro ⟨name, body, own, stored⟩
    by_cases same : name = encoded
    · subst same
      exact .inl (encode_key_injective own admitted)
    · rw [Finmap.lookup_insert_of_ne _ same] at stored
      exact .inr ⟨name, body, own, stored⟩
  · rintro (rfl | ⟨name, body, own, stored⟩)
    · exact ⟨encoded, content, admitted, Finmap.lookup_insert _⟩
    · by_cases same : name = encoded
      · subst same
        exact ⟨name, content, own, Finmap.lookup_insert _⟩
      · exact ⟨name, body, own, by simpa [Finmap.lookup_insert_of_ne _ same] using stored⟩

theorem record_insert {nameMax : Option Nat} (kept : bucket.sidecars = some sidecars)
    (admitted : encodeKey key = .ok encoded)
    (short : exceeds nameMax (FsStorage.sidecarName encoded) = false) (other : Str) :
    (Store.storedBucket bucket sidecars encoded content objectMeta).recordOf nameMax other =
      if other = key then some objectMeta else bucket.recordOf nameMax other := by
  unfold Bucket.recordOf Store.storedBucket
  by_cases same : other = key
  · subst same
    simp [admitted, short, Except.toOption]
  · rw [if_neg same]
    cases own : encodeKey other with
    | error e => rfl
    | ok name =>
        have different : FsStorage.sidecarName name ≠ FsStorage.sidecarName encoded := by
          intro clash
          obtain rfl := sidecar_injective clash
          exact same (encode_key_injective own admitted)
        simp [kept, Except.toOption, Finmap.lookup_insert_of_ne _ different]

theorem complete_insert {nameMax : Option Nat} (complete : bucket.Complete nameMax)
    (kept : bucket.sidecars = some sidecars) (admitted : encodeKey key = .ok encoded)
    (short : exceeds nameMax (FsStorage.sidecarName encoded) = false)
    (named : objectMeta.key = key) :
    (Store.storedBucket bucket sidecars encoded content objectMeta).Complete nameMax := by
  constructor
  · rfl
  · intro other stored
    rw [record_insert content objectMeta kept admitted short]
    by_cases same : other = key
    · exact ⟨objectMeta, if_pos same, named.trans same.symm⟩
    · rw [if_neg same]
      rcases (stores_insert content objectMeta admitted other).mp stored with equal | before
      · exact absurd equal same
      · exact complete.records other before

end Storing
end Stored

/-- What one page shows of a stretch of the entries. -/
structure Shows (nameMax : Option Nat) (bucket : Bucket) (chunk : List (Entry Str Str))
    (page : ListV2Res) : Prop where
  objects : List.Forall₂ (fun key objectMeta => bucket.recordOf nameMax key = some objectMeta)
    (chunk.filterMap Entry.alone) page.objects
  prefixes : page.commonPrefixes.Perm (chunk.filterMap Entry.label)

theorem except_map_ok {Value Result : Type} (outcome : Except StorageError Value)
    (f : Value → Result) (result : Result) :
    outcome.map f = .ok result ↔ ∃ value, outcome = .ok value ∧ f value = result := by
  cases outcome <;> simp [Except.map]

section Heads
variable (storage : FsStorage) {nameMax : Option Nat} {store : Store} {bucket : Str} {old : Bucket}

theorem head_record (valid : validateBucketName bucket = .ok ())
    (present : store.buckets.lookup bucket = some old) (key : Str) (objectMeta : ObjectMeta) :
    store.headObject storage nameMax bucket key = .ok objectMeta ↔
      old.recordOf nameMax key = some objectMeta := by
  unfold Store.headObject Bucket.recordOf
  simp only [valid, present, Option.bind_some]
  cases admitted : encodeKey key with
  | error e => simp [Except.toOption]
  | ok encoded =>
      cases kept : old.sidecars with
      | none => simp [Except.toOption]
      | some sidecars =>
          by_cases long : exceeds nameMax (FsStorage.sidecarName encoded) = true
          · simp [Except.toOption, long]
          · cases found : sidecars.lookup (FsStorage.sidecarName encoded) with
            | none => simp [Except.toOption, long, found]
            | some other => simp [Except.toOption, long, found]

theorem page_items_iff (valid : validateBucketName bucket = .ok ())
    (present : store.buckets.lookup bucket = some old) (chunk : List (Entry Str Str))
    (objects : List ObjectMeta) (prefixes : List Str) :
    store.pageItems storage nameMax bucket (chunk.map itemOf) = .ok (objects, prefixes) ↔
      List.Forall₂ (fun key objectMeta => old.recordOf nameMax key = some objectMeta)
        (chunk.filterMap Entry.alone) objects ∧ prefixes = chunk.filterMap Entry.label := by
  induction chunk generalizing objects prefixes with
  | nil => simp [Store.pageItems, eq_comm]
  | cons entry rest ih =>
      cases entry with
      | single key =>
          simp only [List.filterMap_cons, alone_single, label_single, List.map_cons, itemOf,
            toEmitted, Store.pageItems]
          cases found : store.headObject storage nameMax bucket key with
          | error e =>
              have absent : ∀ objectMeta, old.recordOf nameMax key ≠ some objectMeta := by
                intro objectMeta record
                rw [← head_record storage valid present, found] at record
                cases record
              simp [List.forall₂_cons_left_iff, absent]
          | ok objectMeta =>
              have record := (head_record storage valid present key objectMeta).mp found
              constructor
              · intro items
                obtain ⟨⟨later, others⟩, rest, same⟩ := (except_map_ok _ _ _).mp items
                cases same
                obtain ⟨all, labels⟩ := (ih later others).mp rest
                exact ⟨.cons record all, labels⟩
              · rintro ⟨all, rfl⟩
                obtain ⟨first, later, same, rest, rfl⟩ := List.forall₂_cons_left_iff.mp all
                rw [record] at same
                obtain rfl := Option.some.inj same
                rw [(ih later _).mpr ⟨rest, rfl⟩]
                rfl
      | group collapsed last =>
          simp only [List.filterMap_cons, alone_group, label_group, List.map_cons, itemOf,
            toEmitted, Store.pageItems]
          constructor
          · intro items
            obtain ⟨⟨later, others⟩, rest, same⟩ := (except_map_ok _ _ _).mp items
            cases same
            obtain ⟨all, labels⟩ := (ih later others).mp rest
            exact ⟨all, by rw [labels]⟩
          · rintro ⟨all, rfl⟩
            rw [(ih objects _).mpr ⟨all, rfl⟩]
            rfl

/-- A page that is answered shows the first entries of the keys that were selected. -/
theorem list_page (valid : validateBucketName bucket = .ok ())
    (present : store.buckets.lookup bucket = some old) {req : ListV2Req} {keys : List Str}
    (selected : selectKeys (Store.scannedKeys old) req = .ok keys) {page : ListV2Res}
    (answered : store.listObjectsV2 storage nameMax bucket req = .ok page) :
    Shows nameMax old ((pageEntries req keys).take (effectiveMaxKeys req)) page ∧
      page.isTruncated = decide (effectiveMaxKeys req < (pageEntries req keys).length) ∧
      page.nextContinuationToken =
        if effectiveMaxKeys req < (pageEntries req keys).length then
          ((pageEntries req keys)[effectiveMaxKeys req - 1]?).map fun entry =>
            encodeContinuationToken entry.last
        else none := by
  simp only [Store.listObjectsV2, valid, present, selected] at answered
  obtain ⟨⟨objects, prefixes⟩, items, rfl⟩ := (except_map_ok _ _ _).mp answered
  rw [cap_page_eq] at items
  obtain ⟨records, rfl⟩ := (page_items_iff storage valid present _ objects prefixes).mp items
  refine ⟨⟨records, List.perm_insertionSort _ _⟩, ?_, ?_⟩
  · simp [cap_page_eq]
  · simp [cap_page_eq]

theorem list_page_found (valid : validateBucketName bucket = .ok ())
    (present : store.buckets.lookup bucket = some old) {req : ListV2Req} {keys : List Str}
    (selected : selectKeys (Store.scannedKeys old) req = .ok keys)
    (readable : ∀ key ∈ keys, ∃ objectMeta, old.recordOf nameMax key = some objectMeta) :
    ∃ page, store.listObjectsV2 storage nameMax bucket req = .ok page := by
  have all : ∀ names : List Str, (∀ key ∈ names, key ∈ keys) →
      ∃ objects, List.Forall₂ (fun key objectMeta => old.recordOf nameMax key = some objectMeta)
        names objects := by
    intro names inside
    induction names with
    | nil => exact ⟨[], .nil⟩
    | cons key rest ih =>
        obtain ⟨objectMeta, record⟩ := readable key (inside key List.mem_cons_self)
        obtain ⟨objects, later⟩ := ih fun other member => inside other (List.mem_cons_of_mem key member)
        exact ⟨objectMeta :: objects, .cons record later⟩
  have among : ∀ key ∈ ((pageEntries req keys).take (effectiveMaxKeys req)).filterMap Entry.alone,
      key ∈ keys := by
    intro key member
    obtain ⟨entry, taken, alone⟩ := List.mem_filterMap.mp member
    have inside := last_mem (List.mem_of_mem_take taken)
    cases entry with
    | single own =>
        obtain rfl := Option.some.inj alone
        exact inside
    | group label last => cases alone
  obtain ⟨objects, records⟩ := all _ among
  have items := (page_items_iff storage valid present _ objects _).mpr ⟨records, rfl⟩
  have capped : (capPage req keys).capped =
      ((pageEntries req keys).take (effectiveMaxKeys req)).map itemOf := by rw [cap_page_eq]
  simp only [Store.listObjectsV2, valid, present, selected, capped, items]
  exact ⟨_, rfl⟩

end Heads

/-! ### The loop -/

/-- The pages of a run of requests, one stretch of entries after the other. -/
inductive Paged (nameMax : Option Nat) (bucket : Bucket) (limit : Nat) : List (Entry Str Str) → List ListV2Res → Prop
  | last {chunk : List (Entry Str Str)} {page : ListV2Res} (short : chunk.length ≤ limit)
      (shows : Shows nameMax bucket chunk page) (complete : page.isTruncated = false) :
      Paged nameMax bucket limit chunk [page]
  | more {chunk : List (Entry Str Str)} {page : ListV2Res} {later : List ListV2Res}
      (long : limit < chunk.length)
      (shows : Shows nameMax bucket (chunk.take limit) page)
      (truncated : page.isTruncated = true) (token : page.nextContinuationToken.isSome = true)
      (rest : Paged nameMax bucket limit (chunk.drop limit) later) :
      Paged nameMax bucket limit chunk (page :: later)

section Flat
variable {nameMax : Option Nat} {bucket : Bucket} {limit : Nat} {chunk : List (Entry Str Str)} {pages : List ListV2Res}

theorem shows_length {page : ListV2Res} (shows : Shows nameMax bucket chunk page) :
    page.objects.length + page.commonPrefixes.length = chunk.length := by
  rw [← shows.objects.length_eq, shows.prefixes.length_eq]
  exact alone_label_length chunk

theorem paged_objects (paged : Paged nameMax bucket limit chunk pages) :
    List.Forall₂ (fun key objectMeta => bucket.recordOf nameMax key = some objectMeta)
      (chunk.filterMap Entry.alone) (pages.flatMap ListV2Res.objects) := by
  induction paged with
  | last _ shows _ => simpa using shows.objects
  | @more chunk _ _ _ shows _ _ _ ih =>
      rw [List.flatMap_cons, ← List.take_append_drop limit chunk, List.filterMap_append]
      exact List.rel_append shows.objects ih

theorem paged_prefixes (paged : Paged nameMax bucket limit chunk pages) :
    (pages.flatMap ListV2Res.commonPrefixes).Perm (chunk.filterMap Entry.label) := by
  induction paged with
  | last _ shows _ => simpa using shows.prefixes
  | @more chunk _ _ _ shows _ _ _ ih =>
      have both := shows.prefixes.append ih
      rwa [← List.filterMap_append, List.take_append_drop] at both

/-- No page is longer than the limit, and a truncated one is full and carries a token. -/
def Bounded (limit : Nat) (page : ListV2Res) : Prop :=
  page.objects.length + page.commonPrefixes.length ≤ limit ∧
    (page.isTruncated = true →
      page.objects.length + page.commonPrefixes.length = limit ∧
        ∃ token, page.nextContinuationToken = some token)

theorem paged_bounded (paged : Paged nameMax bucket limit chunk pages) :
    ∀ page ∈ pages, Bounded limit page := by
  induction paged with
  | last short shows complete =>
      intro page member
      obtain rfl := List.mem_singleton.mp member
      refine ⟨?_, ?_⟩
      · rw [shows_length shows]
        exact short
      · intro truncated
        rw [complete] at truncated
        cases truncated
  | more long shows _ token _ ih =>
      intro page member
      rcases List.mem_cons.mp member with rfl | later
      · have full := shows_length shows
        rw [List.length_take, min_eq_left long.le] at full
        exact ⟨full.le, fun _ => ⟨full, Option.isSome_iff_exists.mp token⟩⟩
      · exact ih page later

end Flat

/-- What a request of the loop still has to list: everything, or the keys behind a token. -/
def Remaining (base keys : List Str) : Prop :=
  keys = base ∨ ∃ after, keys = base.filter fun key => after < key

theorem remaining_mem {base keys : List Str} (remaining : Remaining base keys) {key : Str}
    (member : key ∈ keys) : key ∈ base := by
  rcases remaining with rfl | ⟨after, rfl⟩
  · exact member
  · exact (List.mem_filter.mp member).1

theorem remaining_sorted {base keys : List Str} (remaining : Remaining base keys)
    (sorted : base.Pairwise (· < ·)) : keys.Pairwise (· < ·) := by
  rcases remaining with rfl | ⟨after, rfl⟩
  · exact sorted
  · exact sorted.filter _

/-- Behind a key of the remainder, the remainder and the whole are the same. -/
theorem remaining_behind {base keys : List Str} (remaining : Remaining base keys) {last : Str}
    (member : last ∈ keys) :
    (base.filter fun key => last < key) = keys.filter fun key => last < key := by
  rcases remaining with rfl | ⟨after, rfl⟩
  · rfl
  · have above : after < last := by simpa using (List.mem_filter.mp member).2
    rw [List.filter_filter]
    apply List.filter_congr
    intro key _
    by_cases behind : last < key
    · simp [behind, above.trans behind]
    · simp [behind]

/-- There are no more entries than keys. -/
theorem few_entries (req : ListV2Req) (keys : List Str) :
    (pageEntries req (matching keys req.pfx)).length ≤ keys.length :=
  calc (pageEntries req (matching keys req.pfx)).length
      ≤ (matching keys req.pfx).length := entries_length _
    _ ≤ (keys.insertionSort (· ≤ ·)).length := List.length_filter_le _ _
    _ = keys.length := List.length_insertionSort _ _

/-- Without a delimiter every key is an entry of its own. -/
theorem plain_entries {req : ListV2Req} (plain : req.delimiter = none) (keys : List Str) :
    (pageEntries req keys).filterMap Entry.alone = keys := by
  unfold pageEntries
  rw [singles, plain]
  simp [collapsedPrefix]

section Loop
variable {crates : Crates} {storage : FsStorage} {s : FS} {store : Store} {bucket : Str}
  {old : Bucket}

/-- The request after a truncated page goes on where the page ended. -/
theorem next_request {req : ListV2Req} {keys : List Str} {page : ListV2Res}
    (sorted : keys.Pairwise (· < ·))
    (remaining : Remaining (matching (Store.scannedKeys old) req.pfx) keys)
    (long : effectiveMaxKeys req < (pageEntries req keys).length)
    (token : page.nextContinuationToken = ((pageEntries req keys)[effectiveMaxKeys req - 1]?).map
      fun entry => encodeContinuationToken entry.last) :
    page.nextContinuationToken.isSome = true ∧ ∃ later,
      selectKeys (Store.scannedKeys old)
        { req with continuationToken := page.nextContinuationToken } = .ok later ∧
      Remaining (matching (Store.scannedKeys old) req.pfx) later ∧
      pageEntries req later = (pageEntries req keys).drop (effectiveMaxKeys req) ∧
      ∀ key ∈ later, key ∈ keys := by
  have position : effectiveMaxKeys req - 1 < (pageEntries req keys).length := by omega
  have found := List.getElem?_eq_getElem position
  have behind := remaining_behind remaining (last_mem (List.getElem_mem position))
  have rest := page_entries_resume sorted found
  rw [Nat.sub_add_cancel (max_keys_pos req)] at rest
  rw [found] at token
  have next := select_resumed (Store.scannedKeys old)
    { req with continuationToken := page.nextContinuationToken } _ token
  refine ⟨by simp [token], _, next, .inr ⟨_, rfl⟩, ?_, ?_⟩
  · rw [behind]
    exact rest
  · rw [behind]
    exact fun key member => (List.mem_filter.mp member).1

-- Induction on the patience: the keys that a request selects are a remainder of the whole
-- listing, and behind the page's token there is a smaller remainder.
theorem listAll_run (holds : Holds crates storage s store) (valid : validateBucketName bucket = .ok ())
    (present : store.buckets.lookup bucket = some old) (patience : Nat) {req : ListV2Req}
    {keys : List Str} (selected : selectKeys (Store.scannedKeys old) req = .ok keys)
    (remaining : Remaining (matching (Store.scannedKeys old) req.pfx) keys) {t : FS}
    {pages : List ListV2Res}
    (run : Runs faultFree (listAll crates storage bucket patience req) s (.ok (some pages)) t) :
    t = s ∧ Paged s.nameMax old (effectiveMaxKeys req) (pageEntries req keys) pages := by
  have sorted := remaining_sorted remaining
    (matching_sorted (scanned_nodup (holds.sound.buckets bucket old present)) req.pfx)
  induction patience generalizing req keys pages with
  | zero => cases run
  | succ patience ih =>
      unfold listAll at run
      rcases runs_bind run with ⟨page, middle, first, second⟩ | ⟨error, failed, _⟩
      · have answer := list_refines holds bucket req (fun outcome after =>
          outcome = store.listObjectsV2 storage s.nameMax bucket req ∧ after = s) ⟨rfl, rfl⟩
        obtain ⟨answered, rfl⟩ := wp_runs answer first
        obtain ⟨shows, truncated, token⟩ := list_page storage valid present selected answered.symm
        by_cases long : effectiveMaxKeys req < (pageEntries req keys).length
        · have more : page.isTruncated = true := by simp [truncated, long]
          rw [if_pos long] at token
          obtain ⟨carried, later, next, still, rest, inside⟩ := next_request sorted remaining long token
          simp only [more, if_true] at second
          rcases runs_bind second with ⟨result, final, loop, last⟩ | ⟨error, failed, _⟩
          · cases result with
            | none => cases last
            | some others =>
                cases last
                obtain ⟨rfl, paged⟩ := ih next still loop (remaining_sorted still
                  (matching_sorted (scanned_nodup (holds.sound.buckets bucket old present)) req.pfx))
                refine ⟨rfl, .more long shows more carried ?_⟩
                rw [← rest]
                exact paged
          · cases failed
        · have final : page.isTruncated = false := by simp [truncated, long]
          simp only [final, Bool.false_eq_true, if_false] at second
          cases second
          have short := not_lt.mp long
          rw [List.take_of_length_le short] at shows
          exact ⟨rfl, .last short shows final⟩
      · cases failed

theorem wp_listAll (holds : Holds crates storage s store) (valid : validateBucketName bucket = .ok ())
    (present : store.buckets.lookup bucket = some old) (patience : Nat) (req : ListV2Req)
    (keys : List Str) (selected : selectKeys (Store.scannedKeys old) req = .ok keys)
    (remaining : Remaining (matching (Store.scannedKeys old) req.pfx) keys)
    (readable : ∀ key ∈ keys, ∃ objectMeta, old.recordOf s.nameMax key = some objectMeta)
    (enough : (pageEntries req keys).length < patience) :
    wp faultFree (listAll crates storage bucket patience req)
      (fun outcome _ => ∃ pages, outcome = .ok (some pages)) s := by
  have distinct := scanned_nodup (holds.sound.buckets bucket old present)
  induction patience generalizing req keys with
  | zero => exact absurd enough (Nat.not_lt_zero _)
  | succ patience ih =>
      have sorted := remaining_sorted remaining (matching_sorted distinct req.pfx)
      obtain ⟨page, answered⟩ := list_page_found storage valid present selected readable
      obtain ⟨_, truncated, token⟩ := list_page storage valid present selected answered
      unfold listAll
      rw [wp_bind]
      apply list_refines holds
      rw [answered]
      by_cases long : effectiveMaxKeys req < (pageEntries req keys).length
      · have more : page.isTruncated = true := by simp [truncated, long]
        rw [if_pos long] at token
        obtain ⟨_, later, next, still, rest, inside⟩ := next_request sorted remaining long token
        simp only [more, if_true]
        rw [wp_bind]
        have shorter : (pageEntries req later).length < patience := by
          have full := max_keys_pos req
          rw [rest, List.length_drop]
          omega
        apply wp_mono (ih _ later next still (fun key member => readable key (inside key member)) shorter)
        rintro outcome after ⟨pages, rfl⟩
        exact ⟨page :: pages, rfl⟩
      · have final : page.isTruncated = false := by simp [truncated, long]
        simp only [final, Bool.false_eq_true, if_false]
        exact ⟨[page], rfl⟩

theorem wp_listAll_refused (holds : Holds crates storage s store) (patience : Nat) (req : ListV2Req)
    {e : StorageError} (refused : store.listObjectsV2 storage s.nameMax bucket req = .error e) :
    wp faultFree (listAll crates storage bucket (patience + 1) req)
      (fun outcome after => outcome = .error e ∧ after = s) s := by
  unfold listAll
  rw [wp_bind]
  apply list_refines holds
  rw [refused]
  exact ⟨rfl, rfl⟩

end Loop

/-! ### What the pages together are -/

/-- The pages list exactly the keys that are stored. -/
structure Lists (stored : Str → Prop) (req : ListV2Req) (pages : List ListV2Res) : Prop where
  bounded : ∀ page ∈ pages, Bounded (max 1 (min (req.maxKeys.getD 1000) 1000)) page
  ascending : ((pages.flatMap ListV2Res.objects).map fun objectMeta => utf8 objectMeta.key).Pairwise
    (· < ·)
  objects : ∀ key, key ∈ (pages.flatMap ListV2Res.objects).map ObjectMeta.key ↔
    stored key ∧ req.Direct key
  prefixes : ∀ label, label ∈ pages.flatMap ListV2Res.commonPrefixes ↔
    ∃ key, stored key ∧ req.Collapses key label
  once : (pages.flatMap ListV2Res.commonPrefixes).Nodup

/-- Each record names the key that it was read for. -/
theorem records_named {nameMax : Option Nat} {bucket : Bucket} {keys : List Str}
    {objects : List ObjectMeta}
    (records : List.Forall₂ (fun key objectMeta => bucket.recordOf nameMax key = some objectMeta)
      keys objects)
    (named : ∀ key ∈ keys, ∀ objectMeta, bucket.recordOf nameMax key = some objectMeta →
      objectMeta.key = key) : objects.map ObjectMeta.key = keys := by
  induction records with
  | nil => rfl
  | @cons key objectMeta keys objects record _ ih =>
      have first := named key List.mem_cons_self objectMeta record
      rw [List.map_cons, first, ih fun other member => named other (List.mem_cons_of_mem key member)]

theorem complete_named {nameMax : Option Nat} {bucket : Bucket} (complete : bucket.Complete nameMax)
    {key : Str} (stored : bucket.Stores key) {objectMeta : ObjectMeta}
    (record : bucket.recordOf nameMax key = some objectMeta) : objectMeta.key = key := by
  obtain ⟨other, found, named⟩ := complete.records key stored
  rw [record] at found
  obtain rfl := Option.some.inj found
  exact named

theorem paged_lists {nameMax : Option Nat} {name : Str} {bucket : Bucket} {req : ListV2Req}
    {pages : List ListV2Res} (sound : bucket.Sound name) (complete : bucket.Complete nameMax)
    (paged : Paged nameMax bucket (effectiveMaxKeys req)
      (pageEntries req (matching (Store.scannedKeys bucket) req.pfx)) pages) :
    Lists bucket.Stores req pages := by
  have sorted := matching_sorted (scanned_nodup sound) req.pfx
  have member : ∀ key, key ∈ matching (Store.scannedKeys bucket) req.pfx ↔
      bucket.Stores key ∧ req.pfx.getD [] <+: key := by
    intro key
    unfold matching
    rw [List.mem_filter, List.mem_insertionSort, mem_scanned sound, starts_with_iff]
  -- Each record names the key it was read for.
  have direct : (pages.flatMap ListV2Res.objects).map ObjectMeta.key =
      (matching (Store.scannedKeys bucket) req.pfx).filter fun key =>
        (collapsedPrefix (req.pfx.getD []) req.delimiter key).isNone := by
    rw [← singles]
    apply records_named (paged_objects paged)
    intro key inside objectMeta
    unfold pageEntries at inside
    rw [singles] at inside
    exact complete_named complete ((member key).mp (List.mem_filter.mp inside).1).1
  refine ⟨paged_bounded paged, ?_, ?_, ?_, ?_⟩
  · have ascending := sorted.filter fun key =>
      (collapsedPrefix (req.pfx.getD []) req.delimiter key).isNone
    rw [← direct, List.pairwise_map] at ascending
    rw [List.pairwise_map]
    exact ascending.imp fun less => (utf8_lt_iff _ _).mpr less
  · intro key
    rw [direct, List.mem_filter, member, direct_iff, Option.isNone_iff_eq_none, and_assoc]
  · intro label
    rw [(paged_prefixes paged).mem_iff]
    unfold pageEntries
    rw [mem_labels]
    constructor
    · rintro ⟨key, inside, collapsed⟩
      obtain ⟨stored, starts⟩ := (member key).mp inside
      exact ⟨key, stored, (collapses_iff req key label).mpr ⟨starts, collapsed⟩⟩
    · rintro ⟨key, stored, collapses⟩
      obtain ⟨starts, collapsed⟩ := (collapses_iff req key label).mp collapses
      exact ⟨key, (member key).mpr ⟨stored, starts⟩, collapsed⟩
  · rw [(paged_prefixes paged).nodup_iff]
    apply labels_nodup sorted
    intro low inLow middle inMiddle high inHigh label above below first last
    exact collapsed_convex (matching_begins inMiddle) (matching_begins inLow) (matching_begins inHigh)
      above below first last

/-- Where every body has its record, the loop ends and lists what is stored. -/
theorem wp_listComplete {crates : Crates} {storage : FsStorage} {s : FS} {store : Store} {name : Str}
    {bucket : Bucket} (holds : Holds crates storage s store)
    (present : store.buckets.lookup name = some bucket) (complete : bucket.Complete s.nameMax)
    (req : ListV2Req) (start : req.continuationToken = none) (patience : Nat)
    (patient : (Store.scannedKeys bucket).length < patience) :
    wp faultFree (listAll crates storage name patience req) (fun outcome after =>
      after = s ∧ ∃ pages, outcome = .ok (some pages) ∧ Lists bucket.Stores req pages) s := by
  have sound := holds.sound.buckets name bucket present
  have selected := select_first (Store.scannedKeys bucket) req start
  have few := few_entries req (Store.scannedKeys bucket)
  have readable : ∀ key ∈ matching (Store.scannedKeys bucket) req.pfx,
      ∃ objectMeta, bucket.recordOf s.nameMax key = some objectMeta := by
    intro key member
    have scanned := (List.mem_insertionSort _).mp (List.mem_filter.mp member).1
    obtain ⟨objectMeta, record, _⟩ := complete.records key ((mem_scanned sound key).mp scanned)
    exact ⟨objectMeta, record⟩
  have answered := wp_and_runs (wp_listAll holds sound.valid present patience req _ selected (.inl rfl)
    readable (few.trans_lt patient))
  apply wp_mono answered
  rintro outcome final ⟨⟨pages, rfl⟩, run⟩
  obtain ⟨rfl, paged⟩ := listAll_run holds sound.valid present patience selected (.inl rfl) run
  exact ⟨rfl, pages, rfl, paged_lists sound complete paged⟩

/-! ### Storing, then listing -/

structure Put where
  key : Str
  body : Body
  contentType : Option Str

/-- The puts of a client, one after the other, as long as they succeed. -/
def putAll (crates : Crates) (storage : FsStorage) (bucket : Str) : List Put → Op Unit
  | [] => pure ()
  | put :: rest => do
      let _ ← putObject crates storage bucket put.key put.body put.contentType
      putAll crates storage bucket rest

theorem put_run {crates : Crates} {storage : FsStorage} {s t : FS} {store : Store} {bucket : Str}
    {old : Bucket} {put : Put} {objectMeta : ObjectMeta} (holds : Holds crates storage s store)
    (present : store.buckets.lookup bucket = some old) (complete : old.Complete s.nameMax)
    (run : Runs faultFree (putObject crates storage bucket put.key put.body put.contentType) s
      (.ok objectMeta) t) :
    ∃ after new, Holds crates storage t after ∧ after.buckets.lookup bucket = some new ∧
      new.Complete t.nameMax ∧ (∀ key, new.Stores key ↔ key = put.key ∨ old.Stores key) ∧
      new.info = old.info ∧
      ∀ other, other ≠ bucket → after.buckets.lookup other = store.buckets.lookup other := by
  have limited := wp_limited (put_refines holds bucket put.key put.body put.contentType)
  obtain ⟨⟨time, answered, still⟩, limit⟩ := wp_runs limited run
  obtain ⟨found, encoded, sidecars, valid, same, admitted, whole, nonempty, kept, short, made, left⟩ :=
    Store.put_ok crates s.nameMax store answered.symm
  rw [present] at same
  obtain rfl := Option.some.inj same
  rw [left] at still
  refine ⟨_, _, still, Finmap.lookup_insert _, ?_, stores_insert _ _ admitted, rfl, ?_⟩
  · rw [limit]
    exact complete_insert _ _ complete kept admitted short (by rw [made])
  · exact fun other different => Finmap.lookup_insert_of_ne _ different

theorem puts_run {crates : Crates} {storage : FsStorage} {s t : FS} {store : Store} {bucket : Str}
    {old : Bucket} {puts : List Put} (holds : Holds crates storage s store)
    (present : store.buckets.lookup bucket = some old) (complete : old.Complete s.nameMax)
    (run : Runs faultFree (putAll crates storage bucket puts) s (.ok ()) t) :
    ∃ after new, Holds crates storage t after ∧ after.buckets.lookup bucket = some new ∧
      new.Complete t.nameMax ∧ (∀ key, new.Stores key ↔ key ∈ puts.map Put.key ∨ old.Stores key) ∧
      new.info = old.info ∧
      ∀ other, other ≠ bucket → after.buckets.lookup other = store.buckets.lookup other := by
  induction puts generalizing s store old with
  | nil =>
      cases run
      exact ⟨store, old, holds, present, complete, by simp, rfl, fun _ _ => rfl⟩
  | cons put rest ih =>
      rcases runs_bind run with ⟨objectMeta, middle, first, later⟩ | ⟨error, failed, _⟩
      · obtain ⟨next, stored, held, inside, whole, keys, record, aside⟩ :=
          put_run holds present complete first
        obtain ⟨after, new, still, found, all, stores, same, apart⟩ := ih held inside whole later
        refine ⟨after, new, still, found, all, ?_, same.trans record, ?_⟩
        · intro key
          rw [stores, keys, List.map_cons, List.mem_cons]
          tauto
        · exact fun other different => (apart other different).trans (aside other different)
      · cases failed

theorem fresh_complete (nameMax : Option Nat) (info : BucketInfo) :
    Bucket.Complete nameMax (.fresh info) := by
  refine ⟨rfl, ?_⟩
  rintro key ⟨encoded, body, _, stored⟩
  simp [Bucket.fresh] at stored

theorem chunks_whole (chunks : List Bytes) : failure (chunks.map .ok) = none := by
  induction chunks with
  | nil => rfl
  | cons chunk rest ih => exact ih

/-- A put that nothing refuses. -/
structure Put.Admitted (nameMax : Option Nat) (put : Put) : Prop where
  nonempty : put.key ≠ []
  whole : failure put.body = none
  fits : ∃ encoded, encodeKey put.key = .ok encoded ∧
    exceeds nameMax (FsStorage.sidecarName encoded) = false

theorem wp_putAll {crates : Crates} {storage : FsStorage} {s : FS} {store : Store} {bucket : Str}
    {old : Bucket} (holds : Holds crates storage s store)
    (present : store.buckets.lookup bucket = some old) (complete : old.Complete s.nameMax)
    (puts : List Put) (admitted : ∀ put ∈ puts, put.Admitted s.nameMax) :
    wp faultFree (putAll crates storage bucket puts) (fun outcome _ => outcome = .ok ()) s := by
  induction puts generalizing s store old with
  | nil => exact rfl
  | cons put rest ih =>
      obtain ⟨nonempty, whole, encoded, names, short⟩ := admitted put List.mem_cons_self
      obtain ⟨sidecars, kept⟩ := Option.isSome_iff_exists.mp complete.sidecars
      have valid := (holds.sound.buckets bucket old present).valid
      unfold putAll
      rw [wp_bind]
      have limited := wp_limited (put_refines holds bucket put.key put.body put.contentType)
      apply wp_mono limited
      rintro outcome after ⟨⟨time, answered, still⟩, limit⟩
      obtain ⟨objectMeta, shape, made⟩ := Store.put_made crates s.nameMax store put.contentType time
        valid present names whole nonempty kept short
      rw [made] at answered still
      rw [answered]
      apply ih still (Finmap.lookup_insert _)
      · rw [limit]
        exact complete_insert _ _ complete kept names short (by rw [shape])
      · rw [limit]
        exact fun other member => admitted other (List.mem_cons_of_mem put member)

/-- However many objects a fresh bucket was given, the client's loop ends, every request
succeeds, and the pages are exactly the keys that were stored. -/
theorem listing_is_complete {crates : Crates} {storage : FsStorage} {s t : FS} {store : Store}
    {bucket : Str} {info : BucketInfo} (holds : Holds crates storage s store)
    (fresh : store.buckets.lookup bucket = some (.fresh info)) (puts : List Put)
    (stored : Runs faultFree (putAll crates storage bucket puts) s (.ok ()) t) (req : ListV2Req)
    (start : req.continuationToken = none) (patience : Nat) (patient : puts.length < patience) :
    wp faultFree (listAll crates storage bucket patience req) (fun outcome after =>
      after = t ∧ ∃ pages, outcome = .ok (some pages) ∧
        Lists (fun key => key ∈ puts.map Put.key) req pages) t := by
  have complete := fresh_complete s.nameMax info
  obtain ⟨after, bucketNow, held, present, whole, stores, _⟩ := puts_run holds fresh complete stored
  have sound := held.sound.buckets bucket bucketNow present
  have keys : bucketNow.Stores = fun key => key ∈ puts.map Put.key := by
    funext key
    rw [stores]
    simp [Bucket.Stores, Bucket.fresh]
  have among : Store.scannedKeys bucketNow ⊆ puts.map Put.key := by
    intro key member
    have inside := (mem_scanned sound key).mp member
    rwa [keys] at inside
  have few : (Store.scannedKeys bucketNow).length ≤ puts.length :=
    calc (Store.scannedKeys bucketNow).length
        ≤ (puts.map Put.key).length := (List.subperm_of_subset (scanned_nodup sound) among).length_le
      _ = puts.length := List.length_map _
  rw [← keys]
  exact wp_listComplete held present whole req start patience (few.trans_lt patient)

theorem listing_is_complete_photos : ∃ s t,
    Runs faultFree (putAll Crates.reference Reference.storage Reference.bucket
      [⟨"2023/a".toList, [.ok (utf8 "hello".toList)], none⟩, ⟨"b".toList, [], none⟩]) s (.ok ()) t ∧
    wp faultFree (listAll Crates.reference Reference.storage Reference.bucket 3
      ⟨none, some ['/'], none, some 1⟩) (fun outcome after =>
        after = t ∧ ∃ pages, outcome = .ok (some pages) ∧
          Lists (fun key => key ∈ ["2023/a".toList, "b".toList]) ⟨none, some ['/'], none, some 1⟩ pages)
      t := by
  obtain ⟨s, store, info, unlimited, holds, fresh⟩ := Reference.bucket_made none (.inl rfl)
  have complete := fresh_complete s.nameMax info
  have puts := wp_putAll holds fresh complete
    [⟨"2023/a".toList, [.ok (utf8 "hello".toList)], none⟩, ⟨"b".toList, [], none⟩] (by
      rw [unlimited]
      intro put member
      simp only [List.mem_cons, List.not_mem_nil, or_false] at member
      rcases member with rfl | rfl
      · exact ⟨by decide, rfl, "2023%2Fa".toList, by decide, rfl⟩
      · exact ⟨by decide, rfl, "b".toList, by decide, rfl⟩)
  obtain ⟨outcome, t, run, rfl⟩ := wp_returns puts
  exact ⟨s, t, run, listing_is_complete holds fresh _ run _ rfl 3 (by decide)⟩

end Ferrobucket
