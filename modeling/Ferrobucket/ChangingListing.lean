import Ferrobucket.Requests
/-! A listing while the bucket changes. Between two pages of one client others store and
remove objects, so each page is cut from another set of keys. What carries the listing
over is the order: a page accounts for the keys between its own token and the next. -/
namespace Ferrobucket
open Text Posix Program Grouping

/-- Requests that store and remove objects. -/
def Request.Edits : Request → Prop
  | .putObject _ _ _ _ => True
  | .deleteObject _ _ => True
  | _ => False

section Following
variable (crates : Crates) (storage : FsStorage) (bucket : Str)

/-- A client follows the tokens to a page that is not truncated, while others edit between
its requests. Each page stands with the state that it was read from. -/
inductive Followed : ListV2Req → FS → List (FS × ListV2Res) → Prop
  | last {req : ListV2Req} {s t : FS} {page : ListV2Res}
      (asked : Runs faultFree (listObjectsV2 crates storage bucket req) s (.ok page) t)
      (complete : page.isTruncated = false) : Followed req s [(s, page)]
  | more {req : ListV2Req} {s middle next : FS} {page : ListV2Res}
      {edits : List (Request × Outcome)} {later : List (FS × ListV2Res)}
      (asked : Runs faultFree (listObjectsV2 crates storage bucket req) s (.ok page) middle)
      (truncated : page.isTruncated = true)
      (edited : Served crates storage (fun _ request => request.Edits) middle edits next)
      (rest : Followed { req with continuationToken := page.nextContinuationToken } next later) :
      Followed req s ((s, page) :: later)

/-- A body lies under the key. -/
def StoredIn (s : FS) (key : Str) : Prop :=
  ∃ encoded body, encodeKey key = .ok encoded ∧
    s.look (encoded :: objectsName :: bucket :: storage.dataRoot) = some (.file body)

end Following

/-! ### What edits keep -/

/-- Every sidecar says the key that it is stored under. -/
def Bucket.Named (bucket : Bucket) : Prop :=
  ∀ sidecars key encoded objectMeta, bucket.sidecars = some sidecars → encodeKey key = .ok encoded →
    sidecars.lookup (FsStorage.sidecarName encoded) = some objectMeta → objectMeta.key = key

/-- The bucket is still there, and named if it was. -/
def Store.KeepsNamed (store after : Store) (name : Str) : Prop :=
  ∀ old, store.buckets.lookup name = some old → old.Named →
    ∃ new, after.buckets.lookup name = some new ∧ new.Named

section Names
variable {store : Store} {bucket : Str} {old new : Bucket} {sidecars : Names ObjectMeta}

theorem record_named {nameMax : Option Nat} (named : old.Named) {key : Str} {objectMeta : ObjectMeta}
    (record : old.recordOf nameMax key = some objectMeta) : objectMeta.key = key := by
  unfold Bucket.recordOf at record
  cases admitted : encodeKey key with
  | error e => simp [admitted, Except.toOption] at record
  | ok encoded =>
      cases kept : old.sidecars with
      | none => simp [kept, admitted, Except.toOption] at record
      | some sidecars =>
          simp only [kept, admitted, Except.toOption, Option.bind_some] at record
          split_ifs at record
          exact named sidecars key encoded objectMeta kept admitted record

theorem named_fresh (info : BucketInfo) : Bucket.Named (.fresh info) := by
  intro sidecars key encoded objectMeta kept _ found
  cases kept
  cases found

theorem named_insert (named : old.Named) (kept : old.sidecars = some sidecars) {key encoded : Str}
    (admitted : encodeKey key = .ok encoded) {objectMeta : ObjectMeta} (own : objectMeta.key = key)
    (renewed : new.sidecars = some (sidecars.insert (FsStorage.sidecarName encoded) objectMeta)) :
    new.Named := by
  intro present other otherEncoded record same otherAdmitted found
  rw [renewed] at same
  obtain rfl := Option.some.inj same
  by_cases here : FsStorage.sidecarName otherEncoded = FsStorage.sidecarName encoded
  · rw [here, Finmap.lookup_insert] at found
    obtain rfl := Option.some.inj found
    obtain rfl := sidecar_injective here
    rw [own]
    exact encode_key_injective admitted otherAdmitted
  · rw [Finmap.lookup_insert_of_ne _ here] at found
    exact named sidecars other otherEncoded record kept otherAdmitted found

theorem named_erase (named : old.Named) (kept : old.sidecars = some sidecars) {name : Str}
    (renewed : new.sidecars = some (sidecars.erase name)) : new.Named := by
  intro present other otherEncoded record same otherAdmitted found
  rw [renewed] at same
  obtain rfl := Option.some.inj same
  by_cases here : FsStorage.sidecarName otherEncoded = name
  · rw [here, Finmap.lookup_erase] at found
    cases found
  · rw [Finmap.lookup_erase_ne here] at found
    exact named sidecars other otherEncoded record kept otherAdmitted found

theorem named_same (named : old.Named) (same : new.sidecars = old.sidecars) : new.Named := by
  intro sidecars key encoded objectMeta kept
  rw [same] at kept
  exact named sidecars key encoded objectMeta kept

theorem keeps_refl (name : Str) : store.KeepsNamed store name :=
  fun old present named => ⟨old, present, named⟩

theorem keeps_set (present : store.buckets.lookup bucket = some old) (changed : old.Named → new.Named)
    (name : Str) : store.KeepsNamed (store.setBucket bucket new) name := by
  intro found there named
  by_cases same : name = bucket
  · subst same
    rw [present] at there
    obtain rfl := Option.some.inj there
    exact ⟨new, Finmap.lookup_insert _, changed named⟩
  · exact ⟨found, (Finmap.lookup_insert_of_ne _ same).trans there, named⟩

theorem put_keeps (crates : Crates) (nameMax : Option Nat) (key : Str) (body : Body)
    (contentType : Option Str) (time : Nat) (name : Str) :
    store.KeepsNamed (store.putObject crates nameMax bucket key body contentType time).2 name := by
  unfold Store.putObject
  cases validateBucketName bucket with
  | error e => exact keeps_refl name
  | ok _ =>
  cases present : store.buckets.lookup bucket with
  | none => exact keeps_refl name
  | some old =>
  cases admitted : encodeKey key with
  | error e => exact keeps_refl name
  | ok encoded =>
  cases failure body with
  | some e => exact keeps_refl name
  | none =>
  simp only []
  split
  · exact keeps_refl name
  · cases kept : old.sidecars with
    | none => exact keeps_set present (fun named => named_same named kept.symm) name
    | some sidecars =>
        simp only []
        split
        · exact keeps_set present (fun named => named_same named kept.symm) name
        · exact keeps_set present (fun named => named_insert named kept admitted rfl rfl) name

theorem delete_keeps (nameMax : Option Nat) (key name : Str) :
    store.KeepsNamed (store.deleteObject nameMax bucket key).2 name := by
  unfold Store.deleteObject
  cases validateBucketName bucket with
  | error e => exact keeps_refl name
  | ok _ =>
  cases encodeKey key with
  | error e => exact keeps_refl name
  | ok encoded =>
  cases present : store.buckets.lookup bucket with
  | none => exact keeps_refl name
  | some old =>
  simp only []
  split
  · exact keeps_refl name
  · cases old.objects.lookup encoded with
    | none => exact keeps_refl name
    | some content =>
        cases kept : old.sidecars with
        | none => exact keeps_set present (fun named => named_same named kept.symm) name
        | some sidecars =>
            simp only []
            split
            · exact keeps_set present (fun named => named_same named kept.symm) name
            · exact keeps_set present (fun named => named_erase named kept rfl) name

/-- Whatever the edits do, the bucket stays and its sidecars say their keys. -/
theorem edits_keep {crates : Crates} {storage : FsStorage} {s t : FS}
    {edits : List (Request × Outcome)} (holds : Holds crates storage s store)
    (present : store.buckets.lookup bucket = some old) (named : old.Named)
    (edited : Served crates storage (fun _ request => request.Edits) s edits t) :
    ∃ after new, Holds crates storage t after ∧ after.buckets.lookup bucket = some new ∧ new.Named := by
  induction edited generalizing store old with
  | nil s => exact ⟨store, old, holds, present, named⟩
  | @cons s middle t request outcome later permitted run _ ih =>
      cases request with
      | putObject name key body contentType =>
          obtain ⟨answered, _, time, _, still⟩ :=
            runs_answered run (put_refines holds name key body contentType)
          obtain ⟨new, there, same⟩ :=
            put_keeps crates s.nameMax key body contentType time bucket old present named
          exact ih still there same
      | deleteObject name key =>
          obtain ⟨answered, _, _, still⟩ := runs_answered run (delete_refines holds name key)
          obtain ⟨new, there, same⟩ := delete_keeps s.nameMax key bucket old present named
          exact ih still there same
      | _ => cases permitted

end Names
/-! ### One page -/

/-- What one page accounts for: the stored keys of the prefix behind `after` and, where there
is a `next`, up to it. -/
structure PageSpan (stored : Str → Prop) (req : ListV2Req) (after next : Option Str) (page : ListV2Res) :
    Prop where
  ascending : (page.objects.map ObjectMeta.key).Pairwise (· < ·)
  within : ∀ key ∈ page.objects.map ObjectMeta.key, after.all (· < key) = true ∧ next.all (key ≤ ·) = true
  direct : ∀ key, stored key → after.all (· < key) = true → next.all (key ≤ ·) = true → req.Direct key →
    key ∈ page.objects.map ObjectMeta.key
  collapsed : ∀ key label, stored key → after.all (· < key) = true → next.all (key ≤ ·) = true →
    req.Collapses key label → label ∈ page.commonPrefixes

section Pages
variable {crates : Crates} {storage : FsStorage} {s t : FS} {store : Store} {bucket : Str} {old : Bucket}

theorem select_after (keys : List Str) {req : ListV2Req} {after : Option Str}
    (token : req.continuationToken = after.map encodeContinuationToken) :
    selectKeys keys req = .ok ((matching keys req.pfx).filter fun key => after.all (· < key)) := by
  cases after with
  | none =>
      rw [select_first keys req token]
      simp
  | some key => exact select_resumed keys req key token

/-- A page that shows the entries up to `next` accounts for the keys up to there. -/
theorem span_shown {stored : Str → Prop} {req : ListV2Req} {after next : Option Str} {keys : List Str}
    {shown : List (Entry Str Str)} {page : ListV2Res} (sorted : keys.Pairwise (· < ·))
    (member : ∀ key, key ∈ keys ↔
      (stored key ∧ req.pfx.getD [] <+: key) ∧ after.all (· < key) = true)
    (part : shown.Sublist (pageEntries req keys))
    (objects : page.objects.map ObjectMeta.key = shown.filterMap Entry.alone)
    (prefixes : page.commonPrefixes.Perm (shown.filterMap Entry.label))
    (bounded : ∀ key ∈ shown.filterMap Entry.alone, next.all (key ≤ ·) = true)
    (covered : ∀ key ∈ keys, next.all (key ≤ ·) = true →
      (collapsedPrefix (req.pfx.getD []) req.delimiter key = none →
        key ∈ shown.filterMap Entry.alone) ∧
      ∀ label, collapsedPrefix (req.pfx.getD []) req.delimiter key = some label →
        label ∈ shown.filterMap Entry.label) : PageSpan stored req after next page := by
  have among : (shown.filterMap Entry.alone).Sublist keys := by
    have inside := part.filterMap Entry.alone
    unfold pageEntries at inside
    rw [singles] at inside
    exact inside.trans List.filter_sublist
  constructor
  · rw [objects]
    exact sorted.sublist among
  · intro key inside
    rw [objects] at inside
    exact ⟨((member key).mp (among.subset inside)).2, bounded key inside⟩
  · intro key stored behind before direct
    obtain ⟨starts, alone⟩ := (direct_iff req key).mp direct
    rw [objects]
    exact (covered key ((member key).mpr ⟨⟨stored, starts⟩, behind⟩) before).1 alone
  · intro key label stored behind before collapses
    obtain ⟨starts, collapsed⟩ := (collapses_iff req key label).mp collapses
    rw [prefixes.mem_iff]
    exact (covered key ((member key).mpr ⟨⟨stored, starts⟩, behind⟩) before).2 label collapsed

/-- A page that is cut off the selected keys accounts for a stretch of them, and if it is
truncated it carries the token behind which the next stretch begins. -/
theorem cut_spans {stored : Str → Prop} {req : ListV2Req} {after : Option Str} {keys : List Str}
    {page : ListV2Res} (sorted : keys.Pairwise (· < ·))
    (member : ∀ key, key ∈ keys ↔
      (stored key ∧ req.pfx.getD [] <+: key) ∧ after.all (· < key) = true)
    (objects : page.objects.map ObjectMeta.key =
      ((pageEntries req keys).take (effectiveMaxKeys req)).filterMap Entry.alone)
    (prefixes : page.commonPrefixes.Perm
      (((pageEntries req keys).take (effectiveMaxKeys req)).filterMap Entry.label))
    (truncated : page.isTruncated = decide (effectiveMaxKeys req < (pageEntries req keys).length))
    (carried : page.nextContinuationToken =
      if effectiveMaxKeys req < (pageEntries req keys).length then
        ((pageEntries req keys)[effectiveMaxKeys req - 1]?).map fun entry =>
          encodeContinuationToken entry.last
      else none) :
    ∃ next, PageSpan stored req after next page ∧
      (page.isTruncated = true → ∃ last, next = some last ∧ after.all (· < last) = true) ∧
      (page.isTruncated = false → next = none) ∧
      page.nextContinuationToken = next.map encodeContinuationToken := by
  by_cases long : effectiveMaxKeys req < (pageEntries req keys).length
  · have position : effectiveMaxKeys req - 1 < (pageEntries req keys).length := by omega
    have found := List.getElem?_eq_getElem position
    have whole : effectiveMaxKeys req - 1 + 1 = effectiveMaxKeys req :=
      Nat.sub_add_cancel (max_keys_pos req)
    rw [if_pos long, found] at carried
    have advances := ((member _).mp (last_mem (List.getElem_mem position))).2
    refine ⟨some (pageEntries req keys)[effectiveMaxKeys req - 1].last, ?_,
      fun _ => ⟨_, rfl, advances⟩, ?_, carried⟩
    · refine span_shown sorted member (List.take_sublist _ _) objects prefixes ?_ ?_
      · intro key alone
        rw [← whole] at alone
        simpa using alone_up_to sorted found alone
      · intro key inside before
        rw [← whole]
        exact covered_up_to sorted found inside (by simpa using before)
    · intro final
      simp [truncated, long] at final
  · have short := not_lt.mp long
    rw [if_neg long] at carried
    rw [List.take_of_length_le short] at objects prefixes
    refine ⟨none, ?_, ?_, fun _ => rfl, carried⟩
    · refine span_shown sorted member (List.Sublist.refl _) objects prefixes (fun _ _ => rfl) ?_
      intro key inside _
      constructor
      · intro alone
        unfold pageEntries
        rw [singles]
        exact List.mem_filter.mpr ⟨inside, by simp [alone]⟩
      · intro label collapsed
        exact mem_labels.mpr ⟨key, inside, collapsed⟩
    · intro more
      simp [truncated, long] at more

/-- What is selected from the scanned keys. -/
theorem mem_selected {stored : Str → Prop} {scanned : List Str} (same : ∀ key, key ∈ scanned ↔ stored key)
    (req : ListV2Req) (after : Option Str) (key : Str) :
    key ∈ (matching scanned req.pfx).filter (fun key => after.all (· < key)) ↔
      (stored key ∧ req.pfx.getD [] <+: key) ∧ after.all (· < key) = true := by
  unfold matching
  rw [List.mem_filter, List.mem_filter, List.mem_insertionSort, same, starts_with_iff]

/-- Each page accounts for a stretch of the keys that begins behind its token, and a truncated
page carries the token behind which the next stretch begins. -/
theorem page_spans (holds : Holds crates storage s store) (present : store.buckets.lookup bucket = some old)
    (named : old.Named) {req : ListV2Req} {after : Option Str}
    (token : req.continuationToken = after.map encodeContinuationToken) {page : ListV2Res}
    (asked : Runs faultFree (listObjectsV2 crates storage bucket req) s (.ok page) t) :
    t = s ∧ ∃ next, PageSpan old.Stores req after next page ∧
      (page.isTruncated = true → ∃ last, next = some last ∧ after.all (· < last) = true) ∧
      (page.isTruncated = false → next = none) ∧
      page.nextContinuationToken = next.map encodeContinuationToken := by
  have sound := holds.sound.buckets bucket old present
  have answer := list_refines holds bucket req (fun outcome after =>
    outcome = store.listObjectsV2 storage s.nameMax bucket req ∧ after = s) ⟨rfl, rfl⟩
  obtain ⟨answered, rfl⟩ := wp_runs answer asked
  have selected := select_after (Store.scannedKeys old) token
  have sorted := (matching_sorted (scanned_nodup sound) req.pfx).filter
    fun key => after.all (· < key)
  obtain ⟨shows, truncated, carried⟩ := list_page storage sound.valid present selected answered.symm
  have objects := records_named shows.objects fun key _ objectMeta => record_named named
  exact ⟨rfl, cut_spans sorted (mem_selected (mem_scanned sound) req after) objects shows.prefixes truncated
    carried⟩

theorem stored_in_iff (holds : Holds crates storage s store)
    (present : store.buckets.lookup bucket = some old) (key : Str) :
    StoredIn storage bucket s key ↔ old.Stores key := by
  have valid := (holds.sound.buckets bucket old present).valid
  unfold StoredIn Bucket.Stores
  simp [look_object holds valid present]

end Pages

/-! ### All pages -/

/-- What the pages of a listing show, whatever was edited between them: no key twice, every key
that was there for each page on exactly one of them or under a common prefix. -/
structure Steady (storage : FsStorage) (bucket : Str) (req : ListV2Req)
    (pages : List (FS × ListV2Res)) : Prop where
  once : (pages.flatMap fun page => page.2.objects.map ObjectMeta.key).Nodup
  objects : ∀ key, (∀ page ∈ pages, StoredIn storage bucket page.1 key) → req.Direct key →
    (pages.filter fun page => key ∈ page.2.objects.map ObjectMeta.key).length = 1
  prefixes : ∀ key label, (∀ page ∈ pages, StoredIn storage bucket page.1 key) →
    req.Collapses key label → ∃ page ∈ pages, label ∈ page.2.commonPrefixes

/-- In lists that have nothing twice between them, what is in some list is in one. -/
theorem in_one {Page : Type} (keysOf : Page → List Str) {pages : List Page} {key : Str}
    (once : (pages.flatMap keysOf).Nodup) (member : key ∈ pages.flatMap keysOf) :
    (pages.filter fun page => key ∈ keysOf page).length = 1 := by
  induction pages with
  | nil => cases member
  | cons page rest ih =>
      rw [List.flatMap_cons] at once member
      obtain ⟨_, later, apart⟩ := List.nodup_append.mp once
      by_cases here : key ∈ keysOf page
      · have none : (rest.filter fun page => key ∈ keysOf page) = [] := by
          rw [List.filter_eq_nil_iff]
          intro other listed inside
          exact apart key here key (List.mem_flatMap.mpr ⟨other, listed, by simpa using inside⟩) rfl
        simp [here, none]
      · have inside := (List.mem_append.mp member).resolve_left here
        simpa [here] using ih later inside

/-- The keys of the pages ascend, and what stays stored is accounted for by one of them. -/
theorem followed_spans {crates : Crates} {storage : FsStorage} {s : FS} {store : Store} {bucket : Str}
    {old : Bucket} (holds : Holds crates storage s store)
    (present : store.buckets.lookup bucket = some old) (named : old.Named) {req : ListV2Req}
    {after : Option Str} (token : req.continuationToken = after.map encodeContinuationToken)
    {pages : List (FS × ListV2Res)} (followed : Followed crates storage bucket req s pages) :
    (pages.flatMap fun page => page.2.objects.map ObjectMeta.key).Pairwise (· < ·) ∧
      (∀ key ∈ pages.flatMap fun page => page.2.objects.map ObjectMeta.key,
        after.all (· < key) = true) ∧
      ∀ key, (∀ page ∈ pages, StoredIn storage bucket page.1 key) → after.all (· < key) = true →
        (req.Direct key → key ∈ pages.flatMap fun page => page.2.objects.map ObjectMeta.key) ∧
        ∀ label, req.Collapses key label → ∃ page ∈ pages, label ∈ page.2.commonPrefixes := by
  induction followed generalizing store old after with
  | last asked complete =>
      obtain ⟨_, next, span, _, final, _⟩ := page_spans holds present named token asked
      obtain rfl := final complete
      simp only [List.flatMap_cons, List.flatMap_nil, List.append_nil]
      refine ⟨span.ascending, fun key inside => (span.within key inside).1, ?_⟩
      intro key stored behind
      have here := (stored_in_iff holds present key).mp (stored _ List.mem_cons_self)
      exact ⟨span.direct key here behind rfl,
        fun label collapses => ⟨_, List.mem_cons_self, span.collapsed key label here behind rfl collapses⟩⟩
  | @more req s middle next page edits later asked truncated edited _ ih =>
      obtain ⟨rfl, bound, span, more, _, carried⟩ := page_spans holds present named token asked
      obtain ⟨last, rfl, advances⟩ := more truncated
      obtain ⟨nextStore, new, still, there, same⟩ := edits_keep holds present named edited
      obtain ⟨ascending, beyond, covered⟩ := ih still there same carried
      have above : ∀ key ∈ later.flatMap fun page => page.2.objects.map ObjectMeta.key, last < key :=
        fun key inside => by simpa using beyond key inside
      have below : ∀ key ∈ page.objects.map ObjectMeta.key, key ≤ last :=
        fun key inside => by simpa using (span.within key inside).2
      rw [List.flatMap_cons]
      refine ⟨?_, ?_, ?_⟩
      · rw [List.pairwise_append]
        exact ⟨span.ascending, ascending,
          fun low inLow high inHigh => (below low inLow).trans_lt (above high inHigh)⟩
      · intro key inside
        rcases List.mem_append.mp inside with first | rest
        · exact (span.within key first).1
        · -- A later key is behind the token that the page carried, which is behind this one's.
          cases after with
          | none => rfl
          | some bound =>
              have step : bound < last := by simpa using advances
              simpa using step.trans (above key rest)
      · intro key stored behind
        have here := (stored_in_iff holds present key).mp (stored _ List.mem_cons_self)
        by_cases before : key ≤ last
        · have inside : (some last).all (key ≤ ·) = true := by simpa using before
          exact ⟨fun direct => List.mem_append_left _ (span.direct key here behind inside direct),
            fun label collapses => ⟨_, List.mem_cons_self, span.collapsed key label here behind inside collapses⟩⟩
        · have rest := covered key (fun other member => stored other (List.mem_cons_of_mem _ member))
            (by simpa using before)
          refine ⟨fun direct => List.mem_append_right _ (rest.1 direct), fun label collapses => ?_⟩
          obtain ⟨other, member, shown⟩ := rest.2 label collapses
          exact ⟨other, List.mem_cons_of_mem _ member, shown⟩

/-- Whatever is stored and removed between the pages of a listing, no key is returned twice and
none that stays is passed over. -/
theorem changing_listing_steady {crates : Crates} {storage : FsStorage} {s t : FS} {store : Store}
    {bucket : Str} {info : BucketInfo} (holds : Holds crates storage s store)
    (fresh : store.buckets.lookup bucket = some (.fresh info)) {past : List (Request × Outcome)}
    (edited : Served crates storage (fun _ request => request.Edits) s past t) {req : ListV2Req}
    (start : req.continuationToken = none) {pages : List (FS × ListV2Res)}
    (followed : Followed crates storage bucket req t pages) : Steady storage bucket req pages := by
  obtain ⟨after, old, still, present, named⟩ := edits_keep holds fresh (named_fresh info) edited
  have none : req.continuationToken = (none : Option Str).map encodeContinuationToken := start
  obtain ⟨ascending, _, covered⟩ := followed_spans still present named none followed
  have once := ascending.imp ne_of_lt
  constructor
  · exact once
  · intro key stored direct
    exact in_one (fun page : FS × ListV2Res => page.2.objects.map ObjectMeta.key) once
      ((covered key stored rfl).1 direct)
  · intro key label stored collapses
    exact (covered key stored rfl).2 label collapses

/-! ### A listing of two photos -/

section Photos
variable {crates : Crates} {storage : FsStorage} {s : FS} {store : Store} {bucket : Str} {old : Bucket}

/-- A put that nothing refuses, as an edit. -/
theorem put_edits (holds : Holds crates storage s store) (present : store.buckets.lookup bucket = some old)
    (complete : old.Complete s.nameMax) (put : Put) (admitted : put.Admitted s.nameMax) :
    ∃ t outcome after new,
      (∀ edits u, Served crates storage (fun _ request => request.Edits) t edits u →
        Served crates storage (fun _ request => request.Edits) s
          ((.putObject bucket put.key put.body put.contentType, outcome) :: edits) u) ∧
      Holds crates storage t after ∧ after.buckets.lookup bucket = some new ∧
      new.Complete t.nameMax ∧ t.nameMax = s.nameMax ∧
      ∀ key, new.Stores key ↔ key = put.key ∨ old.Stores key := by
  obtain ⟨nonempty, whole, encoded, names, short⟩ := admitted
  obtain ⟨sidecars, kept⟩ := Option.isSome_iff_exists.mp complete.sidecars
  have valid := (holds.sound.buckets bucket old present).valid
  have limited := wp_limited (put_refines holds bucket put.key put.body put.contentType)
  obtain ⟨outcome, t, run, ⟨time, rfl, _⟩, limit⟩ := wp_returns limited
  obtain ⟨objectMeta, _, made⟩ := Store.put_made crates s.nameMax store put.contentType time valid
    present names whole nonempty kept short
  rw [made] at run
  obtain ⟨after, new, still, there, same, stores, _⟩ := put_run holds present complete run
  refine ⟨t, .ok (.object objectMeta), after, new, ?_, still, there, same, limit, stores⟩
  exact fun edits u rest => .cons trivial (runs_then run (.done _ _)) rest

/-- A page that is read where every body has its record. -/
theorem page_read (holds : Holds crates storage s store) (present : store.buckets.lookup bucket = some old)
    (complete : old.Complete s.nameMax) {keys : List Str} (distinct : keys.Nodup)
    (stores : ∀ key, old.Stores key ↔ key ∈ keys) {req : ListV2Req} {chosen : List Str}
    (selected : selectKeys keys req = .ok chosen) (among : ∀ key ∈ chosen, key ∈ keys) :
    ∃ page, Runs faultFree (listObjectsV2 crates storage bucket req) s (.ok page) s ∧
      page.isTruncated = decide (effectiveMaxKeys req < (pageEntries req chosen).length) ∧
      page.nextContinuationToken =
        if effectiveMaxKeys req < (pageEntries req chosen).length then
          ((pageEntries req chosen)[effectiveMaxKeys req - 1]?).map fun entry =>
            encodeContinuationToken entry.last
        else none := by
  have sound := holds.sound.buckets bucket old present
  have same : (Store.scannedKeys old).Perm keys := by
    rw [List.perm_ext_iff_of_nodup (scanned_nodup sound) distinct]
    exact fun key => (mem_scanned sound key).trans (stores key)
  rw [← select_keys_perm same] at selected
  obtain ⟨page, answered⟩ := list_page_found storage sound.valid present selected
    (fun key inside => by
      obtain ⟨objectMeta, record, _⟩ := complete.records key ((stores key).mpr (among key inside))
      exact ⟨objectMeta, record⟩)
  obtain ⟨_, truncated, carried⟩ := list_page storage sound.valid present selected answered
  have run := wp_returns (list_refines holds bucket req (fun outcome after =>
    outcome = store.listObjectsV2 storage s.nameMax bucket req ∧ after = s) ⟨rfl, rfl⟩)
  obtain ⟨outcome, after, asked, rfl, rfl⟩ := run
  rw [answered] at asked
  exact ⟨page, asked, truncated, carried⟩

end Photos

theorem changing_listing_steady_photos : ∃ s pages,
    Followed Crates.reference Reference.storage Reference.bucket ⟨none, none, none, some 1⟩ s pages ∧
      pages.length = 2 ∧
      Steady Reference.storage Reference.bucket ⟨none, none, none, some 1⟩ pages := by
  obtain ⟨s, store, info, unlimited, holds, fresh⟩ := Reference.bucket_made none (.inl rfl)
  have letter : ∀ {state : FS}, state.nameMax = none → ∀ key : Str, key ∈ ["a".toList, "b".toList] →
      Put.Admitted state.nameMax ⟨key, [], none⟩ := by
    intro state limit key member
    rw [limit]
    simp only [List.mem_cons, List.not_mem_nil, or_false] at member
    rcases member with rfl | rfl
    · exact ⟨by decide, rfl, "a".toList, by decide, rfl⟩
    · exact ⟨by decide, rfl, "b".toList, by decide, rfl⟩
  obtain ⟨s₁, out₁, store₁, old₁, serve₁, holds₁, present₁, complete₁, limit₁, stores₁⟩ :=
    put_edits holds fresh (fresh_complete _ _) ⟨"a".toList, [], none⟩ (letter unlimited _ (by simp))
  obtain ⟨s₂, out₂, store₂, old₂, serve₂, holds₂, present₂, complete₂, limit₂, stores₂⟩ :=
    put_edits holds₁ present₁ complete₁ ⟨"b".toList, [], none⟩
      (letter (limit₁.trans unlimited) _ (by simp))
  obtain ⟨s₃, out₃, store₃, old₃, serve₃, holds₃, present₃, complete₃, limit₃, stores₃⟩ :=
    put_edits holds₂ present₂ complete₂ ⟨"a".toList, [], none⟩
      (letter (limit₂.trans (limit₁.trans unlimited)) _ (by simp))
  have none₀ : ∀ key, ¬ (Bucket.fresh info).Stores key := by
    rintro key ⟨encoded, body, _, stored⟩
    simp [Bucket.fresh] at stored
  have both₂ : ∀ key, old₂.Stores key ↔ key ∈ ["a".toList, "b".toList] := by
    simp [stores₂, stores₁, none₀, or_comm]
  have both₃ : ∀ key, old₃.Stores key ↔ key ∈ ["a".toList, "b".toList] := by
    simp [stores₃, both₂]
  have all : selectKeys ["a".toList, "b".toList] ⟨none, none, none, some 1⟩ =
      .ok ["a".toList, "b".toList] := by decide
  obtain ⟨first, asked₁, truncated₁, carried₁⟩ :=
    page_read holds₂ present₂ complete₂ (by decide) both₂ all (by simp)
  have behind : selectKeys ["a".toList, "b".toList] ⟨none, none, first.nextContinuationToken, some 1⟩ =
      .ok ["b".toList] := by
    rw [carried₁]
    decide
  obtain ⟨second, asked₂, truncated₂, _⟩ :=
    page_read holds₃ present₃ complete₃ (by decide) both₃ behind (by simp)
  have past := serve₁ _ _ (serve₂ _ _ (.nil s₂))
  have followed : Followed Crates.reference Reference.storage Reference.bucket
      ⟨none, none, none, some 1⟩ s₂ [(s₂, first), (s₃, second)] :=
    .more asked₁ truncated₁ (serve₃ _ _ (.nil s₃)) (.last asked₂ truncated₂)
  exact ⟨s₂, _, followed, rfl, changing_listing_steady holds fresh past rfl followed⟩

end Ferrobucket
