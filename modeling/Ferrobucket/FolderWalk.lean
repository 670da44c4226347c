import Ferrobucket.BucketTotals
import Ferrobucket.Lib.Folders
/-! Navigating a bucket folder by folder, as the object browser does: list everything below a
prefix under a delimiter, page by page, then go down each common prefix. The walk meets every
stored key once, in its folder. -/
namespace Ferrobucket
open Text Posix Program Folders

/-! ### Listing one folder -/

section Listers
variable (crates : Crates) (storage : FsStorage) (texts : Texts) (bucket : Str)

/-- All pages below a prefix through `list_objects_v2`. -/
def listLevel (delimiter : Str) (maxKeys : Option Nat) (patience : Nat) :
    Lister Call Reply StorageError Char := fun pfx => do
  let pages ← listAll crates storage bucket patience
    { pfx := some pfx, delimiter := some delimiter, maxKeys := maxKeys }
  pure (pages.map fun all =>
    ((all.flatMap ListV2Res.objects).map ObjectMeta.key, all.flatMap ListV2Res.commonPrefixes))

/-- All pages below a prefix through `list_objects_fn`, by its next tokens. -/
def browseAll (pfx : Str) : Nat → Option Str → ServerFn (Option (List ObjectListing))
  | 0, _ => pure none
  | patience + 1, token => do
      let listing ← listObjectsFn crates storage texts bucket (some pfx) token
      match listing.nextToken with
      | none => pure (some [listing])
      | some next =>
          let later ← browseAll pfx patience (some next)
          pure (later.map fun listings => listing :: listings)

def browseLevel (patience : Nat) : Lister Call Reply Str Char := fun pfx => do
  let listings ← browseAll crates storage texts bucket pfx patience none
  pure (listings.map fun all =>
    ((all.flatMap ObjectListing.objects).map ObjectRow.key, all.flatMap ObjectListing.folders))

/-- Start at the empty prefix and go down every common prefix. -/
def walkFolders (delimiter : Str) (maxKeys : Option Nat) (patience depth : Nat) :
    Op (Option (List (Folder Char))) :=
  walk (listLevel crates storage bucket delimiter maxKeys patience) depth []

def browseFolders (patience depth : Nat) : ServerFn (Option (List (Folder Char))) :=
  walk (browseLevel crates storage texts bucket patience) depth []

end Listers

/-! ### What a walk is to be -/

/-- Every stored key is met as an object once, in its folder, and no folder but the root is
empty. -/
structure Partitions (stored : Str → Prop) (delimiter : Str) (folders : List (Folder Char)) : Prop where
  met : ∀ key, key ∈ folders.flatMap Folder.keys ↔ stored key
  once : (folders.flatMap Folder.keys).Nodup
  placed : ∀ folder ∈ folders, ∀ key ∈ folder.keys, folder.pfx = folderOf delimiter key
  filled : ∀ folder ∈ folders, folder.pfx = [] ∨ folder.keys ≠ [] ∨ folder.labels ≠ []

theorem walked_partitions {stored : Str → Prop} {delimiter : Str} {folders : List (Folder Char)}
    (walked : Walked stored delimiter [] folders) : Partitions stored delimiter folders := by
  constructor
  · intro key
    rw [walked.met]
    exact and_iff_left List.nil_prefix
  · exact walked.once
  · intro folder member key inside
    obtain ⟨rest, rfl, place⟩ := walked.placed folder member key inside
    exact place
  · exact walked.filled

/-- No key is listed twice, because the keys ascend. -/
theorem lists_nodup {stored : Str → Prop} {req : ListV2Req} {pages : List ListV2Res}
    (lists : Lists stored req pages) :
    ((pages.flatMap ListV2Res.objects).map ObjectMeta.key).Nodup := by
  have ascending := lists.ascending
  rw [List.pairwise_map] at ascending
  rw [List.Nodup, List.pairwise_map]
  refine ascending.imp ?_
  intro left right less same
  rw [same] at less
  exact lt_irrefl right.key ((utf8_lt_iff _ _).mp less)

/-- The pages of a listing below a prefix are a level. -/
theorem lists_level {stored : Str → Prop} {pfx delimiter : Str} {maxKeys : Option Nat}
    {pages : List ListV2Res}
    (lists : Lists stored { pfx := some pfx, delimiter := some delimiter, maxKeys := maxKeys } pages) :
    Level stored delimiter pfx ((pages.flatMap ListV2Res.objects).map ObjectMeta.key)
      (pages.flatMap ListV2Res.commonPrefixes) := by
  constructor
  · intro key
    rw [lists.objects]
    simp [ListV2Req.Direct]
  · intro label
    rw [lists.prefixes]
    simp [ListV2Req.Collapses]
  · exact lists_nodup lists
  · exact lists.once

section Walks
variable {crates : Crates} {storage : FsStorage} {s : FS} {store : Store} {name : Str} {bucket : Bucket}

theorem wp_listLevel (holds : Holds crates storage s store)
    (present : store.buckets.lookup name = some bucket) (complete : bucket.Complete s.nameMax)
    (delimiter : Str) (maxKeys : Option Nat) {patience : Nat}
    (patient : (Store.scannedKeys bucket).length < patience) (pfx : Str) :
    wp faultFree (listLevel crates storage name delimiter maxKeys patience pfx) (fun outcome after =>
      after = s ∧ ∃ keys labels, outcome = .ok (some (keys, labels)) ∧
        Level bucket.Stores delimiter pfx keys labels) s := by
  unfold listLevel
  rw [wp_bind]
  apply wp_mono (wp_listComplete holds present complete
    { pfx := some pfx, delimiter := some delimiter, maxKeys := maxKeys } rfl patience patient)
  rintro _ _ ⟨rfl, pages, rfl, lists⟩
  exact ⟨rfl, _, _, rfl, lists_level lists⟩

/-! ### The same through the server function -/

/-- A page and what the server function makes of it. -/
structure Shown (page : ListV2Res) (listing : ObjectListing) : Prop where
  keys : listing.objects.map ObjectRow.key = page.objects.map ObjectMeta.key
  folders : listing.folders = page.commonPrefixes

/-- A page has a token exactly if it is truncated. -/
theorem truncated_token {nameMax : Option Nat} {req : ListV2Req} {page : ListV2Res}
    (answered : store.listObjectsV2 storage nameMax name req = .ok page) :
    page.nextContinuationToken.isSome = page.isTruncated := by
  unfold Store.listObjectsV2 at answered
  split at answered
  · cases answered
  split at answered
  · cases answered
  split at answered
  · cases answered
  next keys _ =>
  obtain ⟨found, _, rfl⟩ := (except_map_ok _ _ _).mp answered
  simp only [cap_page_eq]
  by_cases long : effectiveMaxKeys req < (pageEntries req keys).length
  · have inside : effectiveMaxKeys req - 1 < (pageEntries req keys).length := by omega
    simp [long, List.getElem?_eq_getElem inside]
  · simp [long]

theorem list_decided (holds : Holds crates storage s store) (bucket : Str) (req : ListV2Req)
    {post : Except StorageError ListV2Res → FS → Prop} :
    wp faultFree (listObjectsV2 crates storage bucket req) post s ↔
      post (store.listObjectsV2 storage s.nameMax bucket req) s := by
  have known := list_refines holds bucket req (fun outcome after =>
    outcome = store.listObjectsV2 storage s.nameMax bucket req ∧ after = s) ⟨rfl, rfl⟩
  apply wp_decided known
  rintro _ _ ⟨rfl, rfl⟩
  exact Iff.rfl

/-- The browser sees the pages that the loop over `list_objects_v2` sees. -/
theorem wp_browseAll (texts : Texts) (holds : Holds crates storage s store) (pfx : Str) (patience : Nat)
    (token : Option Str) {good : List ListV2Res → Prop}
    (listed : wp faultFree (listAll crates storage name patience ⟨some pfx, some ['/'], token, none⟩)
      (fun outcome after => after = s ∧ ∃ pages, outcome = .ok (some pages) ∧ good pages) s) :
    wp faultFree (browseAll crates storage texts name pfx patience token) (fun outcome after =>
      after = s ∧ ∃ listings pages, outcome = .ok (some listings) ∧ List.Forall₂ Shown pages listings ∧
        good pages) s := by
  induction patience generalizing token good with
  | zero =>
      obtain ⟨_, pages, failed, _⟩ := listed
      cases failed
  | succ patience ih =>
      unfold listAll at listed
      rw [wp_bind, list_decided holds] at listed
      unfold browseAll listObjectsFn
      rw [wp_bind, wp_bind, wp_told, list_decided holds]
      cases answered : store.listObjectsV2 storage s.nameMax name ⟨some pfx, some ['/'], token, none⟩ with
      | error e =>
          rw [answered] at listed
          obtain ⟨_, pages, failed, _⟩ := listed
          cases failed
      | ok page =>
          have both := truncated_token answered
          have shown : Shown page ⟨page.commonPrefixes, page.objects.map fun o =>
              ⟨o.key, UInt64.ofNat o.size, texts.rfc3339 o.lastModified, false⟩,
              page.nextContinuationToken, pfx⟩ := by
            refine ⟨?_, rfl⟩
            rw [List.map_map]
            rfl
          rw [answered] at listed
          simp only [] at listed
          cases next : page.nextContinuationToken with
          | none =>
              rw [next] at both shown
              have whole : page.isTruncated = false := both.symm
              simp only [whole, Bool.false_eq_true, if_false] at listed
              obtain ⟨_, pages, same, meets⟩ := listed
              obtain rfl := Option.some.inj (Except.ok.inj same)
              simp only [Except.mapError, Prog.pure_eq, wp_done, next]
              exact ⟨trivial, _, _, rfl, .cons shown .nil, meets⟩
          | some resume =>
              rw [next] at both shown
              have cut : page.isTruncated = true := both.symm
              simp only [cut, if_true, next] at listed
              rw [wp_bind] at listed
              have rest : wp faultFree (listAll crates storage name patience
                  ⟨some pfx, some ['/'], some resume, none⟩) (fun outcome after => after = s ∧
                    ∃ pages, outcome = .ok (some pages) ∧ good (page :: pages)) s := by
                apply wp_mono listed
                rintro outcome after answer
                cases outcome with
                | error e =>
                    obtain ⟨_, pages, failed, _⟩ := answer
                    cases failed
                | ok later =>
                    obtain ⟨same, pages, whole, meets⟩ := answer
                    obtain ⟨others, rfl, rfl⟩ := Option.map_eq_some_iff.mp (Except.ok.inj whole)
                    exact ⟨same, others, rfl, meets⟩
              have later := ih (some resume) rest
              simp only [Except.mapError, Prog.pure_eq, wp_done, next]
              rw [wp_bind]
              apply wp_mono later
              rintro _ _ ⟨rfl, listings, pages, rfl, all, meets⟩
              exact ⟨rfl, _, _, rfl, .cons shown all, meets⟩

theorem shown_all {pages : List ListV2Res} {listings : List ObjectListing}
    (all : List.Forall₂ Shown pages listings) :
    (listings.flatMap ObjectListing.objects).map ObjectRow.key =
        (pages.flatMap ListV2Res.objects).map ObjectMeta.key ∧
      listings.flatMap ObjectListing.folders = pages.flatMap ListV2Res.commonPrefixes := by
  induction all with
  | nil => exact ⟨rfl, rfl⟩
  | cons shown _ ih =>
      obtain ⟨keys, folders⟩ := ih
      simp only [List.flatMap_cons, List.map_append, shown.keys, shown.folders, keys, folders]
      exact ⟨trivial, trivial⟩

theorem wp_browseLevel (texts : Texts) (holds : Holds crates storage s store)
    (present : store.buckets.lookup name = some bucket) (complete : bucket.Complete s.nameMax)
    {patience : Nat} (patient : (Store.scannedKeys bucket).length < patience) (pfx : Str) :
    wp faultFree (browseLevel crates storage texts name patience pfx) (fun outcome after =>
      after = s ∧ ∃ keys labels, outcome = .ok (some (keys, labels)) ∧
        Level bucket.Stores ['/'] pfx keys labels) s := by
  have listed := wp_listComplete holds present complete ⟨some pfx, some ['/'], none, none⟩ rfl patience
    patient
  unfold browseLevel
  rw [wp_bind]
  apply wp_mono (wp_browseAll texts holds pfx patience none listed)
  rintro _ _ ⟨rfl, listings, pages, rfl, all, lists⟩
  obtain ⟨keys, folders⟩ := shown_all all
  refine ⟨rfl, _, _, rfl, ?_⟩
  rw [keys, folders]
  exact lists_level lists

/-- A flat listing has the keys of a walk. -/
theorem flat_same {stored : Str → Prop} {delimiter : Str} {folders : List (Folder Char)}
    {maxKeys : Option Nat} {pages : List ListV2Res} (parts : Partitions stored delimiter folders)
    (lists : Lists stored { maxKeys := maxKeys } pages) :
    (folders.flatMap Folder.keys).Perm ((pages.flatMap ListV2Res.objects).map ObjectMeta.key) := by
  rw [List.perm_ext_iff_of_nodup parts.once (lists_nodup lists)]
  intro key
  rw [parts.met, lists.objects]
  simp [ListV2Req.Direct]

/-- The walk ends and partitions the bucket, for every delimiter; the object browser's walk
does the same under the slash. -/
theorem folders_partition (texts : Texts) (holds : Holds crates storage s store)
    (present : store.buckets.lookup name = some bucket) (complete : bucket.Complete s.nameMax)
    {delimiter : Str} (proper : delimiter ≠ []) (maxKeys : Option Nat) {patience depth : Nat}
    (patient : (Store.scannedKeys bucket).length < patience) (positive : 0 < depth)
    (deep : ∀ key, bucket.Stores key → key.length < depth) :
    wp faultFree (walkFolders crates storage name delimiter maxKeys patience depth)
      (fun outcome after => after = s ∧ ∃ folders, outcome = .ok (some folders) ∧
        Partitions bucket.Stores delimiter folders ∧
        wp faultFree (listAll crates storage name patience { maxKeys := maxKeys }) (fun flat after =>
          after = s ∧ ∃ pages, flat = .ok (some pages) ∧ (folders.flatMap Folder.keys).Perm
            ((pages.flatMap ListV2Res.objects).map ObjectMeta.key)) s) s ∧
    wp faultFree (browseFolders crates storage texts name patience depth)
      (fun outcome after => after = s ∧ ∃ folders, outcome = .ok (some folders) ∧
        Partitions bucket.Stores ['/'] folders) s := by
  have bounded : ∀ key, bucket.Stores key → key.length ≤ depth - 1 := by
    intro key stored
    have := deep key stored
    omega
  constructor
  · have walked := wp_walk proper (wp_listLevel holds present complete delimiter maxKeys patient) bounded
      depth [] (by simp only [List.length_nil]; omega) (Nat.zero_le _)
    apply wp_mono walked
    rintro _ _ ⟨rfl, folders, rfl, walked⟩
    have parts := walked_partitions walked
    refine ⟨rfl, folders, rfl, parts, ?_⟩
    apply wp_mono (wp_listComplete holds present complete { maxKeys := maxKeys } rfl patience patient)
    rintro _ _ ⟨rfl, pages, rfl, lists⟩
    exact ⟨rfl, pages, rfl, flat_same parts lists⟩
  · have slash : (['/'] : Str) ≠ [] := List.cons_ne_nil _ _
    have walked := wp_walk slash (wp_browseLevel texts holds present complete patient) bounded depth []
      (by simp only [List.length_nil]; omega) (Nat.zero_le _)
    apply wp_mono walked
    rintro _ _ ⟨rfl, folders, rfl, walked⟩
    exact ⟨rfl, folders, rfl, walked_partitions walked⟩

end Walks

/-! ### Photos in folders -/

/-- Keys with leading and repeated delimiters, and one that is the name of a folder. -/
theorem folders_partition_photos : ∃ s store bucket,
    Holds Crates.reference Reference.storage s store ∧
    store.buckets.lookup Reference.bucket = some bucket ∧
    (∀ key, bucket.Stores key ↔ key ∈ ["/a".toList, "b//c".toList, "b/".toList]) ∧
    wp faultFree (walkFolders Crates.reference Reference.storage Reference.bucket ['/'] (some 1) 4 5)
      (fun outcome after => after = s ∧ ∃ folders, outcome = .ok (some folders) ∧
        Partitions bucket.Stores ['/'] folders) s := by
  have names : ∀ key ∈ ["/a".toList, "b//c".toList, "b/".toList],
      key ≠ [] ∧ (encodeKey key).isOk = true ∧ key.length < 5 := by decide
  have admitted : ∀ key ∈ ["/a".toList, "b//c".toList, "b/".toList],
      key ≠ [] ∧ ∃ encoded, encodeKey key = .ok encoded := by
    intro key member
    obtain ⟨nonempty, accepted, _⟩ := names key member
    cases found : encodeKey key with
    | ok encoded => exact ⟨nonempty, encoded, rfl⟩
    | error e =>
        rw [found] at accepted
        cases accepted
  obtain ⟨s, store, bucket, _, _, holds, present, _, complete, stores, count⟩ :=
    Reference.keys_stored ["/a".toList, "b//c".toList, "b/".toList] (by decide) admitted
  have few : (Store.scannedKeys bucket).length < 4 := by
    rw [scanned_count (holds.sound.buckets _ _ present), count]
    decide
  have walks := folders_partition Reference.texts holds present (complete _ _ present)
    (List.cons_ne_nil '/' []) (some 1) few (by decide : 0 < 5)
    fun key stored => (names key ((stores key).mp stored)).2.2
  refine ⟨s, store, bucket, holds, present, stores, wp_mono walks.1 ?_⟩
  rintro _ _ ⟨same, folders, rfl, parts, _⟩
  exact ⟨same, folders, rfl, parts⟩

end Ferrobucket
