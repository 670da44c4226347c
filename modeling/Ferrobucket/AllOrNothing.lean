import Ferrobucket.HalfWritten
import Ferrobucket.LastWriters
import Ferrobucket.Readers
import Ferrobucket.StrayFiles
/-! A key that gets a new version, by a put or by completing an upload, and a call that stops
on the way there: a crash, or calls that fail. The body and the record are put in place by two
renames, so there are three kinds of points: before the temporary file and after the record
all is well, between them a reader of the bucket sees the work in progress. -/
namespace Ferrobucket
open Text Posix Program

/-! ### New versions -/

/-- Two ways to give a key a new version. -/
inductive Replacement where
  | put (body : Body) (contentType : Option Str)
  | complete (uploadId : Str) (parts : List Int)

namespace Replacement

def program (crates : Crates) (storage : FsStorage) (bucket key : Str) : Replacement → Op ObjectMeta
  | .put body contentType => putObject crates storage bucket key body contentType
  | .complete uploadId parts => completeMultipartUpload crates storage bucket key uploadId parts

/-- The upload that is completed is there and was created for this key. -/
def Aims (store : Store) (bucket key : Str) : Replacement → Prop
  | .put _ _ => True
  | .complete uploadId _ => ∃ upload, store.staged.lookup uploadId = some upload ∧
      upload.record.bucket = bucket ∧ upload.record.key = key

/-- The body of the new version. -/
def content (store : Store) : Replacement → Option Bytes
  | .put body _ => some (delivered body)
  | .complete uploadId parts => (store.staged.lookup uploadId).bind fun upload =>
      Store.assembled upload (parts.insertionSort (· ≤ ·))

/-- The record of the new version. -/
def record (crates : Crates) (store : Store) (key : Str) (body : Bytes) (time : Nat) :
    Replacement → ObjectMeta
  | .put _ contentType =>
      ⟨key, body.length, contentType.getD defaultContentType, hexMd5 crates body, time⟩
  | .complete uploadId parts =>
      ⟨key, body.length,
        ((store.staged.lookup uploadId).bind fun upload => upload.record.contentType).getD defaultContentType,
        hexMd5 crates body ++ '-' :: (toString parts.length).toList, time⟩

/-- What a reader may see of the new version: its body, and its record with some time. -/
def Writes (crates : Crates) (store : Store) (key : Str) (replacement : Replacement)
    (version : ObjectMeta × Bytes) : Prop :=
  replacement.content store = some version.2 ∧
    ∃ time, version.1 = replacement.record crates store key version.2 time

/-- The new version has the body of the old one, or the record of the old one would do for it. -/
def Repeats (crates : Crates) (store : Store) (key : Str) (replacement : Replacement)
    (old : Option (ObjectMeta × Bytes)) : Prop :=
  ∃ version body, old = some version ∧ replacement.content store = some body ∧
    (version.2 = body ∨ ∃ time, version.1 = replacement.record crates store key body time)

end Replacement

/-- Readers find the old version or the new one, whole; and the bucket is listed, with every
other key in it. -/
structure AllOrNothing (crates : Crates) (storage : FsStorage) (bucket key : Str)
    (old : Option (ObjectMeta × Bytes)) (new : ObjectMeta × Bytes → Prop) (others : Str → Prop) (t : FS) :
    Prop where
  version : ∃ seen, (seen = old ∨ ∃ version, new version ∧ seen = some version) ∧
    Reads crates storage t bucket key seen
  listing : ∀ req : ListV2Req, req.continuationToken = none → ∃ patience keys,
    (∀ other, other ≠ key → (keys other ↔ others other)) ∧
      wp faultFree (listAll crates storage bucket patience req) (fun outcome after => after = t ∧
        ∃ pages, outcome = .ok (some pages) ∧ Lists keys req pages) t

/-- No temporary file is among the bodies; and a new body is there with its record, or nobody
can tell that it is new. -/
def Headway.Whole (repeats : Prop) (progress : Headway) : Prop :=
  progress.leftover = [] ∧ (progress.body = true → progress.record = true ∨ repeats)

/-! ### The stages of a replacement -/

section Stages
variable (crates : Crates) (storage : FsStorage) (s : FS) (store : Store) (bucket key encoded : Str)
  (replacement : Replacement)

/-- The tree when the body is in place. -/
def withBody (body : Bytes) : Path → Option FS.Entry :=
  Function.update s.look (bodyPlace storage bucket encoded) (some (.file body))

/-- The tree when the record is in place too. -/
def withRecord (body : Bytes) (objectMeta : ObjectMeta) : Path → Option FS.Entry :=
  Function.update (withBody storage s bucket encoded body) (sidecarPlace storage bucket encoded)
    (some (.file (crates.objectMeta.encode objectMeta)))

/-- Where a replacement can be, by its progress. -/
inductive WriteStage : Headway → FS → Prop
  | idle {t : FS} (same : Becomes s s.look t) : WriteStage ⟨[], false, false⟩ t
  | filling {t : FS} {tmp : PathBuf} {name : Str} {file : Handle} (temp : isTempName name = true)
      (staging : TempFile s (name :: objectsPlace storage bucket) file t) :
      WriteStage ⟨[tmp], false, false⟩ t
  | placed {t mid : FS} {body : Bytes} (nonempty : key ≠ []) (own : replacement.content store = some body)
      (becomes : Becomes s (withBody storage s bucket encoded body) mid)
      (later : Becomes mid mid.look t ∨ ∃ name file, isTempName name = true ∧
        TempFile mid (name :: metaPlace storage bucket) file t) : WriteStage ⟨[], true, false⟩ t
  | done {t : FS} {body : Bytes} {time : Nat} (nonempty : key ≠ [])
      (own : replacement.content store = some body)
      (short : exceeds s.nameMax (FsStorage.sidecarName encoded) = false)
      (tree : t.Tree) (limit : t.nameMax = s.nameMax)
      (seen : ∀ path, bucket :: storage.dataRoot <:+ path → t.look path =
        withRecord crates storage s bucket encoded body (replacement.record crates store key body time) path) :
      WriteStage ⟨[], true, true⟩ t

end Stages

section Seen
variable {crates : Crates} {storage : FsStorage} {s t : FS} {store : Store} {bucket key encoded : Str}
  {old : Bucket} {sidecars : Names ObjectMeta} {replacement : Replacement}

theorem tree_same (tree : s.Tree) (same : t.look = s.look) : t.Tree := by
  unfold FS.Tree
  rw [same]
  exact tree

variable (holds : Holds crates storage s store) (tree : s.Tree)
  (present : store.buckets.lookup bucket = some old) (kept : old.sidecars = some sidecars)

include holds present in
theorem under_old : under (bucket :: storage.dataRoot) s.look = old.view crates := by
  have valid := (holds.sound.buckets bucket old present).valid
  funext inner
  unfold under
  rw [look_below holds valid, present]
  rfl

include holds present in
theorem under_body (body : Bytes) :
    under (bucket :: storage.dataRoot) (withBody storage s bucket encoded body) =
      Bucket.view crates { old with objects := old.objects.insert encoded body } := by
  rw [view_insert_object, ← under_old holds present]
  exact under_update_two (bucket :: storage.dataRoot) s.look objectsName encoded _

include holds present kept in
theorem under_record (body : Bytes) (objectMeta : ObjectMeta) :
    under (bucket :: storage.dataRoot) (withRecord crates storage s bucket encoded body objectMeta) =
      (Store.storedBucket old sidecars encoded body objectMeta).view crates := by
  have placed := view_insert_sidecar crates { old with objects := old.objects.insert encoded body }
    (FsStorage.sidecarName encoded) objectMeta kept
  unfold Store.storedBucket
  rw [placed, ← under_body holds present]
  exact under_update_two (bucket :: storage.dataRoot) (withBody storage s bucket encoded body) metaName
    (FsStorage.sidecarName encoded) _

include holds tree present in
theorem tree_body {body : Bytes} {mid : FS}
    (becomes : Becomes s (withBody storage s bucket encoded body) mid) : mid.Tree := by
  have valid := (holds.sound.buckets bucket old present).valid
  apply FS.tree_added tree becomes.look (look_objects holds valid present)
  intro directory
  exact absurd directory (object_not_dir holds valid present encoded)

theorem tree_temp {name : Str} {dir : Path} {file : Handle} (tree : s.Tree) (inside : s.look dir = some .dir)
    (staging : TempFile s (name :: dir) file t) : t.Tree := by
  obtain ⟨content, staged⟩ := staging.staged
  apply FS.tree_added tree staged.becomes.look inside
  intro directory
  rw [staged.absent] at directory
  cases directory

theorem limit_temp {place : Path} {file : Handle} (staging : TempFile s place file t) :
    t.nameMax = s.nameMax := by
  obtain ⟨content, staged⟩ := staging.staged
  exact staged.becomes.limit

/-- What does not change the directory of the bucket but for a temporary record. -/
theorem exhibits_under {b : Bucket} {look : Path → Option FS.Entry} (tree : t.Tree)
    (limit : t.nameMax = none ∨ t.nameMax = some 255) (sound : b.Sound bucket) (kept : b.sidecars.isSome = true)
    (view : under (bucket :: storage.dataRoot) look = b.view crates)
    (same : ∀ path, bucket :: storage.dataRoot <:+ path →
      (∀ temp, isTempName temp = true → path ≠ temp :: metaPlace storage bucket) → t.look path = look path) :
    Exhibits crates storage t bucket b := by
  refine ⟨tree, limit, sound, kept, ?_⟩
  intro inner plain
  rw [← view]
  apply same _ (List.suffix_append _ _)
  intro temp named equal
  apply plain temp named
  have front : inner.reverse = [temp, metaName] := by
    have whole : inner.reverse ++ bucket :: storage.dataRoot =
        [temp, metaName] ++ bucket :: storage.dataRoot := equal
    exact List.append_cancel_right whole
  rw [← List.reverse_reverse inner, front]
  rfl

include holds present kept in
theorem meta_inside : s.look (metaPlace storage bucket) = some .dir := by
  have valid := (holds.sound.buckets bucket old present).valid
  simpa [metaPlace, kept] using look_meta holds valid present

include holds tree present kept in
/-- Whatever the stage, the sidecar directory can be reached. -/
theorem stage_ground {headway : Headway}
    (stage : WriteStage crates storage s store bucket key encoded replacement headway t) :
    t.Tree ∧ t.nameMax = s.nameMax ∧ t.look (metaPlace storage bucket) = some .dir := by
  have valid := (holds.sound.buckets bucket old present).valid
  have inside := meta_inside holds present kept
  have apart : ∀ {first second : Str}, metaPlace storage bucket ≠ first :: second :: bucket :: storage.dataRoot := by
    intro first second same
    have long := congrArg List.length same
    simp [metaPlace] at long
  cases stage with
  | idle same => exact ⟨tree_same tree same.look, same.limit, by rw [same.look]; exact inside⟩
  | filling temp staging =>
      obtain ⟨content, staged⟩ := staging.staged
      exact ⟨tree_temp tree (look_objects holds valid present) staging, staged.becomes.limit,
        staged_kept staged _ inside⟩
  | placed nonempty own becomes later =>
      have grown := tree_body holds tree present becomes
      have still : _ = some FS.Entry.dir := (congrFun becomes.look (metaPlace storage bucket)).trans
        ((Function.update_of_ne apart _ _).trans inside)
      rcases later with same | ⟨name, file, temp, staging⟩
      · exact ⟨tree_same grown same.look, same.limit.trans becomes.limit, by rw [same.look]; exact still⟩
      · obtain ⟨content, staged⟩ := staging.staged
        exact ⟨tree_temp grown still staging, staged.becomes.limit.trans becomes.limit,
          staged_kept staged _ still⟩
  | done nonempty own short grown limit seen =>
      refine ⟨grown, limit, ?_⟩
      rw [seen (metaPlace storage bucket) (List.suffix_cons _ _)]
      exact (Function.update_of_ne apart _ _).trans ((Function.update_of_ne apart _ _).trans inside)

/-- With a name that is too long for the sidecar, no reader gets as far as to find nothing. -/
theorem long_unread (grown : t.Tree) (limited : t.nameMax = none ∨ t.nameMax = some 255)
    (inside : t.look (metaPlace storage bucket) = some .dir) (valid : validateBucketName bucket = .ok ())
    (admitted : encodeKey key = .ok encoded)
    (long : exceeds t.nameMax (FsStorage.sidecarName encoded) = true)
    (seen : Option (ObjectMeta × Bytes)) : ¬ Reads crates storage t bucket key seen := by
  intro reads
  have located := locate_meta_path grown limited valid admitted inside
  rw [if_pos long] at located
  have looked : wp faultFree (headObject crates storage bucket key)
      (fun outcome _ => outcome = .error (.Io (.os .ENAMETOOLONG))) t := by
    simp only [headObject, lift, Prog.ofExcept, valid, admitted, Prog.done_bind, readSidecar]
    rw [wp_readJson, contents_lost located]
    rfl
  obtain ⟨outcome, after, run, _, found⟩ := wp_returns reads.head
  obtain rfl := wp_runs looked run
  cases seen with
  | none =>
      obtain ⟨text, same⟩ := found
      cases same
  | some version => cases found

theorem reads_unique {first second : Option (ObjectMeta × Bytes)}
    (left : Reads crates storage t bucket key first) (right : Reads crates storage t bucket key second) :
    first = second := by
  obtain ⟨outcome, after, run, _, here⟩ := wp_returns left.get
  obtain ⟨_, there⟩ := wp_runs right.get run
  cases first with
  | none =>
      obtain ⟨text, rfl⟩ := here
      cases second with
      | none => rfl
      | some version => cases there
  | some version =>
      obtain rfl := here
      cases second with
      | none =>
          obtain ⟨text, same⟩ := there
          cases same
      | some other => rw [Except.ok.inj there]

end Seen
/-! ### What is seen at each stage -/

section Exact
variable {crates : Crates} {storage : FsStorage} {s t : FS} {store : Store} {bucket key encoded : Str}
  {old : Bucket} {sidecars : Names ObjectMeta} {replacement : Replacement}

/-- What is exhibited is listed, and read in the version that it has. -/
theorem exhibits_whole {b : Bucket} (exhibits : Exhibits crates storage t bucket b)
    (complete : b.Complete t.nameMax) (admitted : encodeKey key = .ok encoded)
    (short : exceeds t.nameMax (FsStorage.sidecarName encoded) = false)
    (bodied : (b.recordOf t.nameMax key).isSome = true → (b.objects.lookup encoded).isSome = true)
    {first : Option (ObjectMeta × Bytes)} {new : ObjectMeta × Bytes → Prop} {others : Str → Prop}
    (version : b.version t.nameMax key = first ∨
      ∃ version, new version ∧ b.version t.nameMax key = some version)
    (same : ∀ other, other ≠ key → (b.Stores other ↔ others other)) :
    AllOrNothing crates storage bucket key first new others t where
  version := ⟨_, version, exhibits_reads exhibits admitted short bodied⟩
  listing := fun req start => ⟨_, b.Stores, same,
    exhibits_lists exhibits complete req start (Nat.lt_succ_self _)⟩

theorem paired_bodied {b : Bucket} (paired : b.PairedAt encoded) (admitted : encodeKey key = .ok encoded)
    {nameMax : Option Nat} (found : (b.recordOf nameMax key).isSome = true) :
    (b.objects.lookup encoded).isSome = true := by
  obtain ⟨objectMeta, record⟩ := Option.isSome_iff_exists.mp found
  simp only [Bucket.recordOf, admitted, Except.toOption, Option.bind_some] at record
  obtain ⟨sidecars, own, looked⟩ := Option.bind_eq_some_iff.mp record
  split_ifs at looked
  obtain ⟨body, stored⟩ := paired sidecars objectMeta own looked
  simp [stored]

theorem stores_body {b : Bucket} (admitted : encodeKey key = .ok encoded) (body : Bytes) (other : Str) :
    Bucket.Stores { b with objects := b.objects.insert encoded body } other ↔ other = key ∨ b.Stores other := by
  unfold Bucket.Stores
  constructor
  · rintro ⟨name, content, own, stored⟩
    by_cases same : name = encoded
    · subst same
      exact .inl (encode_key_injective own admitted)
    · rw [Finmap.lookup_insert_of_ne _ same] at stored
      exact .inr ⟨name, content, own, stored⟩
  · rintro (rfl | ⟨name, content, own, stored⟩)
    · exact ⟨encoded, body, admitted, Finmap.lookup_insert _⟩
    · by_cases same : name = encoded
      · subst same
        exact ⟨name, body, own, Finmap.lookup_insert _⟩
      · exact ⟨name, content, own, by simpa [Finmap.lookup_insert_of_ne _ same] using stored⟩

variable (holds : Holds crates storage s store) (tree : s.Tree)
  (present : store.buckets.lookup bucket = some old) (complete : old.Complete s.nameMax)
  (paired : old.PairedAt encoded) (admitted : encodeKey key = .ok encoded)

include holds tree present complete paired admitted in
/-- Before anything has been done readers find the old version. -/
theorem idle_whole (short : exceeds s.nameMax (FsStorage.sidecarName encoded) = false)
    (same : Becomes s s.look t) {new : ObjectMeta × Bytes → Prop} :
    AllOrNothing crates storage bucket key (old.version s.nameMax key) new old.Stores t := by
  have sound := holds.sound.buckets bucket old present
  have limit : t.nameMax = none ∨ t.nameMax = some 255 := by
    rw [same.limit]
    exact holds.limit
  have exhibits : Exhibits crates storage t bucket old :=
    exhibits_under (tree_same tree same.look) limit sound complete.sidecars (under_old holds present)
      fun path _ _ => congrFun same.look path
  rw [← same.limit] at complete short ⊢
  exact exhibits_whole exhibits complete admitted short (paired_bodied paired admitted) (.inl rfl)
    fun _ _ => Iff.rfl

include holds present complete admitted in
/-- With body and record in place they find the new one. -/
theorem done_whole {body : Bytes} {time : Nat} (nonempty : key ≠ [])
    (own : replacement.content store = some body)
    (named : (replacement.record crates store key body time).key = key)
    (short : exceeds s.nameMax (FsStorage.sidecarName encoded) = false)
    (grown : t.Tree) (limit : t.nameMax = s.nameMax)
    (seen : ∀ path, bucket :: storage.dataRoot <:+ path → t.look path =
      withRecord crates storage s bucket encoded body (replacement.record crates store key body time) path)
    {first : Option (ObjectMeta × Bytes)} :
    AllOrNothing crates storage bucket key first (replacement.Writes crates store key) old.Stores t := by
  have sound := holds.sound.buckets bucket old present
  obtain ⟨sidecars, kept⟩ := Option.isSome_iff_exists.mp complete.sidecars
  have object : IsObjectName encoded := ⟨key, nonempty, admitted⟩
  have limited : t.nameMax = none ∨ t.nameMax = some 255 := by
    rw [limit]
    exact holds.limit
  have stored := sound_insert_sidecar (replacement.record crates store key body time)
    (sound_insert_object body sound object) kept object
  have exhibits : Exhibits crates storage t bucket (Store.storedBucket old sidecars encoded body
      (replacement.record crates store key body time)) :=
    exhibits_under grown limited stored rfl (under_record holds present kept body _)
      fun path inside _ => seen path inside
  rw [← limit] at complete short
  have whole := complete_insert body (replacement.record crates store key body time) complete kept
    admitted short named
  have record := record_insert body (replacement.record crates store key body time) kept admitted short key
  rw [if_pos rfl] at record
  have version : Bucket.version t.nameMax (Store.storedBucket old sidecars encoded body
      (replacement.record crates store key body time)) key =
        some (replacement.record crates store key body time, body) := by
    rw [Bucket.version, record]
    simp [admitted, Except.toOption, Store.storedBucket]
  refine exhibits_whole exhibits whole admitted short ?_ (.inr ⟨_, ⟨own, time, rfl⟩, version⟩) ?_
  · intro _
    simp [Store.storedBucket]
  · intro other different
    rw [stores_insert body _ admitted other]
    exact ⟨fun either => either.resolve_left different, .inr⟩

include holds tree present complete paired admitted in
/-- With the body alone in place they find one version only if nobody can tell the two apart. -/
theorem placed_whole_iff {mid : FS} {body : Bytes} (nonempty : key ≠ [])
    (own : replacement.content store = some body)
    (short : exceeds s.nameMax (FsStorage.sidecarName encoded) = false)
    (becomes : Becomes s (withBody storage s bucket encoded body) mid)
    (later : Becomes mid mid.look t ∨ ∃ name file, isTempName name = true ∧
      TempFile mid (name :: metaPlace storage bucket) file t) :
    AllOrNothing crates storage bucket key (old.version s.nameMax key)
        (replacement.Writes crates store key) old.Stores t ↔
      replacement.Repeats crates store key (old.version s.nameMax key) := by
  have sound := holds.sound.buckets bucket old present
  obtain ⟨sidecars, kept⟩ := Option.isSome_iff_exists.mp complete.sidecars
  have object : IsObjectName encoded := ⟨key, nonempty, admitted⟩
  have grown := tree_body holds tree present becomes
  have inside : mid.look (metaPlace storage bucket) = some .dir := by
    rw [becomes.look, withBody, Function.update_of_ne]
    · exact meta_inside holds present kept
    · intro same
      have long := congrArg List.length same
      simp [metaPlace, bodyPlace, objectsPlace] at long
  have limit : t.nameMax = s.nameMax := by
    rcases later with same | ⟨name, file, temp, staging⟩
    · exact same.limit.trans becomes.limit
    · exact (limit_temp staging).trans becomes.limit
  have limited : t.nameMax = none ∨ t.nameMax = some 255 := by
    rw [limit]
    exact holds.limit
  have above : t.Tree := by
    rcases later with same | ⟨name, file, temp, staging⟩
    · exact tree_same grown same.look
    · exact tree_temp grown inside staging
  -- Temporary records do not show.
  have exhibits : Exhibits crates storage t bucket
      { old with objects := old.objects.insert encoded body } := by
    apply exhibits_under above limited (sound_insert_object body sound object) complete.sidecars
      (under_body holds present body)
    intro path _ plain
    rcases later with same | ⟨name, file, temp, staging⟩
    · rw [same.look, becomes.look]
    · obtain ⟨content, staged⟩ := staging.staged
      rw [staged.becomes.look, Function.update_of_ne (plain name temp), becomes.look]
  have records : ∀ other, Bucket.recordOf t.nameMax
      { old with objects := old.objects.insert encoded body } other = old.recordOf s.nameMax other := by
    intro other
    rw [limit]
    rfl
  have bodied : (Bucket.recordOf t.nameMax { old with objects := old.objects.insert encoded body } key).isSome =
      true → (Finmap.lookup encoded (old.objects.insert encoded body)).isSome = true := by
    intro _
    simp
  have reads := exhibits_reads exhibits admitted (by rw [limit]; exact short) bodied
  constructor
  · intro whole
    -- The listing has read a record for the body, and there was a body before with that record.
    obtain ⟨patience, keys, _, listed⟩ := whole.listing ⟨none, none, none, none⟩ rfl
    have stored := (stores_body (b := old) admitted body key).mpr (.inl rfl)
    obtain ⟨objectMeta, record⟩ := exhibits_needs exhibits
      (wp_mono listed fun outcome after answer => answer.2.imp fun pages own => own.1) stored
    rw [records] at record
    obtain ⟨before, had⟩ := Option.isSome_iff_exists.mp
      (paired_bodied paired admitted (by rw [record]; rfl : (old.recordOf s.nameMax key).isSome = true))
    have version : old.version s.nameMax key = some (objectMeta, before) := by
      simp [Bucket.version, record, admitted, Except.toOption, had]
    have shown : Bucket.version t.nameMax { old with objects := old.objects.insert encoded body } key =
        some (objectMeta, body) := by
      rw [Bucket.version, records, record]
      simp [admitted, Except.toOption]
    obtain ⟨seen, which, found⟩ := whole.version
    rw [shown] at reads
    obtain rfl := reads_unique reads found
    refine ⟨(objectMeta, before), body, version, own, ?_⟩
    rcases which with same | ⟨newer, ⟨_, time, made⟩, same⟩
    · rw [version] at same
      cases same
      exact .inl rfl
    · cases same
      exact .inr ⟨time, made⟩
  · rintro ⟨⟨objectMeta, before⟩, other, version, again, which⟩
    rw [own] at again
    obtain rfl := Option.some.inj again
    obtain ⟨record, had⟩ : old.recordOf s.nameMax key = some objectMeta ∧
        old.objects.lookup encoded = some before := by
      cases record : old.recordOf s.nameMax key with
      | none => simp [Bucket.version, record] at version
      | some found =>
          cases had : old.objects.lookup encoded with
          | none => simp [Bucket.version, record, admitted, Except.toOption, had] at version
          | some content => simpa [Bucket.version, record, admitted, Except.toOption, had] using version
    have stores : ∀ other, Bucket.Stores { old with objects := old.objects.insert encoded body } other ↔
        old.Stores other := by
      intro other
      rw [stores_body admitted]
      constructor
      · rintro (rfl | stored)
        · exact ⟨encoded, before, admitted, had⟩
        · exact stored
      · exact .inr
    have whole : Bucket.Complete t.nameMax { old with objects := old.objects.insert encoded body } := by
      refine ⟨complete.sidecars, fun other stored => ?_⟩
      rw [records]
      exact complete.records other ((stores other).mp stored)
    have shown : Bucket.version t.nameMax { old with objects := old.objects.insert encoded body } key =
        some (objectMeta, body) := by
      rw [Bucket.version, records, record]
      simp [admitted, Except.toOption]
    refine exhibits_whole exhibits whole admitted (by rw [limit]; exact short) bodied ?_ fun other _ => stores other
    rw [shown, version]
    rcases which with rfl | ⟨time, made⟩
    · exact .inl rfl
    · exact .inr ⟨_, ⟨own, time, made⟩, rfl⟩

include holds tree present complete paired admitted in
/-- What readers find, stage by stage. -/
theorem stage_whole_iff {headway : Headway} (filed : old.Named)
    (named : ∀ body time, (replacement.record crates store key body time).key = key)
    (stage : WriteStage crates storage s store bucket key encoded replacement headway t) :
    AllOrNothing crates storage bucket key (old.version s.nameMax key)
        (replacement.Writes crates store key) old.Stores t ↔
      exceeds s.nameMax (FsStorage.sidecarName encoded) = false ∧
        headway.Whole (replacement.Repeats crates store key (old.version s.nameMax key)) := by
  have sound := holds.sound.buckets bucket old present
  obtain ⟨sidecars, kept⟩ := Option.isSome_iff_exists.mp complete.sidecars
  obtain ⟨grown, limit, inside⟩ := stage_ground holds tree present kept stage
  have readable : AllOrNothing crates storage bucket key (old.version s.nameMax key)
      (replacement.Writes crates store key) old.Stores t →
      exceeds s.nameMax (FsStorage.sidecarName encoded) = false := by
    rintro ⟨⟨seen, _, reads⟩, _⟩
    by_contra long
    rw [Bool.not_eq_false, ← limit] at long
    have limited : t.nameMax = none ∨ t.nameMax = some 255 := by
      rw [limit]
      exact holds.limit
    exact long_unread grown limited inside sound.valid admitted long seen reads
  cases stage with
  | idle same =>
      constructor
      · intro whole
        exact ⟨readable whole, rfl, nofun⟩
      · rintro ⟨short, _⟩
        exact idle_whole holds tree present complete paired admitted short same
  | @filling _ _ name _ temp staging =>
      constructor
      · intro whole
        obtain ⟨patience, keys, others, listed⟩ := whole.listing ⟨some name, none, none, none⟩ rfl
        have honest : keys name → ∀ other, encodeKey name = .ok other → old.PairedAt other := by
          intro listed other own
          by_cases same : name = key
          · subst same
            obtain rfl := Except.ok.inj (admitted.symm.trans own)
            exact paired
          · obtain ⟨found, body, named, stored⟩ := (others name same).mp listed
            obtain rfl := Except.ok.inj (named.symm.trans own)
            exact fun _ _ _ _ => ⟨body, stored⟩
        exact absurd listed (stray_unlisted holds present temp staging patience keys filed honest)
      · rintro ⟨_, left, _⟩
        cases left
  | placed nonempty own becomes later =>
      constructor
      · intro whole
        have short := readable whole
        have repeats := (placed_whole_iff holds tree present complete paired admitted nonempty own short
          becomes later).mp whole
        exact ⟨short, rfl, fun _ => .inr repeats⟩
      · rintro ⟨short, _, either⟩
        rcases either rfl with impossible | repeats
        · cases impossible
        · exact (placed_whole_iff holds tree present complete paired admitted nonempty own short
            becomes later).mpr repeats
  | done nonempty own short grown limit seen =>
      constructor
      · intro _
        exact ⟨short, rfl, fun _ => .inl rfl⟩
      · intro _
        exact done_whole holds present complete admitted nonempty own (named _ _) short grown limit seen

end Exact
/-! ### Where a replacement can stop -/

section Stopping
variable {crates : Crates} {storage : FsStorage} {s t : FS} {store : Store} {bucket key encoded : Str}
  {old : Bucket} {replacement : Replacement} {events : List Answered}
variable (holds : Holds crates storage s store) (tree : s.Tree)
  (present : store.buckets.lookup bucket = some old) (complete : old.Complete s.nameMax)
  (admitted : encodeKey key = .ok encoded)

include holds present in
theorem dirs_apart : storage.metaDir bucket ≠ storage.objectsDir bucket := by
  intro same
  have valid := (holds.sound.buckets bucket old present).valid
  have left := locate_meta holds valid present
  rw [same, locate_objects holds valid present] at left
  exact objects_not_meta (List.cons.inj (Except.ok.inj left)).1

include holds tree present complete admitted in
theorem paths_apart : storage.objectPath bucket encoded ≠ storage.metaPath bucket encoded := by
  intro same
  have valid := (holds.sound.buckets bucket old present).valid
  obtain ⟨sidecars, kept⟩ := Option.isSome_iff_exists.mp complete.sidecars
  have body := locate_body tree holds.limit valid admitted (look_objects holds valid present)
  have record := locate_meta_path tree holds.limit valid admitted (meta_inside holds present kept)
  rw [same, record] at body
  split_ifs at body
  · have long := congrArg List.length (Except.ok.inj body)
    simp [sidecarPlace, metaPlace, objectsPlace] at long
  · exact body_not_sidecar (Except.ok.inj body).symm

include holds tree present complete admitted in
/-- The body is written and renamed; what comes after that is another matter. -/
theorem stays_body {Value : Type} {fill : Handle → Op Value} {rest : Value → Op ObjectMeta}
    {filled : Value → Bytes → Prop} (careful : ∀ file, Careful file (fill file))
    (fills : ∀ name value mid, isTempName name = true → s.look (name :: objectsPlace storage bucket) = none →
      Runs faultFree (fill s.nextInode) (s.newFile (name :: objectsPlace storage bucket)) (.ok value) mid →
      ∃ body, replacement.content store = some body ∧ filled value body ∧
        Staged s (name :: objectsPlace storage bucket) body mid)
    (going : ∀ value body mid later, key ≠ [] → replacement.content store = some body → filled value body →
      Becomes s (withBody storage s bucket encoded body) mid →
      headwayOf storage bucket encoded later = ⟨[], true, false⟩ →
      staysAt storage bucket encoded (WriteStage crates storage s store bucket key encoded replacement)
        (rest value) (fun _ _ _ => True) later mid)
    (same : headwayOf storage bucket encoded events = ⟨[], false, false⟩) :
    staysAt storage bucket encoded (WriteStage crates storage s store bucket key encoded replacement)
      (installFile (storage.objectsDir bucket) fill (storage.objectPath bucket encoded) >>= rest)
      (fun _ _ _ => True) events s := by
  have valid := (holds.sound.buckets bucket old present).valid
  have inside := look_objects holds valid present
  have roomy := roomy_objects holds valid present
  have apart := paths_apart holds tree present complete admitted
  apply throughout_bind
  apply stays_install careful
    (fun name temp => FS.locate_name roomy.located roomy.inside (temp_is_name temp) (roomy.short name temp))
    (lands_located (locate_body tree holds.limit valid admitted inside)) _ _ _ _ _ same
  · exact fun after back => .idle back
  · intro name file mid temp staging
    simp only [Headway.next, if_true]
    exact .filling temp staging
  · intro name file
    simp [Headway.next]
  · exact fun _ _ _ => trivial
  · intro name found value mid later temp landing absent free run staging headway
    have nonempty : key ≠ [] := by
      rintro rfl
      obtain rfl : encoded = [] := (encoded_nil admitted).mpr rfl
      rw [if_pos rfl] at landing
      obtain rfl := Except.ok.inj landing
      exact free inside
    rw [if_neg (fun empty => nonempty ((encoded_nil admitted).mp empty))] at landing
    obtain rfl := Except.ok.inj landing
    obtain ⟨body, own, good, staged⟩ := fills name value mid temp absent run
    have becomes := staged_move staged (bodyPlace storage bucket encoded)
    have here : headwayOf storage bucket encoded later = ⟨[], true, false⟩ := by
      rw [headway]
      simp [Headway.next, apart]
    refine ⟨stage_at here (.placed nonempty own becomes (.inl (becomes_same _))), ?_⟩
    exact going value body _ later nonempty own good becomes here

include holds tree present complete admitted in
/-- Then the record is written and renamed. -/
theorem stays_record {rest : Unit → Op ObjectMeta} {body : Bytes} {mid : FS} {time : Nat} (nonempty : key ≠ [])
    (own : replacement.content store = some body)
    (becomes : Becomes s (withBody storage s bucket encoded body) mid)
    (going : ∀ final later,
      WriteStage crates storage s store bucket key encoded replacement ⟨[], true, true⟩ final →
      headwayOf storage bucket encoded later = ⟨[], true, true⟩ →
      staysAt storage bucket encoded (WriteStage crates storage s store bucket key encoded replacement)
        (rest ()) (fun _ _ _ => True) later final)
    (same : headwayOf storage bucket encoded events = ⟨[], true, false⟩) :
    staysAt storage bucket encoded (WriteStage crates storage s store bucket key encoded replacement)
      (writeSidecar crates (storage.metaPath bucket encoded)
        (replacement.record crates store key body time) >>= rest) (fun _ _ _ => True) events mid := by
  have sound := holds.sound.buckets bucket old present
  obtain ⟨sidecars, kept⟩ := Option.isSome_iff_exists.mp complete.sidecars
  have object : IsObjectName encoded := ⟨key, nonempty, admitted⟩
  have held : Holds crates storage mid
      (store.setBucket bucket { old with objects := old.objects.insert encoded body }) := by
    apply holds_change holds present (view_insert_object crates old encoded body)
      (sound_insert_object body sound object)
    exact becomes
  have here : (store.setBucket bucket { old with objects := old.objects.insert encoded body }).buckets.lookup
      bucket = some { old with objects := old.objects.insert encoded body } := by
    simp [Store.setBucket]
  have grown := tree_body holds tree present becomes
  have inside := meta_inside held here kept
  have roomy := roomy_meta held sound.valid here kept
  have apart := dirs_apart holds present
  have others := paths_apart holds tree present complete admitted
  have lands := locate_meta_path grown held.limit sound.valid admitted inside
  obtain ⟨_, _, _, slash, _⟩ := name_parts (encoded_sidecar_is_name admitted)
  have above : (storage.metaPath bucket encoded).parent = storage.metaDir bucket := parent_join _ slash
  have landing : Lands mid (storage.metaPath bucket encoded)
      (if exceeds mid.nameMax (FsStorage.sidecarName encoded) then .error .ENAMETOOLONG
        else .ok (sidecarPlace storage bucket encoded)) := by
    split_ifs with long
    · exact lands_long roomy.located roomy.inside (encoded_sidecar_is_name admitted) long
    · rw [if_neg long] at lands
      exact lands_located lands
  unfold writeSidecar writeJson
  rw [above]
  apply throughout_bind
  apply stays_install (json_careful crates.objectMeta _)
    (fun name temp => FS.locate_name roomy.located roomy.inside (temp_is_name temp) (roomy.short name temp))
    landing _ _ _ _ _ same
  · exact fun after back => .placed nonempty own becomes (.inl back)
  · intro name file after temp staging
    simp only [Headway.next, if_neg apart]
    exact .placed nonempty own becomes (.inr ⟨name, file, temp, staging⟩)
  · intro name file
    simp [Headway.next, apart]
  · exact fun _ _ _ => trivial
  · intro name found value after later temp lands absent free run staging headway
    split_ifs at lands with long
    obtain rfl := Except.ok.inj lands
    have short : exceeds s.nameMax (FsStorage.sidecarName encoded) = false := by
      rw [← becomes.limit]
      simpa using long
    have staged := json_filled absent run
    have moved := staged_move staged (sidecarPlace storage bucket encoded)
    have final : headwayOf storage bucket encoded later = ⟨[], true, true⟩ := by
      rw [headway]
      simp [Headway.next, apart]
    have seen : ∀ path, bucket :: storage.dataRoot <:+ path →
        (after.move (name :: metaPlace storage bucket) (sidecarPlace storage bucket encoded)).look path =
          withRecord crates storage s bucket encoded body (replacement.record crates store key body time) path := by
      intro path _
      apply (congrFun moved.look path).trans
      rw [becomes.look]
      rfl
    have stage := WriteStage.done nonempty own short
      (FS.tree_added grown moved.look inside fun directory => absurd directory free)
      (moved.limit.trans becomes.limit) seen
    exact ⟨stage_at final stage, going _ later stage final⟩

include holds in
/-- A body that was assembled without an error is made of all the parts. -/
theorem assembled_filled {uploadId : Str} (uuid : isUuid uploadId = true) {upload : Upload}
    (staged : store.staged.lookup uploadId = some upload) {p : Path} {file : Handle}
    (elsewhere : ∀ n, n :: uploadId :: uploadsName :: storage.dataRoot ≠ p) (parts : List Int)
    (hasher : EtagHasher) (bytesWritten : Nat) (before : Bytes) (t : FS) (filling : Staged s p before t)
    (named : t.node p = some (.file file)) :
    wp faultFree (assembleParts (storage.uploadDir uploadId) file parts hasher bytesWritten)
      (fun outcome after => ∀ value, outcome = .ok value → ∃ body, Store.assembled upload parts = some body ∧
        value = (hasher.update body, bytesWritten + body.length) ∧ Staged s p (before ++ body) after) t := by
  induction parts generalizing hasher bytesWritten before t with
  | nil =>
      simp only [assembleParts, Prog.send_bind, wp_flush, io, Prog.done_bind, Prog.pure_eq, wp_done]
      rintro value ⟨⟩
      exact ⟨[], rfl, by simp [EtagHasher.update], by simpa using filling⟩
  | cons number rest ih =>
      have roomy := roomy_upload holds uuid staged
      have good := part_is_name number
      simp only [assembleParts, Prog.send_bind, wp_open]
      cases long : s.tooLong (FsStorage.partName number) with
      | true =>
          have lost : t.locate ((storage.uploadDir uploadId).join (FsStorage.partName number)) =
              .error .ENAMETOOLONG :=
            lands_long roomy.located roomy.inside good long t (staged_kept filling) filling.becomes.limit
          simp only [FS.open_lost lost, io, Prog.fail_bind, wp_fail]
          rintro _ ⟨⟩
      | false =>
          have placed := staged_locate filling (FS.locate_name roomy.located roomy.inside good long)
          have seen := look_staged holds uploadId [FsStorage.partName number]
          simp only [List.reverse_singleton, List.singleton_append, staged, Option.bind_some,
            Upload.view, if_neg (part_not_meta number)] at seen
          have still : t.look (FsStorage.partName number :: uploadId :: uploadsName :: storage.dataRoot) =
              (upload.parts.lookup (FsStorage.partName number)).map .file := by
            rw [filling.becomes.look, Function.update_of_ne (elsewhere _), seen]
          cases found : upload.parts.lookup (FsStorage.partName number) with
          | none =>
              rw [found] at still
              simp only [FS.open_absent placed still, io, Prog.fail_bind, wp_fail]
              rintro _ ⟨⟩
          | some chunk =>
              rw [found] at still
              obtain ⟨inode, part, held⟩ := FS.look_file.mp still
              simp only [FS.open_file placed part, io, Prog.done_bind, wp_read, held, wp_write]
              apply wp_mono (ih (hasher.update chunk) (bytesWritten + chunk.length) (before ++ chunk)
                (t.write file chunk) (staged_write chunk filling named) named)
              rintro outcome after all value ok
              obtain ⟨body, joined, rfl, whole⟩ := all value ok
              refine ⟨chunk ++ body, by simp [Store.assembled, found, joined], ?_, ?_⟩
              · simp [EtagHasher.update, Nat.add_assoc]
              · rwa [← List.append_assoc]

include holds tree present complete admitted in
theorem stays_put (body : Body) (contentType : Option Str) :
    staysAt storage bucket encoded
      (WriteStage crates storage s store bucket key encoded (.put body contentType))
      (putObject crates storage bucket key body contentType) (fun _ _ _ => True) [] s := by
  have valid := (holds.sound.buckets bucket old present).valid
  have idle : WriteStage crates storage s store bucket key encoded (.put body contentType) ⟨[], false, false⟩ s :=
    .idle (becomes_same s)
  rw [put_halves crates storage body contentType valid admitted]
  simp only [putBody, Prog.send_bind, Prog.call_bind]
  apply stays_quiet rfl (rfl : headwayOf storage bucket encoded [] = ⟨[], false, false⟩) idle
  intro there later same _
  cases there with
  | false => exact ⟨stage_at same idle, trivial⟩
  | true =>
      simp only [Bool.not_true, Bool.false_eq_true, if_false, writeObjectBody, Prog.bind_assoc]
      apply stays_body holds tree present complete admitted (fun file => stream_careful body .new 0) _ _ same
      · exact fun value content => value = (⟨content⟩, content.length)
      · intro name value mid temp absent run
        obtain ⟨content, staged, rfl, outcome⟩ := wp_runs (wp_stream_staged body absent) run
        cases broken : failure body with
        | none =>
            rw [broken] at outcome
            exact ⟨delivered body, rfl, Except.ok.inj outcome, staged⟩
        | some e =>
            rw [broken] at outcome
            cases outcome
      · rintro value content mid later nonempty own rfl becomes same
        simp only [Prog.pure_eq, Prog.done_bind, putRecord, Prog.send_bind]
        apply stays_quiet rfl same (.placed nonempty own becomes (.inl (becomes_same mid)))
        intro time last same _
        exact stays_record holds tree present complete admitted nonempty own becomes
          (fun final last stage same => ⟨stage_at same stage, trivial⟩) same

/-- Nothing of the new version is in the staging directory. -/
theorem done_drop {uploadId : Str} {found : Path} (valid : validateBucketName bucket = .ok ())
    (stage : WriteStage crates storage s store bucket key encoded replacement ⟨[], true, true⟩ t)
    (inside : uploadId :: uploadsName :: storage.dataRoot <:+ found)
    (empty : ∀ name, t.look (name :: found) = none) :
    WriteStage crates storage s store bucket key encoded replacement ⟨[], true, true⟩ (t.drop found) := by
  have elsewhere : ∀ path, bucket :: storage.dataRoot <:+ path → (t.drop found).look path = t.look path := by
    intro path below
    have other : path ≠ found := by
      rintro rfl
      have staging : uploadsName :: storage.dataRoot <:+ path := (List.suffix_cons _ _).trans inside
      have same : bucket :: storage.dataRoot = uploadsName :: storage.dataRoot :=
        (List.suffix_of_suffix_length_le below staging (by simp)).eq_of_length (by simp)
      exact bucket_not_uploads valid (List.cons.inj same).1
    rw [FS.look_drop, Function.update_of_ne other]
  cases stage with
  | done nonempty own short tree limit seen =>
      exact .done nonempty own short (FS.tree_removed tree (FS.look_drop t found) empty) limit
        fun path below => (elsewhere path below).trans (seen path below)

include holds tree present complete admitted in
theorem stays_complete (other : Str) (uploadId : Str) (parts : List Int)
    (aims : (Replacement.complete uploadId parts).Aims store bucket key) :
    staysAt storage bucket encoded
      (WriteStage crates storage s store bucket key encoded (.complete uploadId parts))
      (completeMultipartUpload crates storage other key uploadId parts) (fun _ _ _ => True) [] s := by
  obtain ⟨upload, staged, rfl, rfl⟩ := aims
  have valid := (holds.sound.buckets upload.record.bucket old present).valid
  have uuid := (holds.sound.uploads uploadId upload staged).1
  have idle : WriteStage crates storage s store upload.record.bucket upload.record.key encoded
      (.complete uploadId parts) ⟨[], false, false⟩ s := .idle (becomes_same s)
  have leads := upload_leads storage (.inr (uuid_is_name uuid))
  obtain ⟨_, sidecars⟩ := Option.isSome_iff_exists.mp complete.sidecars
  have grounded : Grounded s (storage.objectsDir upload.record.bucket) := by
    obtain ⟨_, _, _, slash, _⟩ := name_parts (bucket_is_name valid)
    have dots : '/' ∉ objectsName := by decide
    apply grounded_above (locate_objects holds valid present) (look_objects holds valid present)
    rw [FsStorage.objectsDir, parent_join _ dots]
    apply grounded_above (locate_bucket holds valid) (by simp [look_bucket holds valid, present])
    rw [FsStorage.bucketPath, parent_join _ slash]
    exact grounded_base tree (look_root holds)
  have record : fileContents s ((storage.uploadDir uploadId).join multipartJsonName) =
      .ok (crates.multipartMeta.encode upload.record) := by
    rw [contents_record holds uuid, staged]
  unfold completeMultipartUpload
  apply throughout_bind
  apply throughout_mono (stays_readJson record rfl idle)
  rintro outcome later after _ ⟨same, rfl, whole⟩
  cases outcome with
  | error e => trivial
  | ok found =>
  obtain rfl := whole found rfl
  show throughout _ _ (ioOp (createDirAll (storage.objectsDir upload.record.bucket)) >>= _) _ _ _
  unfold ioOp
  rw [Prog.bind_assoc]
  apply throughout_bind
  apply throughout_attempt
  apply throughout_mono (stays_createDirUpTo _ grounded same idle)
  rintro outcome later made _ ⟨same, rfl⟩
  cases outcome with
  | error e => exact ⟨stage_at same idle, trivial⟩
  | ok _ =>
  apply stays_lift same idle (fun _ => trivial)
  intro name own
  obtain rfl := Except.ok.inj (admitted.symm.trans own)
  apply stays_body holds tree present complete admitted
    (fun file => assemble_careful (storage.uploadDir uploadId) _ .new 0) _ _ same
  · exact fun value content => value = (⟨content⟩, content.length)
  · intro name value mid temp absent run
    have elsewhere : ∀ n, n :: uploadId :: uploadsName :: storage.dataRoot ≠
        name :: objectsPlace storage upload.record.bucket := by
      intro n same
      simp only [objectsPlace, List.cons.injEq] at same
      exact bucket_not_uploads valid same.2.2.1.symm
    have filled := assembled_filled holds uuid staged elsewhere (parts.insertionSort (· ≤ ·)) .new 0 [] _
      (staged_newFile absent) (by simp : (made.newFile _).node _ = some (.file made.nextInode))
    obtain ⟨body, joined, rfl, whole⟩ := wp_runs filled run value rfl
    refine ⟨body, by simp [Replacement.content, staged, joined], ?_, whole⟩
    simp [EtagHasher.update, EtagHasher.new]
  · rintro value content mid later nonempty own rfl becomes same
    apply stays_quiet rfl same (.placed nonempty own becomes (.inl (becomes_same mid)))
    intro time last same _
    have record : (Replacement.complete uploadId parts).record crates store upload.record.key content time =
        ⟨upload.record.key, content.length, upload.record.contentType.getD defaultContentType,
          EtagHasher.finalize crates ⟨content⟩ ++
            '-' :: (toString (parts.insertionSort (· ≤ ·)).length).toList, time⟩ := by
      simp [Replacement.record, staged, hexMd5, EtagHasher.finalize]
    show throughout _ _ (writeSidecar crates (storage.metaPath upload.record.bucket encoded)
      ⟨upload.record.key, content.length, upload.record.contentType.getD defaultContentType,
        EtagHasher.finalize crates ⟨content⟩ ++
          '-' :: (toString (parts.insertionSort (· ≤ ·)).length).toList, time⟩ >>= _) _ _ _
    rw [← record]
    apply stays_record holds tree present complete admitted nonempty own becomes _ same
    intro final after stage same
    -- What is left to do is to remove the staging directory.
    apply throughout_bind
    apply throughout_attempt
    apply throughout_mono (stays_removeDirAll rfl
      (fun _ stage => (stage_ground holds tree present sidecars stage).1)
      (fun _ _ stage inside empty => done_drop valid stage inside empty) leads.dir same stage)
    rintro outcome later after _ ⟨same, stage⟩
    exact ⟨stage_at same stage, trivial⟩

/-- For a key that is refused no reader gets as far as to find nothing. -/
theorem refused_unread {e : StorageError} (valid : validateBucketName bucket = .ok ())
    (refused : encodeKey key = .error e) (seen : Option (ObjectMeta × Bytes)) :
    ¬ Reads crates storage t bucket key seen := by
  intro reads
  have looked : wp faultFree (headObject crates storage bucket key)
      (fun outcome _ => outcome = .error e) t := by
    simp only [headObject, lift, Prog.ofExcept, valid, refused, Prog.done_bind, Prog.fail_bind, wp_fail]
  obtain ⟨outcome, after, run, _, found⟩ := wp_returns reads.head
  obtain rfl := wp_runs looked run
  cases seen with
  | none =>
      obtain ⟨text, same⟩ := found
      obtain rfl := Except.error.inj same
      simp only [encodeKey] at refused
      split_ifs at refused <;> cases refused
  | some version => cases found

theorem record_key (crates : Crates) (store : Store) (key : Str) (body : Bytes) (time : Nat) :
    (replacement.record crates store key body time).key = key := by
  cases replacement <;> rfl

/-- A call that gives a key a new version is all or nothing wherever it stops, whether it is cut
off there or any of its calls have failed, if and only if the name of the record is not too
long, no temporary file is left among the bodies, and the body is not in place without its
record, unless nobody can tell. -/
theorem cut_short_whole_iff (holds : Holds crates storage s store) (tree : s.Tree)
    (present : store.buckets.lookup bucket = some old) (complete : old.Complete s.nameMax)
    (filed : old.Named) (paired : ∀ encoded, encodeKey key = .ok encoded → old.PairedAt encoded)
    (aims : replacement.Aims store bucket key) {rest : Op ObjectMeta}
    (begun : Program.Begun faulty (replacement.program crates storage bucket key) s events rest t) :
    AllOrNothing crates storage bucket key (old.version s.nameMax key)
        (replacement.Writes crates store key) old.Stores t ↔
      ∃ encoded, encodeKey key = .ok encoded ∧
        exceeds s.nameMax (FsStorage.sidecarName encoded) = false ∧
        (headwayOf storage bucket encoded events).Whole
          (replacement.Repeats crates store key (old.version s.nameMax key)) := by
  have valid := (holds.sound.buckets bucket old present).valid
  cases admitted : encodeKey key with
  | error e =>
      constructor
      · rintro ⟨⟨seen, _, reads⟩, _⟩
        exact absurd reads (refused_unread valid admitted seen)
      · rintro ⟨_, ⟨⟩, _⟩
  | ok encoded =>
      have stages : staysAt storage bucket encoded
          (WriteStage crates storage s store bucket key encoded replacement)
          (replacement.program crates storage bucket key) (fun _ _ _ => True) [] s := by
        cases replacement with
        | put body contentType => exact stays_put holds tree present complete admitted body contentType
        | complete uploadId parts =>
            exact stays_complete holds tree present complete admitted bucket uploadId parts aims
      have stage := throughout_begun stages begun
      rw [stage_whole_iff holds tree present complete (paired encoded admitted) admitted filed
        (record_key crates store key) stage]
      constructor
      · rintro ⟨short, whole⟩
        exact ⟨encoded, rfl, short, whole⟩
      · rintro ⟨_, ⟨⟩, short, whole⟩
        exact ⟨short, whole⟩

end Stopping
/-! ### A put to an empty bucket -/

section Photos

theorem fresh_pairedAt (info : BucketInfo) (encoded : Str) : (Bucket.fresh info).PairedAt encoded :=
  fun sidecars objectMeta => fresh_paired info sidecars encoded objectMeta

/-- Cut off when it has looked for the bucket it has changed nothing. -/
theorem cut_short_whole_photos :
    AllOrNothing Crates.reference Reference.storage Reference.bucket ['a'] none
      ((Replacement.put [] none).Writes Crates.reference
        (Store.empty.setBucket Reference.bucket (.fresh Reference.info)) ['a'])
      (Bucket.fresh Reference.info).Stores Reference.bucketDisk := by
  have admitted : encodeKey ['a'] = .ok ['a'] := by decide
  have valid : validateBucketName Reference.bucket = .ok () := by decide
  have there : Reference.bucketDisk.exists (Reference.storage.bucketPath Reference.bucket) = true := rfl
  have begun : ∃ rest, Program.Begun faulty ((Replacement.put [] none).program Crates.reference Reference.storage
      Reference.bucket ['a']) Reference.bucketDisk
      [⟨.exists (Reference.storage.bucketPath Reference.bucket), true⟩] rest Reference.bucketDisk := by
    unfold Replacement.program putObject
    rw [valid]
    exact ⟨_, .step (faulty_good ⟨{}, congrArg some (Prod.ext there rfl)⟩) (.here _ _)⟩
  obtain ⟨rest, begun⟩ := begun
  have aims : (Replacement.put [] none).Aims
      (Store.empty.setBucket Reference.bucket (.fresh Reference.info)) Reference.bucket ['a'] := trivial
  apply (cut_short_whole_iff Reference.bucketDisk_holds Reference.bucketDisk_tree (Finmap.lookup_insert _)
    (fresh_complete none Reference.info) (named_fresh Reference.info)
    (fun encoded _ => fresh_pairedAt Reference.info encoded) aims begun).mpr
  exact ⟨['a'], admitted, rfl, rfl, nofun⟩

/-- Cut off between its two renames it has left a body that no listing gets past. -/
theorem cut_short_not_whole : ∃ events rest t,
    Program.Begun faulty ((Replacement.put [] none).program Crates.reference Reference.storage Reference.bucket ['a'])
      Reference.bucketDisk events rest t ∧
    ¬ AllOrNothing Crates.reference Reference.storage Reference.bucket ['a'] none
      ((Replacement.put [] none).Writes Crates.reference
        (Store.empty.setBucket Reference.bucket (.fresh Reference.info)) ['a'])
      (Bucket.fresh Reference.info).Stores t := by
  have admitted : encodeKey ['a'] = .ok ['a'] := by decide
  have valid : validateBucketName Reference.bucket = .ok () := by decide
  have holds := Reference.bucketDisk_holds
  have present : (Store.empty.setBucket Reference.bucket (.fresh Reference.info)).buckets.lookup
      Reference.bucket = some (.fresh Reference.info) := Finmap.lookup_insert _
  have first : wp faultFree (putBody Crates.reference Reference.storage Reference.bucket ['a'] [])
      (fun outcome after => (∃ written, outcome = .ok written) ∧ Becomes Reference.bucketDisk
        (withBody Reference.storage Reference.bucketDisk Reference.bucket ['a'] []) after)
      Reference.bucketDisk := by
    simp only [putBody, Prog.send_bind, wp_exists, FS.exists_located (locate_bucket holds valid),
      look_bucket holds valid, present]
    apply wp_writeObjectBody (roomy_objects holds valid present)
      (locate_object_of_key holds valid present admitted (List.cons_ne_nil _ _))
    · rintro e after ⟨⟩
    · intro after _ inside
      exact absurd inside (object_not_dir holds valid present ['a'])
    · intro after _ _ becomes
      exact ⟨⟨_, rfl⟩, becomes⟩
  obtain ⟨_, t, run, ⟨written, rfl⟩, becomes⟩ := wp_returns first
  obtain ⟨events, run⟩ := traced_of_runs (fun _ _ _ _ step => faulty_good step) run
  refine ⟨events, putRecord Crates.reference Reference.storage Reference.bucket ['a'] ['a'] none written, t,
    ?_, ?_⟩
  · show Program.Begun faulty (putObject Crates.reference Reference.storage Reference.bucket ['a'] [] none) _ _ _ _
    rw [put_halves Crates.reference Reference.storage [] none valid admitted]
    exact traced_begun run
  · intro whole
    have own : (Replacement.put [] none).content
        (Store.empty.setBucket Reference.bucket (.fresh Reference.info)) = some [] := rfl
    obtain ⟨version, body, old, _⟩ := (placed_whole_iff holds Reference.bucketDisk_tree present
      (fresh_complete none Reference.info) (fresh_pairedAt Reference.info ['a']) admitted
      (List.cons_ne_nil _ _) own rfl becomes (.inl (becomes_same t))).mp whole
    cases old

end Photos
end Ferrobucket
