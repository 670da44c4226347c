import Ferrobucket.ListingLoop
/-! What the store is for: a map from buckets to maps from keys to bytes and a content
type. Every command of a client is answered as the map would answer it. -/
namespace Ferrobucket
open Text Posix Program

/-- The objects of a bucket: for each key its bytes and its content type. -/
abbrev Objects := Names (Bytes × Str)

abbrev MapStore := Names Objects

/-- The case of an error, without its text. -/
inductive Variant where
  | NoSuchBucket
  | NoSuchKey
  | BucketNotEmpty
  | BucketAlreadyExists
  | InvalidBucketName
  | KeyTooLong
  | InvalidKey
  | InvalidContinuationToken
  | RangeNotSatisfiable
  | NoSuchUpload
  | InvalidPartNumber
  | Io
  deriving DecidableEq

def StorageError.variant : StorageError → Variant
  | .NoSuchBucket _ => .NoSuchBucket
  | .NoSuchKey _ => .NoSuchKey
  | .BucketNotEmpty _ => .BucketNotEmpty
  | .BucketAlreadyExists _ => .BucketAlreadyExists
  | .InvalidBucketName _ => .InvalidBucketName
  | .KeyTooLong _ => .KeyTooLong
  | .InvalidKey => .InvalidKey
  | .InvalidContinuationToken => .InvalidContinuationToken
  | .RangeNotSatisfiable => .RangeNotSatisfiable
  | .NoSuchUpload _ => .NoSuchUpload
  | .InvalidPartNumber _ => .InvalidPartNumber
  | .Io _ => .Io

/-- The metadata of an object without its time. -/
structure Record where
  key : Str
  size : Nat
  contentType : Str
  etag : Str
  deriving DecidableEq

def ObjectMeta.record (objectMeta : ObjectMeta) : Record :=
  ⟨objectMeta.key, objectMeta.size, objectMeta.contentType, objectMeta.etag⟩

def Record.of (crates : Crates) (key : Str) (value : Bytes × Str) : Record :=
  ⟨key, value.1.length, value.2, hexMd5 crates value.1⟩

abbrev ObjectKey := { key : Str // key ≠ [] }

inductive Command where
  | createBucket (name : Str)
  | deleteBucket (name : Str)
  | putObject (bucket : Str) (key : ObjectKey) (chunks : List Bytes) (contentType : Option Str)
  | getObject (bucket : Str) (key : ObjectKey)
  | headObject (bucket : Str) (key : ObjectKey)
  | deleteObject (bucket : Str) (key : ObjectKey)
  | listBuckets
  | listObjects (bucket : Str) (pfx : Option Str) (maxKeys : Option Nat)

inductive Answer where
  | done
  | object (record : Record)
  | content (record : Record) (bytes : Bytes)
  | buckets (names : Multiset Str)
  | objects (records : List Record)
  | unfinished
  | refused (variant : Variant)

section Concrete
variable (crates : Crates) (storage : FsStorage) (patience : Nat)

def answer {Value : Type} (call : Op Value) (shown : Value → Answer) : Op Answer := do
  match ← (call.attempt : Op (Except StorageError Value)) with
  | .ok value => pure (shown value)
  | .error e => pure (.refused e.variant)

/-- A command on the file system, and what the client sees of it. -/
def serve : Command → Op Answer
  | .createBucket name => answer (createBucket crates storage name) fun _ => .done
  | .deleteBucket name => answer (deleteBucket storage name) fun _ => .done
  | .putObject bucket key chunks contentType =>
      answer (putObject crates storage bucket key (chunks.map .ok) contentType) fun objectMeta =>
        .object objectMeta.record
  | .getObject bucket key =>
      answer (fetchObject crates storage bucket key) fun found => .content found.1.record found.2
  | .headObject bucket key =>
      answer (headObject crates storage bucket key) fun objectMeta => .object objectMeta.record
  | .deleteObject bucket key => answer (deleteObject storage bucket key) fun _ => .done
  | .listBuckets =>
      answer (listBuckets crates storage) fun infos =>
        .buckets (infos.map BucketInfo.name : List Str)
  | .listObjects bucket pfx maxKeys =>
      answer (listAll crates storage bucket patience ⟨pfx, none, none, maxKeys⟩) fun pages =>
        match pages with
        | none => .unfinished
        | some pages => .objects ((pages.flatMap ListV2Res.objects).map ObjectMeta.record)

end Concrete

/-! ### The map -/

section Abstract
variable (crates : Crates) (model : MapStore)

/-- The records of the keys with a prefix, in order. -/
def Objects.listed (objects : Objects) (pfx : Option Str) : List Record :=
  ((objects.keys.sort (· ≤ ·)).filter fun key => startsWith key (pfx.getD [])).filterMap fun key =>
    (objects.lookup key).map (Record.of crates key)

/-- Look up an object; a bucket that does not exist has none. -/
def MapStore.find (bucket key : Str) (shown : Bytes × Str → Answer) : Answer :=
  match validateBucketName bucket with
  | .error e => .refused e.variant
  | .ok () =>
  match encodeKey key with
  | .error e => .refused e.variant
  | .ok _ =>
  match (model.lookup bucket).bind fun objects => objects.lookup key with
  | none => .refused .NoSuchKey
  | some value => shown value

def MapStore.createBucket (name : Str) : Answer × MapStore :=
  match validateBucketName name with
  | .error e => (.refused e.variant, model)
  | .ok () =>
  match model.lookup name with
  | some _ => (.refused .BucketAlreadyExists, model)
  | none => (.done, model.insert name ∅)

def MapStore.deleteBucket (name : Str) : Answer × MapStore :=
  match validateBucketName name with
  | .error e => (.refused e.variant, model)
  | .ok () =>
  match model.lookup name with
  | none => (.refused .NoSuchBucket, model)
  | some objects =>
      if objects = ∅ then (.done, model.erase name) else (.refused .BucketNotEmpty, model)

def MapStore.putObject (bucket key : Str) (bytes : Bytes) (contentType : Str) : Answer × MapStore :=
  match validateBucketName bucket with
  | .error e => (.refused e.variant, model)
  | .ok () =>
  match model.lookup bucket with
  | none => (.refused .NoSuchBucket, model)
  | some objects =>
  match encodeKey key with
  | .error e => (.refused e.variant, model)
  | .ok _ =>
      (.object (.of crates key (bytes, contentType)),
        model.insert bucket (objects.insert key (bytes, contentType)))

def MapStore.deleteObject (bucket key : Str) : Answer × MapStore :=
  match validateBucketName bucket with
  | .error e => (.refused e.variant, model)
  | .ok () =>
  match encodeKey key with
  | .error e => (.refused e.variant, model)
  | .ok _ =>
  match model.lookup bucket with
  | none => (.refused .NoSuchKey, model)
  | some objects =>
      match objects.lookup key with
      | none => (.refused .NoSuchKey, model)
      | some _ => (.done, model.insert bucket (objects.erase key))

def MapStore.listObjects (bucket : Str) (pfx : Option Str) : Answer :=
  match validateBucketName bucket with
  | .error e => .refused e.variant
  | .ok () =>
  match model.lookup bucket with
  | none => .refused .NoSuchBucket
  | some objects => .objects (objects.listed crates pfx)

def MapStore.step : Command → MapStore → Answer × MapStore
  | .createBucket name, model => model.createBucket name
  | .deleteBucket name, model => model.deleteBucket name
  | .putObject bucket key chunks contentType, model =>
      model.putObject crates bucket key chunks.flatten (contentType.getD defaultContentType)
  | .getObject bucket key, model =>
      (model.find bucket key fun value => .content (.of crates key value) value.1, model)
  | .headObject bucket key, model =>
      (model.find bucket key fun value => .object (.of crates key value), model)
  | .deleteObject bucket key, model => model.deleteObject bucket key
  | .listBuckets, model => (.buckets model.keys.val, model)
  | .listObjects bucket pfx _, model => (model.listObjects crates bucket pfx, model)

end Abstract

/-- What the client sees of an outcome. -/
def reply {Value : Type} (shown : Value → Answer) : Except StorageError Value → Answer
  | .ok value => shown value
  | .error e => .refused e.variant

theorem wp_answer {Value : Type} {s : FS} {post : Except StorageError Answer → FS → Prop}
    (call : Op Value) (shown : Value → Answer) :
    wp faultFree (answer call shown) post s ↔
      wp faultFree call (fun outcome after => post (.ok (reply shown outcome)) after) s := by
  unfold answer
  rw [wp_bind, wp_attempt]
  constructor
  · intro holds
    apply wp_mono holds
    rintro (e | value) after satisfied
    · exact satisfied
    · exact satisfied
  · intro holds
    apply wp_mono holds
    rintro (e | value) after satisfied
    · exact satisfied
    · exact satisfied

/-! ### What relates a store to its map -/

section Relation
variable (crates : Crates)

/-- The body stored under a key. -/
def Bucket.bodyOf (bucket : Bucket) (key : Str) : Option Bytes :=
  (encodeKey key).toOption.bind fun encoded => bucket.objects.lookup encoded

/-- A bucket directory and the objects it stands for: for every key, the body and the
sidecar are those of the object, or both are absent. -/
structure Bucket.Represents (bucket : Bucket) (objects : Objects) : Prop where
  info : bucket.info.isSome = true
  sidecars : bucket.sidecars.isSome = true
  bodies : ∀ key, bucket.bodyOf key = (objects.lookup key).map Prod.fst
  records : ∀ key,
    (bucket.recordOf none key).map ObjectMeta.record = (objects.lookup key).map (Record.of crates key)

def Store.Represents (store : Store) (model : MapStore) : Prop :=
  ∀ name, Option.Rel (Bucket.Represents crates) (store.buckets.lookup name) (model.lookup name)

end Relation

section Facts
variable {crates : Crates} {storage : FsStorage} {store : Store} {model : MapStore} {bucket : Bucket}
  {objects : Objects} {name key : Str}

theorem stores_iff : bucket.Stores key ↔ (bucket.bodyOf key).isSome = true := by
  unfold Bucket.Stores Bucket.bodyOf
  cases encodeKey key with
  | error e => simp [Except.toOption]
  | ok encoded => simp [Except.toOption, Option.isSome_iff_exists]

theorem represents_none (represents : store.Represents crates model)
    (absent : store.buckets.lookup name = none) : model.lookup name = none := by
  have related := represents name
  rw [absent] at related
  cases found : model.lookup name with
  | none => rfl
  | some objects =>
      rw [found] at related
      cases related

theorem represents_some (represents : store.Represents crates model)
    (present : store.buckets.lookup name = some bucket) :
    ∃ objects, model.lookup name = some objects ∧ bucket.Represents crates objects := by
  have related := represents name
  rw [present] at related
  cases found : model.lookup name with
  | none =>
      rw [found] at related
      cases related
  | some objects =>
      rw [found] at related
      cases related with
      | some inside => exact ⟨objects, rfl, inside⟩

theorem represents_stores (represents : bucket.Represents crates objects) (key : Str) :
    bucket.Stores key ↔ key ∈ objects := by
  rw [stores_iff, represents.bodies, Option.isSome_map, Finmap.lookup_isSome]

theorem represents_empty (sound : bucket.Sound name) (represents : bucket.Represents crates objects) :
    bucket.objects = ∅ ↔ objects = ∅ := by
  rw [names_empty, names_empty]
  constructor
  · intro empty key
    have absent : bucket.bodyOf key = none := by
      unfold Bucket.bodyOf
      cases encodeKey key with
      | error e => rfl
      | ok encoded => exact empty encoded
    rw [represents.bodies, Option.map_eq_none_iff] at absent
    exact absent
  · intro empty encoded
    cases stored : bucket.objects.lookup encoded with
    | none => rfl
    | some body =>
        obtain ⟨key, _, admitted⟩ := sound.objects encoded body stored
        have found := represents.bodies key
        simp [Bucket.bodyOf, admitted, Except.toOption, stored, empty key] at found

/-- Every sidecar has its body. -/
theorem represents_paired (sound : store.Sound) (represents : store.Represents crates model) :
    store.Paired := by
  intro name bucket present sidecars encoded objectMeta kept found
  obtain ⟨own, object, same⟩ := (sound.buckets name bucket present).sidecars _ _ _ kept found
  obtain rfl := sidecar_injective same
  obtain ⟨key, _, admitted⟩ := object
  have record : bucket.recordOf none key = some objectMeta := by
    simp [Bucket.recordOf, admitted, Except.toOption, kept, exceeds, found]
  obtain ⟨objects, _, inside⟩ := represents_some represents present
  have records := inside.records key
  rw [record] at records
  cases value : objects.lookup key with
  | none => simp [value] at records
  | some pair =>
      have body := inside.bodies key
      rw [value] at body
      exact ⟨pair.1, by simpa [Bucket.bodyOf, admitted, Except.toOption] using body⟩

theorem represents_set (represents : store.Represents crates model)
    (inside : bucket.Represents crates objects) :
    (store.setBucket name bucket).Represents crates (model.insert name objects) := by
  intro other
  by_cases same : other = name
  · subst same
    simp only [Store.setBucket, Finmap.lookup_insert]
    exact .some inside
  · simp only [Store.setBucket, Finmap.lookup_insert_of_ne _ same]
    exact represents other

theorem represents_drop (represents : store.Represents crates model) :
    (store.dropBucket name).Represents crates (model.erase name) := by
  intro other
  by_cases same : other = name
  · subst same
    simp only [Store.dropBucket, Finmap.lookup_erase]
    exact .none
  · simp only [Store.dropBucket, Finmap.lookup_erase_ne same]
    exact represents other

theorem represents_fresh (info : BucketInfo) : (Bucket.fresh info).Represents crates ∅ := by
  refine ⟨rfl, rfl, ?_, ?_⟩
  · intro key
    unfold Bucket.bodyOf
    cases encodeKey key <;> simp [Except.toOption, Bucket.fresh]
  · intro key
    unfold Bucket.recordOf
    cases encodeKey key <;> simp [Except.toOption, Bucket.fresh]

theorem body_insert {sidecars : Names ObjectMeta} {encoded : Str} (content : Bytes)
    (objectMeta : ObjectMeta) (admitted : encodeKey key = .ok encoded) (other : Str) :
    (Store.storedBucket bucket sidecars encoded content objectMeta).bodyOf other =
      if other = key then some content else bucket.bodyOf other := by
  unfold Bucket.bodyOf Store.storedBucket
  by_cases same : other = key
  · subst same
    simp [admitted, Except.toOption]
  · rw [if_neg same]
    cases own : encodeKey other with
    | error e => rfl
    | ok name =>
        have different : name ≠ encoded := by
          rintro rfl
          exact same (encode_key_injective own admitted)
        simp [Except.toOption, Finmap.lookup_insert_of_ne _ different]

theorem represents_stored {sidecars : Names ObjectMeta} {encoded contentType : Str} (content : Bytes)
    {objectMeta : ObjectMeta} (represents : bucket.Represents crates objects)
    (kept : bucket.sidecars = some sidecars) (admitted : encodeKey key = .ok encoded)
    (shape : objectMeta.record = .of crates key (content, contentType)) :
    (Store.storedBucket bucket sidecars encoded content objectMeta).Represents crates
      (objects.insert key (content, contentType)) := by
  refine ⟨represents.info, rfl, ?_, ?_⟩
  · intro other
    rw [body_insert content objectMeta admitted]
    by_cases same : other = key
    · subst same
      simp
    · rw [if_neg same, Finmap.lookup_insert_of_ne _ same]
      exact represents.bodies other
  · intro other
    rw [record_insert content _ kept admitted rfl]
    by_cases same : other = key
    · subst same
      simp [shape]
    · rw [if_neg same, Finmap.lookup_insert_of_ne _ same]
      exact represents.records other

/-- The bucket after a deletion. -/
theorem represents_deleted {sidecars : Names ObjectMeta} {encoded : Str}
    (represents : bucket.Represents crates objects) (kept : bucket.sidecars = some sidecars)
    (admitted : encodeKey key = .ok encoded) :
    Bucket.Represents crates
      { bucket with
        objects := bucket.objects.erase encoded
        sidecars := some (sidecars.erase (FsStorage.sidecarName encoded)) }
      (objects.erase key) := by
  refine ⟨represents.info, rfl, ?_, ?_⟩
  · intro other
    by_cases same : other = key
    · subst same
      simp [Bucket.bodyOf, admitted, Except.toOption]
    · rw [Finmap.lookup_erase_ne same, ← represents.bodies]
      unfold Bucket.bodyOf
      cases own : encodeKey other with
      | error e => rfl
      | ok name =>
          have different : name ≠ encoded := by
            rintro rfl
            exact same (encode_key_injective own admitted)
          simp [Except.toOption, Finmap.lookup_erase_ne different]
  · intro other
    by_cases same : other = key
    · subst same
      simp [Bucket.recordOf, admitted, Except.toOption]
    · rw [Finmap.lookup_erase_ne same, ← represents.records]
      unfold Bucket.recordOf
      cases own : encodeKey other with
      | error e => rfl
      | ok name =>
          have different : FsStorage.sidecarName name ≠ FsStorage.sidecarName encoded := by
            intro clash
            obtain rfl := sidecar_injective clash
            exact same (encode_key_injective own admitted)
          simp [Except.toOption, kept, Finmap.lookup_erase_ne different]

end Facts

end Ferrobucket
