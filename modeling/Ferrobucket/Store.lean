import Ferrobucket.Files
import Ferrobucket.Names
/-! What a store holds, free of paths and handles: buckets with their bodies and
sidecars, and uploads with their parts. `view` is the directory tree of a store, and
`Holds` says that the file system below the data root is exactly that tree. -/
namespace Ferrobucket
open Text Posix Program

/-- The files of one directory, by name. -/
abbrev Names (Value : Type) := Finmap fun _ : Str => Value

theorem names_empty {Value : Type} {names : Names Value} :
    names = ∅ ↔ ∀ n, names.lookup n = none := by
  constructor
  · rintro rfl n
    exact Finmap.lookup_empty n
  · intro absent
    apply Finmap.ext_lookup
    intro n
    rw [absent n, Finmap.lookup_empty]

/-- A bucket directory. The sidecar directory is missing when `complete` had to make
the directory of a bucket that was deleted. -/
structure Bucket where
  info : Option BucketInfo
  objects : Names Bytes
  sidecars : Option (Names ObjectMeta)

structure Upload where
  record : MultipartMeta
  parts : Names Bytes

structure Store where
  buckets : Names Bucket
  uploads : Option (Names Upload)

def Bucket.fresh (info : BucketInfo) : Bucket := ⟨some info, ∅, some ∅⟩

/-- The bucket that `create_dir_all(objects_dir)` leaves behind. -/
def Bucket.bare : Bucket := ⟨none, ∅, none⟩

namespace Store

def empty : Store := ⟨∅, none⟩

def setBucket (store : Store) (name : Str) (bucket : Bucket) : Store :=
  { store with buckets := store.buckets.insert name bucket }

def dropBucket (store : Store) (name : Str) : Store :=
  { store with buckets := store.buckets.erase name }

/-- The uploads, of which there are none before `.uploads` exists. -/
def staged (store : Store) : Names Upload := store.uploads.getD ∅

def setUpload (store : Store) (id : Str) (upload : Upload) : Store :=
  { store with uploads := some (store.staged.insert id upload) }

def dropUpload (store : Store) (id : Str) : Store :=
  { store with uploads := store.uploads.map fun uploads => uploads.erase id }

end Store

@[simp] theorem objects_not_json : objectsName ≠ bucketJsonName := by decide

@[simp] theorem meta_not_json : metaName ≠ bucketJsonName := by decide

@[simp] theorem meta_not_objects : metaName ≠ objectsName := by decide

@[simp] theorem objects_not_meta : objectsName ≠ metaName := by decide

@[simp] theorem json_not_objects : bucketJsonName ≠ objectsName := by decide

@[simp] theorem json_not_meta : bucketJsonName ≠ metaName := by decide

/-! ### The tree of a store -/

variable (crates : Crates)

def Bucket.view (bucket : Bucket) : List Str → Option FS.Entry
  | [] => some .dir
  | [top] =>
      if top = bucketJsonName then
        bucket.info.map fun info => .file (crates.bucketInfo.encode info)
      else if top = objectsName then some .dir
      else if top = metaName then bucket.sidecars.map fun _ => .dir
      else none
  | [top, name] =>
      if top = objectsName then (bucket.objects.lookup name).map .file
      else if top = metaName then
        (bucket.sidecars.bind fun sidecars => sidecars.lookup name).map fun objectMeta =>
          .file (crates.objectMeta.encode objectMeta)
      else none
  | _ => none

def Upload.view (upload : Upload) : List Str → Option FS.Entry
  | [] => some .dir
  | [name] =>
      if name = multipartJsonName then some (.file (crates.multipartMeta.encode upload.record))
      else (upload.parts.lookup name).map .file
  | _ => none

def Store.view (store : Store) : List Str → Option FS.Entry
  | [] => some .dir
  | first :: inner =>
      if first = uploadsName then
        match store.uploads, inner with
        | none, _ => none
        | some _, [] => some .dir
        | some uploads, id :: inside => (uploads.lookup id).bind fun upload => upload.view crates inside
      else (store.buckets.lookup first).bind fun bucket => bucket.view crates inner

/-! ### What every store satisfies -/

structure Bucket.Sound (name : Str) (bucket : Bucket) : Prop where
  valid : validateBucketName name = .ok ()
  named : ∀ info, bucket.info = some info → info.name = name
  objects : ∀ n body, bucket.objects.lookup n = some body → IsObjectName n
  sidecars : ∀ sidecars n objectMeta, bucket.sidecars = some sidecars →
    sidecars.lookup n = some objectMeta →
    ∃ encoded, IsObjectName encoded ∧ n = FsStorage.sidecarName encoded

/-- No sidecar without its body: what holds between calls, though not inside them. -/
def Bucket.Paired (bucket : Bucket) : Prop :=
  ∀ sidecars encoded objectMeta, bucket.sidecars = some sidecars →
    sidecars.lookup (FsStorage.sidecarName encoded) = some objectMeta →
    ∃ body, bucket.objects.lookup encoded = some body

structure Upload.Sound (upload : Upload) : Prop where
  valid : validateBucketName upload.record.bucket = .ok ()
  parts : ∀ n content, upload.parts.lookup n = some content → ∃ number, n = FsStorage.partName number

structure Store.Sound (store : Store) : Prop where
  buckets : ∀ name bucket, store.buckets.lookup name = some bucket → bucket.Sound name
  uploads : ∀ id upload, store.staged.lookup id = some upload → isUuid id = true ∧ upload.Sound

def Store.Paired (store : Store) : Prop :=
  ∀ name bucket, store.buckets.lookup name = some bucket → bucket.Paired

/-! ### A tree below a base -/

/-- The tree below `base`, outermost name first. -/
def under (base : Path) (look : Path → Option FS.Entry) (rel : List Str) : Option FS.Entry :=
  look (rel.reverse ++ base)

theorem under_update (base : Path) (look : Path → Option FS.Entry) (rel : List Str)
    (entry : Option FS.Entry) :
    under base (Function.update look (rel.reverse ++ base) entry) =
      Function.update (under base look) rel entry := by
  funext other
  unfold under
  by_cases same : other = rel
  · subst same
    simp
  · have different : other.reverse ++ base ≠ rel.reverse ++ base := by
      intro equal
      exact same (List.reverse_injective (List.append_cancel_right equal))
    simp [same, different]

theorem under_update_one (base : Path) (look : Path → Option FS.Entry) (first : Str)
    (entry : Option FS.Entry) :
    under base (Function.update look (first :: base) entry) =
      Function.update (under base look) [first] entry :=
  under_update base look [first] entry

theorem under_update_two (base : Path) (look : Path → Option FS.Entry) (first second : Str)
    (entry : Option FS.Entry) :
    under base (Function.update look (second :: first :: base) entry) =
      Function.update (under base look) [first, second] entry :=
  under_update base look [first, second] entry

theorem under_update_three (base : Path) (look : Path → Option FS.Entry) (first second third : Str)
    (entry : Option FS.Entry) :
    under base (Function.update look (third :: second :: first :: base) entry) =
      Function.update (under base look) [first, second, third] entry :=
  under_update base look [first, second, third] entry

/-- The file system below the data root is the tree of the store. -/
structure Holds (storage : FsStorage) (s : FS) (store : Store) : Prop where
  seen : under storage.dataRoot s.look = store.view crates
  sound : store.Sound
  limit : s.nameMax = none ∨ s.nameMax = some 255
  issued : ∀ id upload, store.staged.lookup id = some upload → id ∈ s.issued

/-! ### How the tree changes with the store -/

section Views
variable {crates : Crates} {store : Store} {name : Str}

theorem view_bucket {inner : List Str} (ordinary : name ≠ uploadsName) :
    store.view crates (name :: inner) =
      (store.buckets.lookup name).bind fun bucket => bucket.view crates inner := by
  simp [Store.view, ordinary]

theorem view_upload {uploads : Names Upload} {id : Str} {inside : List Str}
    (present : store.uploads = some uploads) :
    store.view crates (uploadsName :: id :: inside) =
      (uploads.lookup id).bind fun upload => upload.view crates inside := by
  simp [Store.view, present]

/-- Replacing a bucket changes only what lies below its name. -/
theorem view_setBucket {bucket : Bucket} (ordinary : name ≠ uploadsName) (rel : List Str) :
    (store.setBucket name bucket).view crates rel =
      if rel.head? = some name then bucket.view crates rel.tail else store.view crates rel := by
  cases rel with
  | nil => rfl
  | cons first inner =>
      by_cases same : first = name
      · subst same
        simp [view_bucket ordinary, Store.setBucket]
      · simp only [List.head?_cons, Option.some.injEq, same, if_false, Store.view]
        by_cases staging : first = uploadsName
        · simp only [staging, if_true]
          rfl
        · simp only [staging, if_false]
          simp [Store.setBucket, Finmap.lookup_insert_of_ne _ same]

theorem view_dropBucket (ordinary : name ≠ uploadsName) (rel : List Str) :
    (store.dropBucket name).view crates rel =
      if rel.head? = some name then none else store.view crates rel := by
  cases rel with
  | nil => rfl
  | cons first inner =>
      by_cases same : first = name
      · subst same
        simp [view_bucket ordinary, Store.dropBucket]
      · simp only [List.head?_cons, Option.some.injEq, same, if_false, Store.view]
        by_cases staging : first = uploadsName
        · simp only [staging, if_true]
          rfl
        · simp only [staging, if_false]
          simp [Store.dropBucket, Finmap.lookup_erase_ne same]

theorem view_change_bucket {old new : Bucket} {inner : List Str} {entry : Option FS.Entry}
    (ordinary : name ≠ uploadsName) (found : store.buckets.lookup name = some old)
    (changed : new.view crates = Function.update (old.view crates) inner entry) :
    (store.setBucket name new).view crates =
      Function.update (store.view crates) (name :: inner) entry := by
  funext rel
  rw [view_setBucket ordinary, changed]
  cases rel with
  | nil => simp
  | cons first rest =>
      by_cases same : first = name
      · subst same
        simp [Function.update_apply, view_bucket ordinary, found]
      · simp [same]

theorem view_insert_object (crates : Crates) (bucket : Bucket) (n : Str) (body : Bytes) :
    Bucket.view crates { bucket with objects := bucket.objects.insert n body } =
      Function.update (bucket.view crates) [objectsName, n] (some (.file body)) := by
  funext rel
  rcases rel with _ | ⟨top, _ | ⟨file, _ | ⟨more, deeper⟩⟩⟩
  · simp [Bucket.view]
  · simp [Bucket.view]
  · by_cases same : file = n
    · subst same
      by_cases objects : top = objectsName <;> simp [Bucket.view, objects]
    · simp [Bucket.view, same, Finmap.lookup_insert_of_ne _ same]
  · simp [Bucket.view]

theorem view_erase_object (crates : Crates) (bucket : Bucket) (n : Str) :
    Bucket.view crates { bucket with objects := bucket.objects.erase n } =
      Function.update (bucket.view crates) [objectsName, n] none := by
  funext rel
  rcases rel with _ | ⟨top, _ | ⟨file, _ | ⟨more, deeper⟩⟩⟩
  · simp [Bucket.view]
  · simp [Bucket.view]
  · by_cases same : file = n
    · subst same
      by_cases objects : top = objectsName <;> simp [Bucket.view, objects]
    · simp [Bucket.view, same, Finmap.lookup_erase_ne same]
  · simp [Bucket.view]

theorem view_insert_sidecar (crates : Crates) (bucket : Bucket) {sidecars : Names ObjectMeta}
    (n : Str) (objectMeta : ObjectMeta) (present : bucket.sidecars = some sidecars) :
    Bucket.view crates { bucket with sidecars := some (sidecars.insert n objectMeta) } =
      Function.update (bucket.view crates) [metaName, n]
        (some (.file (crates.objectMeta.encode objectMeta))) := by
  funext rel
  rcases rel with _ | ⟨top, _ | ⟨file, _ | ⟨more, deeper⟩⟩⟩
  · simp [Bucket.view]
  · simp [Bucket.view, present]
  · by_cases same : file = n
    · subst same
      by_cases sidecar : top = metaName
      · simp [Bucket.view, sidecar]
      · simp [Bucket.view, sidecar]
    · simp [Bucket.view, same, present, Finmap.lookup_insert_of_ne _ same]
  · simp [Bucket.view]

theorem view_erase_sidecar (crates : Crates) (bucket : Bucket) {sidecars : Names ObjectMeta}
    (n : Str) (present : bucket.sidecars = some sidecars) :
    Bucket.view crates { bucket with sidecars := some (sidecars.erase n) } =
      Function.update (bucket.view crates) [metaName, n] none := by
  funext rel
  rcases rel with _ | ⟨top, _ | ⟨file, _ | ⟨more, deeper⟩⟩⟩
  · simp [Bucket.view]
  · simp [Bucket.view, present]
  · by_cases same : file = n
    · subst same
      by_cases sidecar : top = metaName
      · simp [Bucket.view, sidecar]
      · simp [Bucket.view, sidecar]
    · simp [Bucket.view, same, present, Finmap.lookup_erase_ne same]
  · simp [Bucket.view]

/-- A new bucket is four entries. -/
theorem view_fresh_bucket (ordinary : name ≠ uploadsName) (info : BucketInfo)
    (absent : store.buckets.lookup name = none) :
    (store.setBucket name (.fresh info)).view crates =
      Function.update (Function.update (Function.update (Function.update (store.view crates)
        [name] (some .dir)) [name, objectsName] (some .dir)) [name, metaName] (some .dir))
        [name, bucketJsonName] (some (.file (crates.bucketInfo.encode info))) := by
  funext rel
  rw [view_setBucket ordinary]
  rcases rel with _ | ⟨first, _ | ⟨top, _ | ⟨file, deeper⟩⟩⟩
  · simp
  · by_cases same : first = name <;> simp [same, Bucket.view]
  · by_cases same : first = name
    · subst same
      by_cases json : top = bucketJsonName
      · simp [json, Bucket.view, Bucket.fresh]
      · by_cases objects : top = objectsName
        · simp [objects, Bucket.view]
        · by_cases sidecars : top = metaName
          · simp [sidecars, Bucket.view, Bucket.fresh]
          · simp [json, objects, sidecars, Bucket.view, view_bucket ordinary, absent]
    · simp [same]
  · by_cases same : first = name
    · subst same
      cases deeper with
      | nil =>
          by_cases objects : top = objectsName
          · simp [objects, Bucket.view, Bucket.fresh, view_bucket ordinary, absent]
          · by_cases sidecars : top = metaName
            · simp [sidecars, Bucket.view, Bucket.fresh, view_bucket ordinary, absent]
            · simp [objects, sidecars, Bucket.view, view_bucket ordinary, absent]
      | cons more deepest => simp [Bucket.view, view_bucket ordinary, absent]
    · simp [same]

/-- What `complete` makes of a bucket that is gone is two entries. -/
theorem view_bare_bucket (ordinary : name ≠ uploadsName)
    (absent : store.buckets.lookup name = none) :
    (store.setBucket name .bare).view crates =
      Function.update (Function.update (store.view crates) [name] (some .dir))
        [name, objectsName] (some .dir) := by
  funext rel
  rw [view_setBucket ordinary]
  rcases rel with _ | ⟨first, _ | ⟨top, _ | ⟨file, deeper⟩⟩⟩
  · simp
  · by_cases same : first = name <;> simp [same, Bucket.view]
  · by_cases same : first = name
    · subst same
      by_cases objects : top = objectsName
      · simp [objects, Bucket.view]
      · simp [objects, Bucket.view, Bucket.bare, view_bucket ordinary, absent]
    · simp [same]
  · by_cases same : first = name
    · subst same
      cases deeper with
      | nil => simp [Bucket.view, Bucket.bare, view_bucket ordinary, absent]
      | cons more deepest => simp [Bucket.view, view_bucket ordinary, absent]
    · simp [same]

/-- An empty bucket is gone with its three or four entries. -/
theorem view_drop_empty {bucket : Bucket} (ordinary : name ≠ uploadsName)
    (present : store.buckets.lookup name = some bucket) (objects : bucket.objects = ∅)
    (sidecars : ∀ kept, bucket.sidecars = some kept → kept = ∅) :
    (store.dropBucket name).view crates =
      Function.update (Function.update (Function.update (Function.update (store.view crates)
        [name, objectsName] none) [name, metaName] none) [name, bucketJsonName] none)
        [name] none := by
  funext rel
  rw [view_dropBucket ordinary]
  rcases rel with _ | ⟨first, _ | ⟨top, _ | ⟨file, deeper⟩⟩⟩
  · simp
  · by_cases same : first = name <;> simp [same]
  · by_cases same : first = name
    · subst same
      by_cases json : top = bucketJsonName
      · simp [json]
      · by_cases body : top = objectsName
        · simp [body]
        · by_cases sidecar : top = metaName
          · simp [sidecar]
          · simp [json, body, sidecar, view_bucket ordinary, present, Bucket.view]
    · simp [same]
  · by_cases same : first = name
    · subst same
      cases deeper with
      | nil =>
          cases kept : bucket.sidecars with
          | none => simp [view_bucket ordinary, present, Bucket.view, objects, kept]
          | some found =>
              have empty := sidecars found kept
              simp [view_bucket ordinary, present, Bucket.view, objects, kept, empty]
      | cons more deepest => simp [view_bucket ordinary, present, Bucket.view]
    · simp [same]

/-! The staging area. -/

theorem staged_some {id : Str} {upload : Upload} (present : store.staged.lookup id = some upload) :
    ∃ uploads, store.uploads = some uploads ∧ uploads.lookup id = some upload := by
  cases uploads : store.uploads with
  | none => simp [Store.staged, uploads] at present
  | some found => exact ⟨found, rfl, by simpa [Store.staged, uploads] using present⟩

theorem view_staged (id : Str) (inside : List Str) :
    store.view crates (uploadsName :: id :: inside) =
      (store.staged.lookup id).bind fun upload => upload.view crates inside := by
  cases uploads : store.uploads with
  | none => simp [Store.view, Store.staged, uploads]
  | some found => simp [Store.view, Store.staged, uploads]

theorem view_setUpload (id : Str) (upload : Upload) (rel : List Str) :
    (store.setUpload id upload).view crates rel =
      match rel with
      | [] => some .dir
      | first :: inner =>
          if first = uploadsName then
            match inner with
            | [] => some .dir
            | other :: inside =>
                if other = id then upload.view crates inside
                else store.view crates (uploadsName :: other :: inside)
          else store.view crates (first :: inner) := by
  cases rel with
  | nil => rfl
  | cons first inner =>
      by_cases staging : first = uploadsName
      · subst staging
        cases inner with
        | nil => simp [Store.view, Store.setUpload]
        | cons other inside =>
            rw [view_staged]
            by_cases same : other = id
            · subst same
              simp [Store.staged, Store.setUpload]
            · simp only [if_true, same, if_false]
              rw [view_staged]
              simp [Store.staged, Store.setUpload, Finmap.lookup_insert_of_ne _ same]
      · simp [Store.view, staging, Store.setUpload]

theorem view_change_upload {id : Str} {old new : Upload} {inner : List Str}
    {entry : Option FS.Entry} (present : store.staged.lookup id = some old)
    (changed : new.view crates = Function.update (old.view crates) inner entry) :
    (store.setUpload id new).view crates =
      Function.update (store.view crates) (uploadsName :: id :: inner) entry := by
  obtain ⟨uploads, exist, found⟩ := staged_some present
  funext rel
  rw [view_setUpload]
  rcases rel with _ | ⟨first, _ | ⟨other, inside⟩⟩
  · simp [Store.view]
  · by_cases staging : first = uploadsName
    · simp [staging, Store.view, exist]
    · simp [staging]
  · by_cases staging : first = uploadsName
    · subst staging
      by_cases same : other = id
      · subst same
        simp [changed, Function.update_apply, view_staged, present]
      · simp [same]
    · simp [staging]

/-- A new upload is its directory and its record; `.uploads` is made with the first. -/
theorem view_new_upload {id : Str} (record : MultipartMeta)
    (absent : store.staged.lookup id = none) :
    (store.setUpload id ⟨record, ∅⟩).view crates =
      Function.update (Function.update (Function.update (store.view crates)
        [uploadsName] (some .dir)) [uploadsName, id] (some .dir))
        [uploadsName, id, multipartJsonName] (some (.file (crates.multipartMeta.encode record))) := by
  funext rel
  rw [view_setUpload]
  rcases rel with _ | ⟨first, _ | ⟨other, inside⟩⟩
  · simp [Store.view]
  · by_cases staging : first = uploadsName <;> simp [staging]
  · by_cases staging : first = uploadsName
    · subst staging
      by_cases same : other = id
      · subst same
        rcases inside with _ | ⟨file, _ | ⟨more, deeper⟩⟩
        · simp [Upload.view]
        · by_cases json : file = multipartJsonName
          · simp [json, Upload.view]
          · simp [json, Upload.view, view_staged, absent]
        · simp [Upload.view, view_staged, absent]
      · simp [same]
    · simp [staging]

theorem view_insert_part (crates : Crates) (upload : Upload) {n : Str} (content : Bytes)
    (ordinary : n ≠ multipartJsonName) :
    Upload.view crates { upload with parts := upload.parts.insert n content } =
      Function.update (upload.view crates) [n] (some (.file content)) := by
  funext rel
  rcases rel with _ | ⟨file, _ | ⟨more, deeper⟩⟩
  · simp [Upload.view]
  · by_cases same : file = n
    · subst same
      simp [Upload.view, ordinary]
    · simp [Upload.view, same, Finmap.lookup_insert_of_ne _ same]
  · simp [Upload.view]

theorem staged_after_drop {id other : Str} {upload : Upload}
    (kept : (store.dropUpload id).staged.lookup other = some upload) :
    store.staged.lookup other = some upload := by
  cases uploads : store.uploads with
  | none => simp [Store.staged, Store.dropUpload, uploads] at kept
  | some staged =>
      by_cases same : other = id
      · subst same
        simp [Store.staged, Store.dropUpload, uploads] at kept
      · simpa [Store.staged, Store.dropUpload, uploads, Finmap.lookup_erase_ne same] using kept

theorem view_dropUpload (id : Str) (rel : List Str) :
    (store.dropUpload id).view crates rel =
      if [uploadsName, id] <+: rel then none else store.view crates rel := by
  rcases rel with _ | ⟨first, _ | ⟨other, inside⟩⟩
  · simp [Store.view]
  · by_cases staging : first = uploadsName
    · subst staging
      cases uploads : store.uploads <;> simp [Store.view, Store.dropUpload, uploads]
    · simp [Store.view, Store.dropUpload, staging]
  · by_cases staging : first = uploadsName
    · subst staging
      by_cases same : other = id
      · subst same
        cases uploads : store.uploads <;> simp [Store.view, Store.dropUpload, uploads]
      · have different : ¬ [uploadsName, id] <+: uploadsName :: other :: inside := by
          simp [Ne.symm same]
        cases uploads : store.uploads <;>
          simp [Store.view, Store.dropUpload, uploads, Finmap.lookup_erase_ne same, Ne.symm same]
    · simp [Store.view, Store.dropUpload, staging, Ne.symm staging]

end Views

theorem suffix_place {first second : List Str} {base : Path} :
    first.reverse ++ base <:+ second.reverse ++ base ↔ first <+: second := by
  constructor
  · rintro ⟨front, whole⟩
    rw [← List.append_assoc] at whole
    have same := congrArg List.reverse (List.append_cancel_right whole)
    simp only [List.reverse_append, List.reverse_reverse] at same
    exact ⟨front.reverse, same⟩
  · rintro ⟨rest, rfl⟩
    exact ⟨rest.reverse, by simp⟩



end Ferrobucket
