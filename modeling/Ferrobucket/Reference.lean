import Ferrobucket.Json
import Ferrobucket.Refinement
/-! One instance of the crates that storage is built on, and a disk that holds nothing but
an empty data root. Every store begins on such a disk. -/
namespace Ferrobucket
open Text Posix Program

/-- The MD5 digests of the two bodies that the examples store; no other body is digested. -/
def knownDigest (bytes : Bytes) : Bytes :=
  if bytes = utf8 "hello".toList then
    [93, 65, 64, 42, 188, 75, 42, 118, 185, 113, 157, 145, 16, 23, 197, 146]
  else [212, 29, 140, 217, 143, 0, 178, 4, 233, 128, 9, 152, 236, 248, 66, 126]

noncomputable def Crates.reference : Crates where
  md5 := knownDigest
  objectMeta := Json.codec Json.objectMeta Json.objectMeta_injective
  bucketInfo := Json.codec Json.bucketInfo Json.bucketInfo_injective
  multipartMeta := Json.codec Json.multipartMeta Json.multipartMeta_injective

/-- The data root is there and nothing is in it. -/
structure EmptyRoot (storage : FsStorage) (s : FS) : Prop where
  root : s.look storage.dataRoot = some .dir
  nothing : ∀ rel, rel ≠ [] → s.look (rel.reverse ++ storage.dataRoot) = none

theorem holds_empty (crates : Crates) {storage : FsStorage} {s : FS} (start : EmptyRoot storage s)
    (limit : s.nameMax = none ∨ s.nameMax = some 255) : Holds crates storage s .empty := by
  refine ⟨?_, ⟨?_, ?_⟩, limit, ?_⟩
  · funext rel
    cases rel with
    | nil => exact start.root
    | cons first inner =>
        have nothing := start.nothing (first :: inner) (List.cons_ne_nil _ _)
        unfold under
        rw [nothing]
        simp [Store.view, Store.empty]
  · intro name bucket present
    simp [Store.empty] at present
  · intro id upload present
    simp [Store.empty, Store.staged] at present
  · intro id upload present
    simp [Store.empty, Store.staged] at present

namespace Reference

def dataName : Str := "data".toList

def storage : FsStorage := ⟨[dataName]⟩

def bucket : Str := "photos".toList

def blank (nameMax : Option Nat) : FS where
  nodes := ∅
  data := fun _ => []
  nextInode := 0
  nameMax := nameMax
  issued := []
  fresh := by simp
  unlinked := by simp

/-- The disk with the directory `/data`. -/
def disk (nameMax : Option Nat) : FS := ((blank nameMax).mkdirAt []).mkdirAt [dataName]

theorem disk_empty (nameMax : Option Nat) : EmptyRoot storage (disk nameMax) := by
  have blank_look : ∀ path, (blank nameMax).look path = none := by simp [FS.look, FS.node, blank]
  constructor
  · simp [disk, storage]
  · intro rel below
    have longer : rel.reverse ++ [dataName] ≠ [dataName] := by
      intro same
      have lengths := congrArg List.length same
      simp [below] at lengths
    have inside : rel.reverse ++ [dataName] ≠ [] := by simp
    simp [disk, storage, longer, blank_look]

/-- Some run of `create_bucket` on the empty disk ends with the bucket made. -/
theorem bucket_stored (nameMax : Option Nat) (limit : nameMax = none ∨ nameMax = some 255) :
    ∃ s time, Runs faultFree (createBucket Crates.reference storage bucket) (disk nameMax) (.ok ()) s ∧
      s.nameMax = nameMax ∧ s.issued = [] ∧
      Holds Crates.reference storage s (Store.empty.setBucket bucket (.fresh ⟨bucket, time⟩)) := by
  have start := holds_empty Crates.reference (disk_empty nameMax) limit
  have made := wp_limited (create_refines start bucket)
  obtain ⟨outcome, s, run, ⟨time, rfl, holds, issued⟩, same⟩ := wp_returns made
  have valid : validateBucketName bucket = .ok () := by decide
  have created : Store.createBucket .empty bucket time =
      (.ok (), Store.empty.setBucket bucket (.fresh ⟨bucket, time⟩)) := by
    simp [Store.createBucket, valid, Store.empty]
  rw [created] at run holds
  exact ⟨s, time, run, same, issued, holds⟩

theorem bucket_run (nameMax : Option Nat) (limit : nameMax = none ∨ nameMax = some 255) :
    ∃ s store info, Runs faultFree (createBucket Crates.reference storage bucket) (disk nameMax)
        (.ok ()) s ∧ s.nameMax = nameMax ∧ s.issued = [] ∧ Holds Crates.reference storage s store ∧
      store.staged = ∅ ∧ store.buckets.lookup bucket = some (.fresh info) := by
  obtain ⟨s, time, run, same, issued, holds⟩ := bucket_stored nameMax limit
  exact ⟨s, _, ⟨bucket, time⟩, run, same, issued, holds, rfl, Finmap.lookup_insert _⟩

theorem bucket_made (nameMax : Option Nat) (limit : nameMax = none ∨ nameMax = some 255) :
    ∃ s store info, s.nameMax = nameMax ∧ Holds Crates.reference storage s store ∧
      store.buckets.lookup bucket = some (.fresh info) := by
  obtain ⟨s, store, info, _, same, _, holds, _, present⟩ := bucket_run nameMax limit
  exact ⟨s, store, info, same, holds, present⟩

theorem disk_tree : (disk none).Tree := by
  have blank_look : ∀ path, (blank none).look path = none := by simp [FS.look, FS.node, blank]
  intro path below there
  by_cases data : path = [dataName]
  · subst data
    simp [disk]
  · simp [disk, data, below, blank_look] at there

/-! The same disk with the bucket on it, step by step. -/

def bucketDir : Path := bucket :: storage.dataRoot

def info : BucketInfo := ⟨bucket, 0⟩

/-- The directories of the bucket. -/
def bareDisk : FS :=
  (((disk none).mkdirAt bucketDir).mkdirAt (objectsName :: bucketDir)).mkdirAt (metaName :: bucketDir)

/-- The bucket is complete. -/
noncomputable def bucketDisk : FS :=
  (bareDisk.newFile (bucketJsonName :: bucketDir)).setData bareDisk.nextInode
    (Crates.reference.bucketInfo.encode info)

theorem bucketDisk_look : bucketDisk.look =
    Function.update (Function.update (Function.update (Function.update (disk none).look
      bucketDir (some .dir)) (objectsName :: bucketDir) (some .dir)) (metaName :: bucketDir) (some .dir))
      (bucketJsonName :: bucketDir) (some (.file (Crates.reference.bucketInfo.encode info))) := by
  have named : (bareDisk.newFile (bucketJsonName :: bucketDir)).node (bucketJsonName :: bucketDir) =
      some (.file bareDisk.nextInode) := by simp
  rw [bucketDisk, FS.look_setData _ named, FS.look_newFile, Function.update_idem]
  simp only [bareDisk, FS.look_mkdirAt]

theorem bucketDisk_holds : Holds Crates.reference storage bucketDisk
    (Store.empty.setBucket bucket (.fresh info)) := by
  have start := holds_empty Crates.reference (disk_empty none) (.inl rfl)
  have valid : validateBucketName bucket = .ok () := by decide
  refine ⟨?_, sound_setBucket start.sound (fresh_sound valid 0), .inl rfl, ?_⟩
  · rw [bucketDisk_look, view_fresh_bucket (bucket_not_uploads valid) info (by simp [Store.empty]),
      ← start.seen]
    simp only [bucketDir, under_update_one, under_update_two]
  · intro id upload present
    simp [Store.empty, Store.staged, Store.setBucket] at present

theorem bucketDisk_tree : bucketDisk.Tree := by
  have top : (disk none).look storage.dataRoot = some .dir := (disk_empty none).root
  have made : ((disk none).mkdirAt bucketDir).Tree :=
    FS.tree_added disk_tree (FS.look_mkdirAt _ _) top (fun _ => rfl)
  have objects : (((disk none).mkdirAt bucketDir).mkdirAt (objectsName :: bucketDir)).Tree :=
    FS.tree_added made (FS.look_mkdirAt _ _) (by simp) (fun _ => rfl)
  have bare : bareDisk.Tree := FS.tree_added objects (FS.look_mkdirAt _ _) (by simp) (fun _ => rfl)
  have absent : bareDisk.look (bucketJsonName :: bucketDir) = none := by
    have nothing := (disk_empty none).nothing [bucket, bucketJsonName] (by simp)
    simpa [bareDisk, bucketDir] using nothing
  apply FS.tree_setData
  exact FS.tree_added bare (FS.look_newFile _ _) (by simp [bareDisk]) (by simp [absent])

end Reference
end Ferrobucket
