import Ferrobucket.Confinement
/-! Where the paths of objects and sidecars lead. A checked bucket name and an encoded
key are each one component of a path, so the path stays below the bucket, and its parts
can be read off again from where it leads. -/
namespace Ferrobucket
open Text Posix

/-- The path leads there by its text, and nowhere else on any file system. -/
structure LeadsTo (path : PathBuf) (found : Path) : Prop where
  text : resolve path.base path.rel = found
  only : ∀ (s : FS) (other : Path), s.locate path = .ok other → other = found

/-- A place that the storage keeps for itself: a temporary file, the record of a bucket, or
what is staged for an upload. -/
def Reserved (storage : FsStorage) (found : Path) : Prop :=
  (∃ name dir, found = name :: dir ∧ ".tmp".toList <+: name) ∨
    (∃ dir, found = bucketJsonName :: dir) ∨ uploadsName :: storage.dataRoot <:+ found

section Leading

theorem resolve_names (here : Path) {parts : List Str} (names : ∀ part ∈ parts, isName part = true) :
    resolve here parts = parts.reverse ++ here := by
  induction parts generalizing here with
  | nil => rfl
  | cons part rest ih =>
      obtain ⟨nonempty, dot, dots, _⟩ := name_parts (names part List.mem_cons_self)
      have later := ih (part :: here) fun other member => names other (List.mem_cons_of_mem part member)
      simp [resolve, nonempty, dot, dots, later]

theorem leads_names {path : PathBuf} (names : ∀ part ∈ path.rel, isName part = true) :
    LeadsTo path (path.rel.reverse ++ path.base) :=
  ⟨resolve_names path.base names, fun _ _ located => FS.locate_names names located⟩

/-- One more component leads one level down. -/
theorem leads_join {path : PathBuf} (names : ∀ part ∈ path.rel, isName part = true) {name : Str}
    (good : isName name = true) :
    (∀ part ∈ (path.join name).rel, isName part = true) ∧
      (path.join name).rel.reverse ++ (path.join name).base =
        name :: (path.rel.reverse ++ path.base) := by
  obtain ⟨_, _, _, slash, _⟩ := name_parts good
  rw [join_name path slash]
  refine ⟨?_, by simp⟩
  intro part member
  rcases List.mem_append.mp member with before | last
  · exact names part before
  · rw [List.mem_singleton.mp last]
    exact good

theorem leads_unique {path : PathBuf} {first second : Path} (left : LeadsTo path first)
    (right : LeadsTo path second) : first = second :=
  left.text.symm.trans right.text

end Leading

section Places
variable (storage : FsStorage) {bucket key encoded : Str}

theorem leads_bucket (valid : validateBucketName bucket = .ok ()) :
    (∀ part ∈ (storage.bucketPath bucket).rel, isName part = true) ∧
      (storage.bucketPath bucket).rel.reverse ++ (storage.bucketPath bucket).base =
        bucket :: storage.dataRoot := by
  have root : ∀ part ∈ storage.rootPath.rel, isName part = true := by simp [FsStorage.rootPath]
  exact leads_join root (bucket_is_name valid)

/-- A file of a directory of the bucket. -/
theorem leads_inside (valid : validateBucketName bucket = .ok ()) {top name : Str}
    (above : isName top = true) (good : isName name = true) :
    LeadsTo (((storage.bucketPath bucket).join top).join name)
      (name :: top :: bucket :: storage.dataRoot) := by
  obtain ⟨names, place⟩ := leads_bucket storage valid
  obtain ⟨names, inner⟩ := leads_join names above
  obtain ⟨names, last⟩ := leads_join names good
  have leads := leads_names names
  rw [last, inner, place] at leads
  exact leads

theorem leads_object (valid : validateBucketName bucket = .ok ()) (object : IsObjectName encoded) :
    LeadsTo (storage.objectPath bucket encoded)
      (encoded :: objectsName :: bucket :: storage.dataRoot) :=
  leads_inside storage valid (by decide) (object_is_name object)

theorem leads_sidecar (valid : validateBucketName bucket = .ok ())
    (admitted : encodeKey key = .ok encoded) :
    LeadsTo (storage.metaPath bucket encoded)
      (FsStorage.sidecarName encoded :: metaName :: bucket :: storage.dataRoot) :=
  leads_inside storage valid (by decide) (encoded_sidecar_is_name admitted)

/-- A name that starts with no dot, below a bucket, is not reserved. -/
theorem not_reserved (valid : validateBucketName bucket = .ok ()) {top name : Str}
    (plain : name.head? ≠ some '.') :
    ¬ Reserved storage (name :: top :: bucket :: storage.dataRoot) := by
  rintro (⟨temp, dir, same, ⟨rest, whole⟩⟩ | ⟨dir, same⟩ | staged)
  · obtain rfl := (List.cons.inj same).1
    rw [← whole] at plain
    exact plain rfl
  · obtain rfl := (List.cons.inj same).1
    exact plain rfl
  · have inside : uploadsName :: storage.dataRoot <:+ bucket :: storage.dataRoot := by
      apply List.suffix_of_suffix_length_le staged (List.suffix_append [name, top] _)
      simp
    have same := inside.eq_of_length (by simp)
    exact bucket_not_uploads valid (List.cons.inj same).1.symm

end Places

/-- Objects and sidecars lie in the directories of their own bucket, each in a place of its
own, and never where the storage keeps anything else. -/
theorem object_paths_confined (storage : FsStorage) :
    (∀ bucket, validateBucketName bucket = .ok () →
      LeadsTo (storage.bucketPath bucket) (bucket :: storage.dataRoot) ∧ bucket ≠ uploadsName) ∧
    (∀ bucket key encoded, validateBucketName bucket = .ok () → key ≠ [] →
      encodeKey key = .ok encoded →
      (∃ name, LeadsTo (storage.objectPath bucket encoded)
        (name :: objectsName :: bucket :: storage.dataRoot)) ∧
      (∃ name, LeadsTo (storage.metaPath bucket encoded)
        (name :: metaName :: bucket :: storage.dataRoot)) ∧
      (∀ found, LeadsTo (storage.objectPath bucket encoded) found ∨
        LeadsTo (storage.metaPath bucket encoded) found → ¬ Reserved storage found)) ∧
    ∀ bucket other key otherKey encoded otherEncoded found, validateBucketName bucket = .ok () →
      validateBucketName other = .ok () → key ≠ [] → otherKey ≠ [] →
      encodeKey key = .ok encoded → encodeKey otherKey = .ok otherEncoded →
      (LeadsTo (storage.objectPath bucket encoded) found →
        LeadsTo (storage.objectPath other otherEncoded) found → bucket = other ∧ key = otherKey) ∧
      (LeadsTo (storage.metaPath bucket encoded) found →
        LeadsTo (storage.metaPath other otherEncoded) found → bucket = other ∧ key = otherKey) ∧
      ¬ (LeadsTo (storage.objectPath bucket encoded) found ∧
        LeadsTo (storage.metaPath other otherEncoded) found) := by
  refine ⟨?_, ?_, ?_⟩
  · intro bucket valid
    obtain ⟨names, place⟩ := leads_bucket storage valid
    have leads := leads_names names
    rw [place] at leads
    exact ⟨leads, bucket_not_uploads valid⟩
  · intro bucket key encoded valid nonempty admitted
    have object : IsObjectName encoded := ⟨key, nonempty, admitted⟩
    have body := leads_object storage valid object
    have record := leads_sidecar storage valid admitted
    refine ⟨⟨encoded, body⟩, ⟨_, record⟩, ?_⟩
    rintro found (here | here)
    · rw [leads_unique here body]
      exact not_reserved storage valid (object_head object)
    · rw [leads_unique here record]
      exact not_reserved storage valid (sidecar_head object)
  · intro bucket other key otherKey encoded otherEncoded found valid otherValid nonempty otherNonempty
      admitted otherAdmitted
    have body := leads_object storage valid ⟨key, nonempty, admitted⟩
    have otherBody := leads_object storage otherValid
      ⟨otherKey, otherNonempty, otherAdmitted⟩
    have record := leads_sidecar storage valid admitted
    have otherRecord := leads_sidecar storage otherValid otherAdmitted
    refine ⟨?_, ?_, ?_⟩
    · intro here there
      have same := (leads_unique here body).symm.trans (leads_unique there otherBody)
      simp only [List.cons.injEq, and_true, true_and] at same
      obtain ⟨rfl, rfl⟩ := same
      exact ⟨rfl, encode_key_injective admitted otherAdmitted⟩
    · intro here there
      have same := (leads_unique here record).symm.trans (leads_unique there otherRecord)
      simp only [List.cons.injEq, and_true, true_and] at same
      obtain ⟨names, rfl⟩ := same
      obtain rfl := sidecar_injective names
      exact ⟨rfl, encode_key_injective admitted otherAdmitted⟩
    · rintro ⟨here, there⟩
      have same := (leads_unique here body).symm.trans (leads_unique there otherRecord)
      simp only [List.cons.injEq] at same
      exact objects_not_meta same.2.1

end Ferrobucket
