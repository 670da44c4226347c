import Ferrobucket.KeyNames
import Ferrobucket.KeyLimit
import Ferrobucket.BodyFaults
import Ferrobucket.ChangingListing
import Ferrobucket.Writers
/-! A temporary file among the bodies. Its name decodes to a key, so a listing that comes to it
looks for the record of that key: either there is none and the listing fails, or the key is
stored as well and the listing shows it twice. -/
namespace Ferrobucket
open Text Posix Program Grouping

section Copies
variable {Result : Type}

/-- Two members of a list with the same image are two copies in the list of images. -/
theorem images_twice {Member : Type} [DecidableEq Member] (decode : Member → Option Result)
    {order : List Member} {first second : Member} {image : Result} (left : first ∈ order)
    (right : second ∈ order) (different : first ≠ second) (one : decode first = some image)
    (other : decode second = some image) :
    ∃ rest, (order.filterMap decode).Perm (image :: image :: rest) := by
  have behind : second ∈ order.erase first := (List.mem_erase_of_ne different.symm).mpr right
  have whole : order.Perm (first :: second :: (order.erase first).erase second) :=
    (List.perm_cons_erase left).trans ((List.perm_cons_erase behind).cons first)
  refine ⟨((order.erase first).erase second).filterMap decode, ?_⟩
  have images := whole.filterMap decode
  simpa [one, other] using images

/-- A sorted list begins with its least member, as often as it has it. -/
theorem sorted_begins [LinearOrder Result] {sorted front rest : List Result} {least : Result}
    (ascending : sorted.Pairwise (· ≤ ·)) (below : ∀ value ∈ sorted, least ≤ value)
    (same : ∀ value ∈ front, value = least) (whole : sorted.Perm (front ++ rest)) :
    ∃ later, sorted = front ++ later := by
  refine ⟨rest.insertionSort (· ≤ ·), ?_⟩
  have arranged : sorted.Perm (front ++ rest.insertionSort (· ≤ ·)) :=
    whole.trans ((List.perm_insertionSort _ rest).symm.append_left front)
  apply List.Perm.eq_of_pairwise (fun _ _ _ _ => le_antisymm) ascending _ arranged
  apply List.pairwise_append.mpr
  refine ⟨?_, List.pairwise_insertionSort _ _, ?_⟩
  · apply List.pairwise_of_forall_mem_list
    intro left inLeft right inRight
    rw [same left inLeft, same right inRight]
  · intro left inLeft right inRight
    rw [same left inLeft]
    exact below right (arranged.symm.subset (List.mem_append_right front inRight))

end Copies

/-- Without a delimiter every key is an object of its own. -/
theorem plain_capped {req : ListV2Req} (plain : req.delimiter = none) (keys : List Str) :
    (capPage req keys).capped = (keys.take (effectiveMaxKeys req)).map Item.object := by
  have single : pageEntries req keys = keys.map Entry.single := by
    unfold pageEntries
    rw [plain]
    induction keys with
    | nil => rfl
    | cons key rest ih =>
        rw [entries_single rest rfl, ih]
        rfl
  rw [cap_page_eq, single, ← List.map_take, List.map_map]
  rfl

/-- Body and record are both there, or there is no record. -/
def Bucket.PairedAt (bucket : Bucket) (encoded : Str) : Prop :=
  ∀ sidecars objectMeta, bucket.sidecars = some sidecars →
    sidecars.lookup (FsStorage.sidecarName encoded) = some objectMeta →
    ∃ body, bucket.objects.lookup encoded = some body

/-- A page that begins with the name of a stray file: the record is shown twice, or it is one that
no body belongs to. -/
inductive StrayPage (bucket : Bucket) (name : Str) (page : ListV2Res) : Prop
  | twice {objectMeta : ObjectMeta} {later : List ObjectMeta}
      (objects : page.objects = objectMeta :: objectMeta :: later)
  | orphan {sidecars : Names ObjectMeta} {encoded : Str} {objectMeta : ObjectMeta} {later : List ObjectMeta}
      (objects : page.objects = objectMeta :: later) (admitted : encodeKey name = .ok encoded)
      (kept : bucket.sidecars = some sidecars)
      (record : sidecars.lookup (FsStorage.sidecarName encoded) = some objectMeta)
      (missing : bucket.objects.lookup encoded = none)

section Stray
variable {crates : Crates} {storage : FsStorage} {s t after : FS} {store : Store} {bucket : Str} {old : Bucket}

theorem runs_lift {Value Result : Type} {checked : Except StorageError Value} {rest : Value → Op Result}
    {result : Result} (run : Runs faultFree (lift checked >>= rest) t (.ok result) after) :
    ∃ value, checked = .ok value ∧ Runs faultFree (rest value) t (.ok result) after := by
  cases checked with
  | ok value => exact ⟨value, rfl, run⟩
  | error e => cases run

/-- A scan decodes the entries of the directory in the order that they come in. -/
theorem scan_order {scanned : List Str} {dir : Path}
    (located : t.locateDir (storage.objectsDir bucket) = .ok dir)
    (run : Runs faultFree (scanKeys storage bucket) t (.ok scanned) after) :
    after = t ∧ ∃ order : List Str, order.Nodup ∧ (∀ name, name ∈ order ↔ t.look (name :: dir) ≠ none) ∧
      scanned = order.filterMap fun name => (decodeKey name).toOption := by
  have all : wp faultFree (scanKeys storage bucket) (fun outcome after => after = t ∧
      ∃ order : List Str, order.Nodup ∧ (∀ name, name ∈ order ↔ t.look (name :: dir) ≠ none) ∧
        outcome = .ok (order.filterMap fun name => (decodeKey name).toOption)) t := by
    simp only [scanKeys, Prog.send_bind]
    apply wp_readDir located
    intro order distinct entries
    refine ⟨rfl, order, distinct, entries, ?_⟩
    rw [List.filterMap_map]
    rfl
  obtain ⟨same, order, distinct, entries, found⟩ := wp_runs all run
  exact ⟨same, order, distinct, entries, Except.ok.inj found⟩

theorem contents_found {path : PathBuf} {bytes : Bytes} (read : fileContents t path = .ok bytes) :
    ∃ found, t.locate path = .ok found ∧ t.look found = some (.file bytes) := by
  unfold fileContents FS.open at read
  cases located : t.locateFile path with
  | error e =>
      rw [located] at read
      cases read
  | ok file =>
      obtain ⟨found, inode⟩ := file
      rw [located] at read
      obtain ⟨place, named⟩ := FS.locateFile_found located
      exact ⟨found, place, FS.look_file.mpr ⟨inode, named, Except.ok.inj read⟩⟩

/-- What a record was read from, if it was read. -/
theorem record_read {path : PathBuf} {objectMeta : ObjectMeta}
    (run : Runs faultFree (readSidecar crates path) t (.ok objectMeta) after) :
    after = t ∧ readOutcome crates.objectMeta (.NoSuchKey path.display) (fileContents t path) =
      .ok objectMeta := by
  have all : wp faultFree (readSidecar crates path) (fun outcome after => after = t ∧
      outcome = readOutcome crates.objectMeta (.NoSuchKey path.display) (fileContents t path)) t :=
    (wp_readJson crates.objectMeta .NoSuchKey path _ t).mpr ⟨rfl, rfl⟩
  obtain ⟨same, found⟩ := wp_runs all run
  exact ⟨same, found.symm⟩

/-- The first object of a page has been read before the rest. -/
theorem output_first {key : Str} {rest : List Item} {objects : List ObjectMeta} {prefixes : List Str}
    (run : Runs faultFree (buildOutput crates storage bucket (.object key :: rest)) t
      (.ok (objects, prefixes)) after) :
    ∃ encoded objectMeta later, encodeKey key = .ok encoded ∧ objects = objectMeta :: later ∧
      readOutcome crates.objectMeta (.NoSuchKey (storage.metaPath bucket encoded).display)
        (fileContents t (storage.metaPath bucket encoded)) = .ok objectMeta ∧
      Runs faultFree (buildOutput crates storage bucket rest) t (.ok (later, prefixes)) after := by
  unfold buildOutput at run
  obtain ⟨encoded, admitted, reading⟩ := runs_lift run
  obtain ⟨objectMeta, middle, read, going⟩ := runs_bind_ok reading
  obtain ⟨rfl, found⟩ := record_read read
  obtain ⟨⟨later, others⟩, last, output, ending⟩ := runs_bind_ok going
  cases ending
  exact ⟨encoded, objectMeta, later, admitted, rfl, found, output⟩

variable (holds : Holds crates storage s store)
  (present : store.buckets.lookup bucket = some old)

include holds present in
theorem stray_page {name : Str} {file : Handle} (temp : isTempName name = true)
    (staging : TempFile s (name :: objectsName :: bucket :: storage.dataRoot) file t) {page : ListV2Res}
    (run : Runs faultFree (listPage crates storage bucket ⟨some name, none, none, none⟩) t (.ok page) after) :
    StrayPage old name page := by
  have sound := holds.sound.buckets bucket old present
  have valid := sound.valid
  obtain ⟨content, staged⟩ := staging.staged
  have inside := look_objects holds valid present
  have located := FS.locateDir_dir (staged_locate staged (locate_objects holds valid present))
    (staged_kept staged _ inside)
  obtain ⟨scanned, middle, scan, choosing⟩ := runs_bind_ok run
  obtain ⟨rfl, order, distinct, entries, rfl⟩ := scan_order located scan
  obtain ⟨keys, selected, building⟩ := runs_lift choosing
  rw [select_first _ _ rfl] at selected
  obtain rfl := Except.ok.inj selected
  obtain ⟨⟨objects, prefixes⟩, last, output, ending⟩ := runs_bind_ok building
  cases ending
  generalize chosen : matching (order.filterMap fun name => (decodeKey name).toOption) (some name) = keys at output
  have ascending : keys.Pairwise (· ≤ ·) := by
    rw [← chosen]
    exact (List.pairwise_insertionSort _ _).filter _
  have least : ∀ key ∈ keys, name ≤ key := by
    intro key member
    rw [← chosen] at member
    apply not_lt.mp
    intro less
    exact absurd less (List.IsPrefix.le (matching_begins member))
  -- What the scan found of the name itself comes first.
  have begins : ∀ front rest : List Str, (∀ value ∈ front, value = name) →
      (order.filterMap fun name => (decodeKey name).toOption).Perm (front ++ rest) →
      ∃ later, keys = front ++ later := by
    intro front rest same whole
    have kept : front.filter (fun key => startsWith key name) = front := by
      rw [List.filter_eq_self]
      intro value member
      rw [same value member]
      exact starts_with_iff.mpr (List.prefix_refl name)
    have arranged : keys.Perm (front ++ rest.filter fun key => startsWith key name) := by
      rw [← chosen, ← kept, ← List.filter_append]
      exact ((List.perm_insertionSort _ _).trans whole).filter _
    exact sorted_begins ascending least same arranged
  have entry : name ∈ order := by
    rw [entries, staged.becomes.look, Function.update_self]
    rintro ⟨⟩
  have decoded : (decodeKey name).toOption = some name := by
    rw [decode_temp temp]
    rfl
  have once : ∃ rest, (order.filterMap fun name => (decodeKey name).toOption).Perm ([name] ++ rest) := by
    have member : name ∈ order.filterMap fun name => (decodeKey name).toOption :=
      List.mem_filterMap.mpr ⟨name, entry, decoded⟩
    exact ⟨_, List.perm_cons_erase member⟩
  rw [plain_capped rfl] at output
  obtain ⟨rest, whole⟩ := once
  obtain ⟨later, rfl⟩ := begins [name] rest (by simp) whole
  have front : ([name] ++ later).take 1000 = name :: later.take 999 := rfl
  have limit : effectiveMaxKeys ⟨some name, none, none, none⟩ = 1000 := rfl
  rw [limit, front] at output
  obtain ⟨encoded, objectMeta, others, admitted, rfl, read, output⟩ := output_first output
  have different : name ≠ encoded := by
    rintro rfl
    rw [encoded_not_temp admitted] at temp
    cases temp
  -- There is a record for it.
  have filed : ∃ sidecars, old.sidecars = some sidecars ∧
      sidecars.lookup (FsStorage.sidecarName encoded) = some objectMeta := by
    cases held : fileContents middle (storage.metaPath bucket encoded) with
    | error e =>
        rw [held] at read
        cases e <;> cases read
    | ok bytes =>
        obtain ⟨found, leads, record⟩ := contents_found held
        obtain ⟨rfl, _, _⟩ := located_sidecar valid admitted leads
        have apart : sidecarPlace storage bucket encoded ≠ name :: objectsName :: bucket :: storage.dataRoot := by
          intro same
          exact meta_not_objects (List.cons.inj (List.cons.inj same).2).1
        rw [staged.becomes.look, Function.update_of_ne apart] at record
        have seen := look_sidecar holds valid present (FsStorage.sidecarName encoded)
        rw [show s.look (FsStorage.sidecarName encoded :: metaName :: bucket :: storage.dataRoot) = _ from record]
          at seen
        obtain ⟨objectMeta', kept, stored⟩ := Option.map_eq_some_iff.mp seen.symm
        obtain ⟨sidecars, own, looked⟩ := Option.bind_eq_some_iff.mp kept
        obtain rfl := FS.Entry.file.inj stored
        rw [held] at read
        simp only [readOutcome, Codec.decode_encode, Except.mapError, Except.ok.injEq] at read
        exact ⟨sidecars, own, looked.trans (congrArg some read)⟩
  obtain ⟨sidecars, own, looked⟩ := filed
  cases stored : old.objects.lookup encoded with
  | none => exact .orphan rfl admitted own looked stored
  | some body =>
      -- The body is in the directory too, and its name decodes to the same key.
      have other : encoded ∈ order := by
        have elsewhere : encoded :: objectsName :: bucket :: storage.dataRoot ≠
            name :: objectsName :: bucket :: storage.dataRoot :=
          fun same => different (List.cons.inj same).1.symm
        rw [entries, staged.becomes.look, Function.update_of_ne elsewhere, look_object holds valid present,
          stored]
        rintro ⟨⟩
      have again : (decodeKey encoded).toOption = some name := by
        rw [decode_encode_key admitted]
        rfl
      obtain ⟨rest, whole⟩ :=
        images_twice (fun name => (decodeKey name).toOption) entry other different decoded again
      obtain ⟨later', same⟩ := begins [name, name] rest (by simp) whole
      obtain rfl : later = name :: later' := (List.cons.inj same).2
      obtain ⟨encoded', objectMeta', others', admitted', rfl, read', _⟩ := output_first output
      obtain rfl := Except.ok.inj (admitted.symm.trans admitted')
      obtain rfl := Except.ok.inj (read.symm.trans read')
      exact .twice rfl

include holds present in
/-- With a stray file in the bucket there is a request whose pages do not list what any set of
keys would. -/
theorem stray_unlisted {name : Str} {file : Handle} (temp : isTempName name = true)
    (staging : TempFile s (name :: objectsName :: bucket :: storage.dataRoot) file t) (patience : Nat)
    (keys : Str → Prop) (filed : old.Named)
    (honest : keys name → ∀ encoded, encodeKey name = .ok encoded → old.PairedAt encoded) :
    ¬ wp faultFree (listAll crates storage bucket patience ⟨some name, none, none, none⟩)
      (fun outcome after => after = t ∧ ∃ pages, outcome = .ok (some pages) ∧
        Lists keys ⟨some name, none, none, none⟩ pages) t := by
  intro answers
  obtain ⟨_, after, run, _, pages, rfl, lists⟩ := wp_returns answers
  cases patience with
  | zero => cases run
  | succ patience =>
      unfold listAll at run
      obtain ⟨page, middle, asked, following⟩ := runs_bind_ok run
      have begins : StrayPage old name page := by
        obtain ⟨_, _, looking⟩ := runs_lift asked
        cases looking with
        | @call _ _ _ _ _ there _ step listing =>
            obtain rfl := quiet_same rfl step
            cases there with
            | false => cases listing
            | true => exact stray_page holds present temp staging listing
      have first : ∃ others, pages = page :: others := by
        by_cases more : page.isTruncated = true
        · simp only [more, if_true] at following
          obtain ⟨later, last, _, ending⟩ := runs_bind_ok following
          cases later with
          | none => cases ending
          | some others =>
              cases ending
              exact ⟨others, rfl⟩
        · simp only [more] at following
          cases following
          exact ⟨[], rfl⟩
      obtain ⟨others, rfl⟩ := first
      cases begins with
      | @twice objectMeta later objects =>
          have ascending := lists.ascending
          rw [List.flatMap_cons, objects, List.cons_append, List.map_cons] at ascending
          have less := (List.pairwise_cons.mp ascending).1 (utf8 objectMeta.key) (by simp)
          exact absurd ((utf8_lt_iff _ _).mp less) (lt_irrefl objectMeta.key)
      | @orphan sidecars encoded objectMeta later objects admitted kept record missing =>
          have own := filed sidecars name encoded objectMeta kept admitted record
          have shown : name ∈ ((page :: others).flatMap ListV2Res.objects).map ObjectMeta.key := by
            rw [List.flatMap_cons, objects, ← own]
            exact List.mem_map_of_mem List.mem_cons_self
          have claimed := ((lists.objects name).mp shown).1
          obtain ⟨body, stored⟩ := honest claimed encoded admitted sidecars objectMeta kept record
          rw [missing] at stored
          cases stored

end Stray
end Ferrobucket
