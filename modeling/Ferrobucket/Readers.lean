import Ferrobucket.Lib.Hidden
import Ferrobucket.KeyLimit
import Ferrobucket.Writers
/-! What the readers of one bucket see. They look at the directory of that bucket alone, and
never at a temporary file beside the sidecars; so they answer as if the bucket were the only
one, with nothing else below the data root. -/
namespace Ferrobucket
open Text Posix Program

/-- The directory of a bucket shows what is in it, temporary files of sidecars aside. -/
structure Exhibits (crates : Crates) (storage : FsStorage) (t : FS) (name : Str) (bucket : Bucket) :
    Prop where
  tree : t.Tree
  limit : t.nameMax = none ∨ t.nameMax = some 255
  sound : bucket.Sound name
  kept : bucket.sidecars.isSome = true
  seen : ∀ inner, (∀ temp, isTempName temp = true → inner ≠ [metaName, temp]) →
    t.look (inner.reverse ++ name :: storage.dataRoot) = bucket.view crates inner

/-- The store that has this bucket and nothing else. -/
def Store.only (name : Str) (bucket : Bucket) : Store := Store.empty.setBucket name bucket

/-- What no reader of the bucket comes across: the rest of the data root, and temporary files
of sidecars. -/
def Aside (storage : FsStorage) (name : Str) (path : Path) : Prop :=
  (storage.dataRoot <:+ path ∧ path ≠ storage.dataRoot ∧ ¬ name :: storage.dataRoot <:+ path) ∨
    ∃ temp, isTempName temp = true ∧ temp :: metaPlace storage name <:+ path

section Aside
variable {crates : Crates} {storage : FsStorage} {t u : FS} {name : Str} {bucket : Bucket}

theorem aside_below {path : Path} (nonempty : path ≠ []) (above : Aside storage name path.tail) :
    Aside storage name path := by
  obtain ⟨part, dir, rfl⟩ := List.exists_cons_of_ne_nil nonempty
  rcases above with ⟨inside, other, outside⟩ | ⟨temp, named, inside⟩
  · refine .inl ⟨inside.trans (List.suffix_cons part dir), ?_, ?_⟩
    · intro same
      have long := inside.length_le
      have equal := congrArg List.length same
      simp only [List.tail_cons, List.length_cons] at long equal
      omega
    · intro within
      rcases List.suffix_cons_iff.mp within with same | deeper
      · exact other (List.cons.inj same).2.symm
      · exact outside deeper
  · exact .inr ⟨temp, named, inside.trans (List.suffix_cons part dir)⟩

theorem aside_inside (inner : List Str) :
    Aside storage name (inner.reverse ++ name :: storage.dataRoot) ↔
      ∃ temp more, isTempName temp = true ∧ inner = metaName :: temp :: more := by
  have within : name :: storage.dataRoot <:+ inner.reverse ++ name :: storage.dataRoot :=
    List.suffix_append _ _
  constructor
  · rintro (⟨_, _, outside⟩ | ⟨temp, named, ⟨front, same⟩⟩)
    · exact absurd within outside
    · refine ⟨temp, front.reverse, named, ?_⟩
      have equal : front ++ [temp, metaName] = inner.reverse := by
        have whole : front ++ [temp, metaName] ++ name :: storage.dataRoot =
            inner.reverse ++ name :: storage.dataRoot := by simpa [metaPlace] using same
        exact List.append_cancel_right whole
      rw [← List.reverse_reverse inner, ← equal]
      simp
  · rintro ⟨temp, more, named, rfl⟩
    exact .inr ⟨temp, named, more.reverse, by simp [metaPlace]⟩

theorem root_shown : ¬ Aside storage name storage.dataRoot := by
  rintro (⟨_, other, _⟩ | ⟨temp, _, inside⟩)
  · exact other rfl
  · have long := inside.length_le
    simp only [metaPlace, List.length_cons] at long
    omega

theorem exhibits_root (exhibits : Exhibits crates storage t name bucket) :
    t.look storage.dataRoot = some .dir := by
  have top := exhibits.seen [] (fun _ _ => nofun)
  exact exhibits.tree (name :: storage.dataRoot) (List.cons_ne_nil _ _) (by
    have there : t.look (name :: storage.dataRoot) = some .dir := top
    simp [there])

theorem aside_other {first : Str} (inner : List Str) (other : first ≠ name) :
    Aside storage name (inner.reverse ++ first :: storage.dataRoot) := by
  refine .inl ⟨?_, ?_, ?_⟩
  · exact (List.suffix_cons first _).trans (List.suffix_append _ _)
  · intro same
    have long := congrArg List.length same
    simp only [List.length_append, List.length_cons] at long
    omega
  · intro within
    have own : first :: storage.dataRoot <:+ inner.reverse ++ first :: storage.dataRoot :=
      List.suffix_append _ _
    have equal := (List.suffix_of_suffix_length_le own within (by simp)).eq_of_length (by simp)
    exact other (List.cons.inj equal).1

/-- Without what is aside there is just the one bucket. -/
theorem holds_only (exhibits : Exhibits crates storage t name bucket)
    (without : Without (Aside storage name) t u) :
    Holds crates storage u (Store.only name bucket) := by
  have ordinary := bucket_not_uploads exhibits.sound.valid
  refine ⟨?_, ?_, ?_, ?_⟩
  · funext rel
    unfold under
    cases rel with
    | nil =>
        rw [List.reverse_nil, List.nil_append, without_look without root_shown, exhibits_root exhibits]
        rfl
    | cons first inner =>
        have path : (first :: inner).reverse ++ storage.dataRoot =
            inner.reverse ++ first :: storage.dataRoot := by simp
        rw [path]
        by_cases same : first = name
        · subst same
          rw [view_bucket ordinary]
          have found : (Store.only first bucket).buckets.lookup first = some bucket :=
            Finmap.lookup_insert _
          rw [found, Option.bind_some]
          by_cases covered : Aside storage first (inner.reverse ++ first :: storage.dataRoot)
          · rw [without_gone without covered]
            -- No sidecar has the name of a temporary file.
            obtain ⟨temp, more, named, rfl⟩ := (aside_inside inner).mp covered
            cases more with
            | nil =>
                simp only [Bucket.view, meta_not_objects, if_false, if_true]
                cases record : bucket.sidecars.bind fun sidecars => sidecars.lookup temp with
                | none => rfl
                | some objectMeta =>
                    obtain ⟨sidecars, own, stored⟩ := Option.bind_eq_some_iff.mp record
                    obtain ⟨encoded, ⟨key, _, admitted⟩, rfl⟩ :=
                      exhibits.sound.sidecars sidecars temp objectMeta own stored
                    rw [sidecar_not_temp admitted] at named
                    cases named
            | cons next rest => rfl
          · rw [without_look without covered]
            apply exhibits.seen inner
            rintro temp named rfl
            exact covered ((aside_inside _).mpr ⟨temp, [], named, rfl⟩)
        · rw [without_gone without (aside_other inner same)]
          unfold Store.view
          simp only []
          split_ifs
          · rfl
          · have absent : (Store.only name bucket).buckets.lookup first = none := by
              simp [Store.only, Store.setBucket, Store.empty, Finmap.lookup_insert_of_ne _ same]
            rw [absent]
            rfl
  · constructor
    · intro other found present
      by_cases same : other = name
      · subst same
        have own : (Store.only other bucket).buckets.lookup other = some bucket := Finmap.lookup_insert _
        rw [own] at present
        obtain rfl := Option.some.inj present
        exact exhibits.sound
      · simp [Store.only, Store.setBucket, Store.empty, Finmap.lookup_insert_of_ne _ same] at present
    · intro id upload present
      simp [Store.only, Store.setBucket, Store.empty, Store.staged] at present
  · rw [without.limit]
    exact exhibits.limit
  · intro id upload present
    simp [Store.only, Store.setBucket, Store.empty, Store.staged] at present

end Aside
/-! ### The readers -/

section Readers
variable {crates : Crates} {storage : FsStorage} {t u : FS} {name : Str} {bucket : Bucket}

theorem shown_object {part : Str} : ¬ Aside storage name (part :: objectsPlace storage name) := by
  intro covered
  obtain ⟨temp, more, _, same⟩ := (aside_inside [objectsName, part]).mp covered
  exact objects_not_meta (List.cons.inj same).1

theorem shown_sidecar {key encoded : Str} (admitted : encodeKey key = .ok encoded) :
    ¬ Aside storage name (sidecarPlace storage name encoded) := by
  intro covered
  obtain ⟨temp, more, named, same⟩ := (aside_inside [metaName, FsStorage.sidecarName encoded]).mp covered
  obtain rfl := (List.cons.inj (List.cons.inj same).2).1
  rw [sidecar_not_temp admitted] at named
  cases named

theorem shown_objects : ¬ Aside storage name (objectsPlace storage name) := by
  intro covered
  obtain ⟨temp, more, _, same⟩ := (aside_inside [objectsName]).mp covered
  exact objects_not_meta (List.cons.inj same).1

theorem shown_bucket : ¬ Aside storage name (name :: storage.dataRoot) := by
  intro covered
  obtain ⟨temp, more, _, same⟩ := (aside_inside []).mp covered
  cases same

theorem exhibits_objects (exhibits : Exhibits crates storage t name bucket) :
    t.look (objectsPlace storage name) = some .dir := by
  have seen := exhibits.seen [objectsName] (fun _ _ => nofun)
  simpa [Bucket.view, objectsPlace] using seen

theorem exhibits_meta (exhibits : Exhibits crates storage t name bucket) :
    t.look (metaPlace storage name) = some .dir := by
  have seen := exhibits.seen [metaName] (fun _ _ => nofun)
  obtain ⟨sidecars, kept⟩ := Option.isSome_iff_exists.mp exhibits.kept
  simpa [Bucket.view, metaPlace, kept] using seen

theorem overlooks_lift {Value Result : Type} {checked : Except StorageError Value}
    {rest : Value → Op Result} (all : ∀ value, checked = .ok value → Overlooks t u (rest value)) :
    Overlooks t u (lift checked >>= rest) := by
  cases checked with
  | ok value => exact all value rfl
  | error e => trivial

theorem overlooks_readFile {path : PathBuf} (opened : Alike t u (.open path)) (same : t.data = u.data) :
    Overlooks t u (readFile path) := by
  refine ⟨rfl, opened, fun reply => ?_⟩
  cases reply with
  | error e => trivial
  | ok handle =>
      refine ⟨rfl, alike_read same handle, fun content => ?_⟩
      cases content with
      | error e => trivial
      | ok bytes => trivial

theorem overlooks_readSidecar {path : PathBuf} (opened : Alike t u (.open path)) (same : t.data = u.data) :
    Overlooks t u (readSidecar crates path) := by
  apply overlooks_bind (overlooks_attempt (overlooks_readFile opened same))
  intro result
  cases result with
  | error e => cases e <;> trivial
  | ok bytes =>
      cases decoded : crates.objectMeta.decode bytes with
      | ok value => simp only [decoded]; trivial
      | error text => simp only [decoded]; trivial

variable (exhibits : Exhibits crates storage t name bucket)
  (without : Without (Aside storage name) t u)

include exhibits without

theorem alike_sidecar {key encoded : Str} (admitted : encodeKey key = .ok encoded) :
    Alike t u (.open (storage.metaPath name encoded)) := by
  have valid := exhibits.sound.valid
  have still := without_tree without exhibits.tree fun _ => aside_below
  have limit : u.nameMax = none ∨ u.nameMax = some 255 := by
    rw [without.limit]
    exact exhibits.limit
  have inside : u.look (metaPlace storage name) = some .dir := by
    rw [without_look without, exhibits_meta exhibits]
    intro covered
    obtain ⟨temp, more, _, same⟩ := (aside_inside [metaName]).mp covered
    cases same
  have here := locate_meta_path exhibits.tree exhibits.limit valid admitted (exhibits_meta exhibits)
  have there := locate_meta_path still limit valid admitted inside
  rw [without.limit] at there
  apply alike_open (here.trans there.symm)
  intro found located
  rw [there] at located
  split_ifs at located
  obtain rfl := Except.ok.inj located
  exact (without.kept _ (shown_sidecar admitted)).symm

theorem objects_without : u.look (objectsPlace storage name) = some .dir := by
  rw [without_look without shown_objects, exhibits_objects exhibits]

theorem alike_object {key encoded : Str} (admitted : encodeKey key = .ok encoded) :
    Alike t u (.open (storage.objectPath name encoded)) := by
  have valid := exhibits.sound.valid
  have still := without_tree without exhibits.tree fun _ => aside_below
  have limit : u.nameMax = none ∨ u.nameMax = some 255 := by
    rw [without.limit]
    exact exhibits.limit
  have here := locate_body exhibits.tree exhibits.limit valid admitted (exhibits_objects exhibits)
  have there := locate_body still limit valid admitted (objects_without exhibits without)
  apply alike_open (here.trans there.symm)
  intro found located
  rw [there] at located
  obtain rfl := Except.ok.inj located
  split_ifs
  · exact (without.kept _ shown_objects).symm
  · exact (without.kept _ shown_object).symm

theorem overlooks_head (key : Str) : Overlooks t u (headObject crates storage name key) := by
  unfold headObject
  apply overlooks_lift
  intro _ _
  apply overlooks_lift
  intro encoded admitted
  exact overlooks_readSidecar (alike_sidecar exhibits without admitted) without.data.symm

theorem overlooks_fetch (key : Str) : Overlooks t u (fetchObject crates storage name key) := by
  have data := without.data.symm
  apply overlooks_bind
  · unfold getObject
    apply overlooks_lift
    intro _ _
    apply overlooks_lift
    intro encoded admitted
    apply overlooks_bind (overlooks_readSidecar (alike_sidecar exhibits without admitted) data)
    intro objectMeta
    refine ⟨rfl, alike_object exhibits without admitted, fun reply => ?_⟩
    cases reply with
    | ok handle => trivial
    | error e => cases e <;> trivial
  · rintro ⟨objectMeta, stream⟩
    refine ⟨rfl, alike_read data stream.handle, fun content => ?_⟩
    cases content with
    | error e => trivial
    | ok bytes =>
        cases limited : stream.limit with
        | none => simp only; trivial
        | some limit => simp only; trivial

theorem overlooks_buildOutput (items : List Item) : Overlooks t u (buildOutput crates storage name items) := by
  induction items with
  | nil => trivial
  | cons item rest ih =>
      cases item with
      | object key =>
          apply overlooks_lift
          intro encoded admitted
          apply overlooks_bind
            (overlooks_readSidecar (alike_sidecar exhibits without admitted) without.data.symm)
          intro objectMeta
          exact overlooks_bind ih fun _ => trivial
      | commonPrefix cp => exact overlooks_bind ih fun _ => trivial

theorem overlooks_list (req : ListV2Req) : Overlooks t u (listObjectsV2 crates storage name req) := by
  have valid := exhibits.sound.valid
  have root := exhibits_root exhibits
  have still := without_tree without exhibits.tree fun _ => aside_below
  have limit : u.nameMax = none ∨ u.nameMax = some 255 := by
    rw [without.limit]
    exact exhibits.limit
  have top : t.look (name :: storage.dataRoot) = some .dir := exhibits.seen [] (fun _ _ => nofun)
  have above : u.look (name :: storage.dataRoot) = some .dir := by
    rw [without_look without shown_bucket, top]
  have dir := (reaches_objects exhibits.limit valid).there t exhibits.tree rfl (exhibits_objects exhibits)
  have other := (reaches_objects limit valid).there u still rfl (objects_without exhibits without)
  have page : Overlooks t u (listPage crates storage name req) := by
    apply overlooks_bind
    · refine ⟨rfl, ?_, fun reply => ?_⟩
      · exact alike_readDir (FS.locateDir_dir dir (exhibits_objects exhibits))
          (FS.locateDir_dir other (objects_without exhibits without))
          fun part => (without.kept _ shown_object).symm
      · cases reply with
        | ok entries => trivial
        | error e => cases e <;> trivial
    · intro scanned
      apply overlooks_lift
      intro keys _
      exact overlooks_bind (overlooks_buildOutput exhibits without _) fun _ => trivial
  apply overlooks_lift
  intro _ _
  refine ⟨rfl, ?_, fun there => ?_⟩
  · exact alike_exists ((reaches_bucket exhibits.limit valid).there t exhibits.tree rfl top)
      ((reaches_bucket limit valid).there u still rfl above) (without.kept _ shown_bucket).symm
  · cases there with
    | false => trivial
    | true => exact page

theorem overlooks_listAll (patience : Nat) (req : ListV2Req) :
    Overlooks t u (listAll crates storage name patience req) := by
  induction patience generalizing req with
  | zero => trivial
  | succ patience ih =>
      apply overlooks_bind (overlooks_list exhibits without req)
      intro page
      cases more : page.isTruncated with
      | false => simp only [Bool.false_eq_true, if_false]; trivial
      | true =>
          simp only [if_true]
          exact overlooks_bind (ih _) fun _ => trivial

end Readers
/-! ### What they report -/

/-- What was found is answered, or that the key is not there. -/
def Answers {Value : Type} (found : Option Value) (outcome : Except StorageError Value) : Prop :=
  match found with
  | some value => outcome = .ok value
  | none => ∃ text, outcome = .error (.NoSuchKey text)

/-- Both `head_object` and `get_object` answer with this version of the key, or both that there
is none. -/
structure Reads (crates : Crates) (storage : FsStorage) (t : FS) (name key : Str)
    (seen : Option (ObjectMeta × Bytes)) : Prop where
  head : wp faultFree (headObject crates storage name key)
    (fun outcome after => after = t ∧ Answers (seen.map Prod.fst) outcome) t
  get : wp faultFree (fetchObject crates storage name key)
    (fun outcome after => after = t ∧ Answers seen outcome) t

/-- The version of a key that a bucket has. -/
def Bucket.version (nameMax : Option Nat) (bucket : Bucket) (key : Str) : Option (ObjectMeta × Bytes) :=
  (bucket.recordOf nameMax key).bind fun objectMeta =>
    ((encodeKey key).toOption.bind fun encoded => bucket.objects.lookup encoded).map fun content =>
      (objectMeta, content)

section Reports
variable {crates : Crates} {storage : FsStorage} {t : FS} {name : Str} {bucket : Bucket}

theorem only_present (name : Str) (bucket : Bucket) :
    (Store.only name bucket).buckets.lookup name = some bucket :=
  Finmap.lookup_insert _

theorem wp_exhibited_head (exhibits : Exhibits crates storage t name bucket) (key : Str) :
    wp faultFree (headObject crates storage name key) (fun outcome after => after = t ∧
      outcome = (Store.only name bucket).headObject storage t.nameMax name key) t := by
  obtain ⟨u, without⟩ := without_exists t (Aside storage name)
  apply wp_overlooked (overlooks_head exhibits without key)
  apply (head_refines (holds_only exhibits without) name key _).mpr
  rw [without.limit]

theorem wp_exhibited_fetch (exhibits : Exhibits crates storage t name bucket) (key : Str) :
    wp faultFree (fetchObject crates storage name key) (fun outcome after => after = t ∧
      outcome = (Store.only name bucket).getObject storage t.nameMax name key) t := by
  obtain ⟨u, without⟩ := without_exists t (Aside storage name)
  apply wp_overlooked (overlooks_fetch exhibits without key)
  apply (fetch_refines (holds_only exhibits without) name key _).mpr
  rw [without.limit]

/-- A head that finds nothing says so, where the name of the sidecar fits. -/
theorem head_only (exhibits : Exhibits crates storage t name bucket) {key encoded : Str}
    (admitted : encodeKey key = .ok encoded)
    (short : exceeds t.nameMax (FsStorage.sidecarName encoded) = false) :
    (Store.only name bucket).headObject storage t.nameMax name key =
      match bucket.recordOf t.nameMax key with
      | some objectMeta => .ok objectMeta
      | none => .error (.NoSuchKey (storage.metaPath name encoded).display) := by
  obtain ⟨sidecars, kept⟩ := Option.isSome_iff_exists.mp exhibits.kept
  simp only [Store.headObject, exhibits.sound.valid, admitted, only_present, Option.bind_some, kept,
    Bucket.recordOf, Except.toOption, short, Bool.false_eq_true, if_false]
  cases sidecars.lookup (FsStorage.sidecarName encoded) <;> rfl

/-- Readers report what the bucket has, if it has a record and a body or neither. -/
theorem exhibits_reads (exhibits : Exhibits crates storage t name bucket) {key encoded : Str}
    (admitted : encodeKey key = .ok encoded)
    (short : exceeds t.nameMax (FsStorage.sidecarName encoded) = false)
    (bodied : (bucket.recordOf t.nameMax key).isSome = true → (bucket.objects.lookup encoded).isSome = true) :
    Reads crates storage t name key (bucket.version t.nameMax key) := by
  have looked := wp_exhibited_head exhibits key
  have fetched := wp_exhibited_fetch exhibits key
  have body : (Store.only name bucket).bodyOf name key = bucket.objects.lookup encoded := by
    simp [Store.bodyOf, only_present, admitted, Except.toOption]
  rw [Store.getObject, body] at fetched
  rw [head_only exhibits admitted short] at looked fetched
  cases record : bucket.recordOf t.nameMax key with
  | none =>
      rw [record] at looked fetched
      have version : bucket.version t.nameMax key = none := by
        simp [Bucket.version, record]
      rw [version]
      constructor
      · apply wp_mono looked
        rintro outcome after ⟨rfl, rfl⟩
        exact ⟨rfl, _, rfl⟩
      · apply wp_mono fetched
        rintro outcome after ⟨rfl, rfl⟩
        exact ⟨rfl, _, rfl⟩
  | some objectMeta =>
      obtain ⟨content, stored⟩ := Option.isSome_iff_exists.mp (bodied (by simp [record]))
      rw [record] at looked
      rw [record, stored] at fetched
      have version : bucket.version t.nameMax key = some (objectMeta, content) := by
        simp [Bucket.version, record, admitted, Except.toOption, stored]
      rw [version]
      exact ⟨looked, fetched⟩

/-- Where every body has its record, the loop through the pages lists what is stored. -/
theorem exhibits_lists (exhibits : Exhibits crates storage t name bucket)
    (complete : bucket.Complete t.nameMax) (req : ListV2Req) (start : req.continuationToken = none)
    {patience : Nat} (patient : (Store.scannedKeys bucket).length < patience) :
    wp faultFree (listAll crates storage name patience req) (fun outcome after => after = t ∧
      ∃ pages, outcome = .ok (some pages) ∧ Lists bucket.Stores req pages) t := by
  obtain ⟨u, without⟩ := without_exists t (Aside storage name)
  apply wp_overlooked (overlooks_listAll exhibits without patience req)
  have whole : bucket.Complete u.nameMax := by
    rw [without.limit]
    exact complete
  apply wp_mono (wp_listComplete (holds_only exhibits without) (only_present name bucket) whole req start
    patience patient)
  rintro outcome after ⟨_, pages, same, lists⟩
  exact ⟨pages, same, lists⟩

/-- A listing without an error has read a record for every body. -/
theorem exhibits_needs (exhibits : Exhibits crates storage t name bucket) {patience : Nat}
    (answers : wp faultFree (listAll crates storage name patience ⟨none, none, none, none⟩)
      (fun outcome _ => ∃ pages, outcome = .ok (some pages)) t) {key : Str} (stored : bucket.Stores key) :
    ∃ objectMeta, bucket.recordOf t.nameMax key = some objectMeta := by
  obtain ⟨u, without⟩ := without_exists t (Aside storage name)
  have same := overlooks_symm (overlooks_listAll exhibits without patience ⟨none, none, none, none⟩)
  obtain ⟨_, after, run, _, pages, rfl⟩ := wp_returns (wp_overlooked same answers)
  have records := listed_records (holds_only exhibits without) (only_present name bucket) run
  obtain ⟨objectMeta, _, record⟩ := records key stored
  rw [without.limit] at record
  exact ⟨objectMeta, record⟩

end Reports
end Ferrobucket
