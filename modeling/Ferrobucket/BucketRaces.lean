import Ferrobucket.BucketLife
import Ferrobucket.Durability
import Ferrobucket.Lib.Guarded
/-! Creating and deleting one bucket at the same time. A creation that has claimed the name
fills the directory piece by piece, and a deletion takes the pieces away one by one and does
not mind what is gone already; each of them alone goes through, and any number of deletions
go through together, but a deletion that goes on while a new bucket is filled takes pieces
that are not those it began with. -/
namespace Ferrobucket
open Text Posix Program

/-- The bucket directory is there with everything in it that makes a bucket. -/
structure BucketStands (storage : FsStorage) (name : Str) (s : FS) : Prop where
  dir : s.look (name :: storage.dataRoot) = some .dir
  objects : s.look (objectsName :: name :: storage.dataRoot) = some .dir
  sidecars : s.look (metaName :: name :: storage.dataRoot) = some .dir
  record : ∃ content, s.look (bucketJsonName :: name :: storage.dataRoot) = some (.file content)

/-! ### Bucket directories -/

/-- The pieces of a bucket in the order in which they are made and removed. -/
def pieces : List Str := [objectsName, metaName, bucketJsonName]

/-- One more piece, and one less. -/
theorem pieces_next {count : Nat} {part : Str} (nth : pieces[count]? = some part) :
    (part ∉ pieces.take count ∧
      ∀ other, other ∈ pieces.take (count + 1) ↔ other = part ∨ other ∈ pieces.take count) ∧
    (part ∉ pieces.drop (count + 1) ∧
      ∀ other, other ∈ pieces.drop count ↔ other = part ∨ other ∈ pieces.drop (count + 1)) := by
  match count with
  | 0 => cases nth; simp [pieces, or_comm]
  | 1 => cases nth; simp [pieces, or_comm]
  | 2 => cases nth; simp [pieces, or_comm, or_left_comm]
  | _ + 3 => cases nth

/-- The record comes last. -/
theorem pieces_early {count : Nat} {part : Str} (nth : pieces[count]? = some part)
    (directory : part ≠ bucketJsonName) : count ≤ 1 := by
  match count with
  | 0 | 1 => decide
  | 2 => cases nth; exact absurd rfl directory
  | _ + 3 => cases nth

/-- A bucket directory with some of its pieces, the directories among them empty. -/
def bucketEntries (present : List Str) (record : Bytes) : Path → Option FS.Entry
  | [] => some .dir
  | [part] =>
      if part ∈ present then some (if part = bucketJsonName then .file record else .dir) else none
  | _ => none

theorem bucketEntries_deep {present : List Str} {record : Bytes} {inner : Path} (deep : 1 < inner.length) :
    bucketEntries present record inner = none := by
  rcases inner with _ | ⟨part, _ | ⟨more, deeper⟩⟩
  · cases deep
  · simp at deep
  · rfl

/-- What is in the bucket directory, and the directory itself. -/
def Within (storage : FsStorage) (name : Str) (s : FS) (entries : Path → Option FS.Entry) : Prop :=
  ∀ inner, s.look (inner ++ name :: storage.dataRoot) = entries inner

section Entries
variable {storage : FsStorage} {name part : Str} {s after : FS} {present left : List Str}
  {record : Bytes}

theorem within_update {entries : Path → Option FS.Entry} {inner : Path} {entry : Option FS.Entry}
    (within : Within storage name s entries)
    (seen : after.look = Function.update s.look (inner ++ name :: storage.dataRoot) entry) :
    Within storage name after (Function.update entries inner entry) := by
  intro other
  rw [seen]
  by_cases same : other = inner
  · subst same
    rw [Function.update_self, Function.update_self]
  · have different : other ++ name :: storage.dataRoot ≠ inner ++ name :: storage.dataRoot :=
      fun equal => same (List.append_cancel_right equal)
    rw [Function.update_of_ne different, Function.update_of_ne same]
    exact within other

/-- One piece comes, goes or changes. -/
theorem within_piece {record' : Bytes} (within : Within storage name s (bucketEntries present record))
    (seen : after.look = Function.update s.look ([part] ++ name :: storage.dataRoot)
      (bucketEntries left record' [part]))
    (others : ∀ other, other ≠ part →
      bucketEntries left record' [other] = bucketEntries present record [other]) :
    Within storage name after (bucketEntries left record') := by
  intro inner
  rw [within_update within seen inner]
  match inner with
  | [] => rw [Function.update_of_ne (List.cons_ne_nil _ _).symm]; rfl
  | [other] =>
      by_cases same : other = part
      · subst same
        rw [Function.update_self]
      · rw [Function.update_of_ne (by simpa using same), others other same]
  | other :: more :: deeper =>
      rw [Function.update_of_ne (by simp)]
      rfl

theorem within_gone (within : Within storage name s (bucketEntries [] record))
    (seen : after.look = Function.update s.look ([] ++ name :: storage.dataRoot) none) :
    Within storage name after fun _ => none := by
  intro inner
  rw [within_update within seen inner]
  match inner with
  | [] => rw [Function.update_self]
  | [other] => rw [Function.update_of_ne (List.cons_ne_nil _ _)]; rfl
  | other :: more :: deeper => rw [Function.update_of_ne (List.cons_ne_nil _ _)]; rfl

theorem within_made (within : Within storage name s fun _ => none)
    (seen : after.look = Function.update s.look ([] ++ name :: storage.dataRoot) (some .dir)) :
    Within storage name after (bucketEntries [] record) := by
  intro inner
  rw [within_update within seen inner]
  match inner with
  | [] => rw [Function.update_self]; rfl
  | [other] => rw [Function.update_of_ne (List.cons_ne_nil _ _)]; rfl
  | other :: more :: deeper => rw [Function.update_of_ne (List.cons_ne_nil _ _)]; rfl

/-- A bucket with all its pieces stands. -/
theorem within_stands (within : Within storage name s (bucketEntries pieces record)) :
    BucketStands storage name s where
  dir := within []
  objects := (within [objectsName]).trans (by simp [bucketEntries, pieces])
  sidecars := (within [metaName]).trans (by simp [bucketEntries, pieces])
  record := ⟨record, (within [bucketJsonName]).trans (by simp [bucketEntries, pieces])⟩

end Entries

/-! ### Overlapping calls -/

section Calls
variable {Thread : Type}

/-- The thread has claimed the name and has not written the record yet. -/
def Filling (storage : FsStorage) (name : Str) (thread : Thread) (past : List (Event Thread Reply)) :
    Prop :=
  ∃ before after, past = before ++ ⟨thread, .mkdir (storage.bucketPath name), .ok ()⟩ :: after ∧
    ∀ event ∈ after, event.thread = thread → ∀ handle chunk, event.command ≠ .write handle chunk

/-- The thread has begun to remove pieces and has not come to the directory yet. -/
def Emptying (storage : FsStorage) (name : Str) (thread : Thread) (past : List (Event Thread Reply)) :
    Prop :=
  ∃ before reply after, past = before ++ ⟨thread, .rmdir (storage.objectsDir name), reply⟩ :: after ∧
    ∀ event ∈ after, event.thread = thread → event.command ≠ .rmdir (storage.bucketPath name)

/-- No bucket has been filled while pieces were being removed. -/
def NeverOverlap (storage : FsStorage) (name : Str) (past : List (Event Thread Reply)) : Prop :=
  ∀ first, first <+: past → ∀ creator remover,
    ¬ (Filling storage name creator first ∧ Emptying storage name remover first)

variable {storage : FsStorage} {name : Str} {thread : Thread} {past : List (Event Thread Reply)}
  {event : Event Thread Reply}

theorem separate_lasting (past : List (Event Thread Reply)) (event : Event Thread Reply)
    (separate : NeverOverlap storage name (past ++ [event])) : NeverOverlap storage name past :=
  fun first earlier => separate first (earlier.trans (List.prefix_append _ _))

theorem filling_next (filling : Filling storage name thread past)
    (unwritten : event.thread = thread → ∀ handle chunk, event.command ≠ .write handle chunk) :
    Filling storage name thread (past ++ [event]) := by
  obtain ⟨before, after, rfl, none⟩ := filling
  refine ⟨before, after ++ [event], by simp, ?_⟩
  intro other member
  rcases List.mem_append.mp member with former | last
  · exact none other former
  · rw [List.mem_singleton.mp last]
    exact unwritten

theorem emptying_next (emptying : Emptying storage name thread past)
    (kept : event.thread = thread → event.command ≠ .rmdir (storage.bucketPath name)) :
    Emptying storage name thread (past ++ [event]) := by
  obtain ⟨before, reply, after, rfl, none⟩ := emptying
  refine ⟨before, reply, after ++ [event], by simp, ?_⟩
  intro other member
  rcases List.mem_append.mp member with former | last
  · exact none other former
  · rw [List.mem_singleton.mp last]
    exact kept

end Calls

/-! ### The stages of the calls -/

/-- How far a call has come: the pieces that it has made, or the removals that it has tried. -/
inductive BucketStage where
  | outside
  | filling (count : Nat)
  | recording (inode : Handle)
  | created
  | emptying (count : Nat)
  | deleted

namespace BucketStage

def Making : BucketStage → Prop
  | .filling _ | .recording _ => True
  | _ => False

def Removing : BucketStage → Prop
  | .emptying (_ + 1) => True
  | _ => False

end BucketStage

section Racing
variable {Thread : Type} (crates : Crates) (storage : FsStorage) (start : FS) (name : Str)

/-- The state of the bucket, given the stages of the calls. -/
inductive BucketPhase (known : Thread → BucketStage) (s : FS) : Prop
  | occupied (part : Str) (stands : BucketStands storage name start)
      (stored : start.look (part :: objectsName :: name :: storage.dataRoot) ≠ none)
      (same : ∀ inner, s.look (inner ++ name :: storage.dataRoot) =
        start.look (inner ++ name :: storage.dataRoot))
      (idle : ∀ thread, known thread = .outside)
  | absent (gone : Within storage name s fun _ => none) (calm : ∀ thread, ¬ (known thread).Making)
      (lost : ∀ thread, known thread = .created → ∃ remover, known remover = .deleted)
  | filling (maker : Thread) (count : Nat) (stage : known maker = .filling count) (early : count ≤ 2)
      (there : Within storage name s (bucketEntries (pieces.take count) []))
      (alone : ∀ thread, (known thread).Making → thread = maker)
  | recording (maker : Thread) (inode : Handle) (stage : known maker = .recording inode)
      (named : s.node (bucketJsonName :: name :: storage.dataRoot) = some (.file inode))
      (there : Within storage name s (bucketEntries pieces []))
      (alone : ∀ thread, (known thread).Making → thread = maker)
  | standing (count : Nat) (info : BucketInfo) (own : info.name = name) (small : count ≤ 3)
      (there : Within storage name s
        (bucketEntries (pieces.drop count) (crates.bucketInfo.encode info)))
      (calm : ∀ thread, ¬ (known thread).Making)
      (bound : ∀ thread tried, known thread = .emptying tried → tried ≤ count)
      (cause : count ≠ 0 → ∃ thread tried, known thread = .emptying tried ∧ count ≤ tried)

/-- The bucket is as the stages say, the stages are as the events say, and nothing else has
changed. -/
structure Racing (known : Thread → BucketStage) (past : List (Event Thread Reply)) (s : FS) :
    Prop where
  rest : ∀ path, ¬ name :: storage.dataRoot <:+ path → s.look path = start.look path
  continues : start.Continues s
  making : ∀ thread, (known thread).Making → Filling storage name thread past
  removing : ∀ thread, (known thread).Removing → Emptying storage name thread past
  phase : BucketPhase crates storage start name known s

/-- A program of a thread keeps all that in the runs in which filling and emptying do not
overlap, and in the end its stage suits its outcome. -/
abbrev Races [DecidableEq Thread] {Error Value : Type} (thread : Thread)
    (program : Prog Call Reply Error Value) (post : BucketStage → Except Error Value → Prop)
    (stage : BucketStage) : Prop :=
  tracks faultFree (recorded thread)
    (among (Guarded (NeverOverlap storage name) (Racing crates storage start name)) thread) program
    (guard post) (some stage)

end Racing

section Steps
variable {Thread : Type} [DecidableEq Thread] {crates : Crates} {storage : FsStorage} {start s after : FS}
  {name : Str} {known : Thread → BucketStage} {past : List (Event Thread Reply)} {thread : Thread}
  {stage : BucketStage} {Error Value : Type} {post : BucketStage → Except Error Value → Prop}

/-- One step of a thread, which concerns the bucket and its own stage only. -/
theorem races_step {call : Call} {next : Reply call → Prog Call Reply Error Value}
    (step : ∀ known past s reply after, Racing crates storage start name (Function.update known thread stage) past s →
      NeverOverlap storage name (past ++ [⟨thread, call, reply⟩]) → faultFree call s reply after →
      ∃ stage', (∀ path, ¬ name :: storage.dataRoot <:+ path → after.look path = s.look path) ∧
        (stage'.Making → Filling storage name thread (past ++ [⟨thread, call, reply⟩])) ∧
        (stage'.Removing → Emptying storage name thread (past ++ [⟨thread, call, reply⟩])) ∧
        BucketPhase crates storage start name (Function.update known thread stage') after ∧
        Races crates storage start name thread (next reply) post stage') :
    Races crates storage start name thread (.call call next) post stage := by
  apply tracks_guarded separate_lasting
  intro known past s reply after separate racing taken
  obtain ⟨stage', rest, making, removing, phase, later⟩ := step known past s reply after racing separate taken
  have continues : start.Continues after := by
    obtain ⟨choice, performed⟩ := taken
    exact FS.continues_trans racing.continues (continues_perform performed)
  refine ⟨stage', ⟨?_, continues, ?_, ?_, phase⟩, later⟩
  · intro path elsewhere
    exact (rest path elsewhere).trans (racing.rest path elsewhere)
  · intro other makes
    by_cases same : other = thread
    · subst same
      rw [Function.update_self] at makes
      exact making makes
    · have former := racing.making other
      rw [Function.update_of_ne same] at makes former
      exact filling_next (former makes) fun mine => absurd mine.symm same
  · intro other removes
    by_cases same : other = thread
    · subst same
      rw [Function.update_self] at removes
      exact removing removes
    · have former := racing.removing other
      rw [Function.update_of_ne same] at removes former
      exact emptying_next (former removes) fun mine => absurd mine.symm same

/-- A step that changes nothing. -/
theorem races_still {call : Call} {next : Reply call → Prog Call Reply Error Value}
    (unwritten : ∀ handle chunk, call ≠ .write handle chunk)
    (kept : call ≠ .rmdir (storage.bucketPath name))
    (step : ∀ known past s reply after,
      Racing crates storage start name (Function.update known thread stage) past s →
      faultFree call s reply after →
      after = s ∧ Races crates storage start name thread (next reply) post stage) :
    Races crates storage start name thread (.call call next) post stage := by
  apply races_step
  intro known past s reply after racing _ taken
  obtain ⟨rfl, later⟩ := step known past s reply after racing taken
  have making := racing.making thread
  have removing := racing.removing thread
  rw [Function.update_self] at making removing
  exact ⟨stage, fun _ _ => rfl, fun makes => filling_next (making makes) fun _ => unwritten,
    fun removes => emptying_next (removing removes) fun _ => kept, racing.phase, later⟩

/-- A call that only looks. -/
theorem races_look {call : Call} {next : Reply call → Prog Call Reply Error Value}
    (quiet : call.quiet = true)
    (rest : ∀ known past s reply, Racing crates storage start name (Function.update known thread stage) past s →
      faultFree call s reply s → Races crates storage start name thread (next reply) post stage) :
    Races crates storage start name thread (.call call next) post stage := by
  apply races_still
  · rintro handle chunk rfl
    cases quiet
  · rintro rfl
    cases quiet
  · intro known past s reply after racing taken
    obtain rfl := quiet_same quiet taken
    exact ⟨rfl, rest known past after reply racing taken⟩

omit [DecidableEq Thread] in
/-- No bucket is filled when another thread removes pieces. -/
theorem removing_calm (racing : Racing crates storage start name known past s)
    (separate : NeverOverlap storage name past) {remover : Thread} (removes : (known remover).Removing)
    (other : Thread) : ¬ (known other).Making :=
  fun makes => separate past (List.prefix_refl _) other remover
    ⟨racing.making other makes, racing.removing remover removes⟩

/-- A change in the bucket directory is none anywhere else. -/
theorem rest_update (inner : Path) {entry : Option FS.Entry}
    (seen : after.look = Function.update s.look (inner ++ name :: storage.dataRoot) entry) (path : Path)
    (elsewhere : ¬ name :: storage.dataRoot <:+ path) : after.look path = s.look path := by
  have different : path ≠ inner ++ name :: storage.dataRoot := by
    rintro rfl
    exact elsewhere (List.suffix_append _ _)
  rw [seen, Function.update_of_ne different]

/-! What a step makes of the state of the bucket. -/

omit [DecidableEq Thread] in
theorem phase_vacant (phase : BucketPhase crates storage start name known s)
    (vacant : s.look (name :: storage.dataRoot) = none) :
    Within storage name s (fun _ => none) ∧ ∀ thread, ¬ (known thread).Making := by
  cases phase with
  | occupied part stands stored same idle =>
      have there := (same []).trans stands.dir
      rw [List.nil_append, vacant] at there
      cases there
  | absent gone calm lost => exact ⟨gone, calm⟩
  | filling maker count stage early there alone => exact nomatch vacant.symm.trans (there [])
  | recording maker inode stage named there alone => exact nomatch vacant.symm.trans (there [])
  | standing count info own small there calm bound cause => exact nomatch vacant.symm.trans (there [])

/-- The thread that makes a bucket is the only one. -/
theorem phase_making {stage : BucketStage} (makes : stage.Making)
    (phase : BucketPhase crates storage start name (Function.update known thread stage) s) :
    (∀ other, other ≠ thread → ¬ (known other).Making) ∧
      ((∃ count, stage = .filling count ∧ count ≤ 2 ∧
          Within storage name s (bucketEntries (pieces.take count) [])) ∨
        ∃ inode, stage = .recording inode ∧
          s.node (bucketJsonName :: name :: storage.dataRoot) = some (.file inode) ∧
          Within storage name s (bucketEntries pieces [])) := by
  have mine : (Function.update known thread stage thread).Making := by
    rwa [Function.update_self]
  have others : ∀ maker, (∀ other, (Function.update known thread stage other).Making → other = maker) →
      maker = thread ∧ ∀ other, other ≠ thread → ¬ (known other).Making := by
    intro maker alone
    obtain rfl := alone thread mine
    refine ⟨rfl, fun other different makes => different (alone other ?_)⟩
    rwa [Function.update_of_ne different]
  cases phase with
  | occupied part stands stored same idle =>
      rw [idle thread] at mine
      exact absurd mine not_false
  | absent gone calm lost => exact absurd mine (calm thread)
  | filling maker count own early there alone =>
      obtain ⟨rfl, rest⟩ := others maker alone
      rw [Function.update_self] at own
      exact ⟨rest, .inl ⟨count, own, early, there⟩⟩
  | recording maker inode own named there alone =>
      obtain ⟨rfl, rest⟩ := others maker alone
      rw [Function.update_self] at own
      exact ⟨rest, .inr ⟨inode, own, named, there⟩⟩
  | standing count info own small there calm bound cause => exact absurd mine (calm thread)

/-- The only thread that makes anything is this one. -/
theorem alone_update {stage : BucketStage} (others : ∀ other, other ≠ thread → ¬ (known other).Making)
    (other : Thread) (makes : (Function.update known thread stage other).Making) : other = thread := by
  by_contra different
  rw [Function.update_of_ne different] at makes
  exact others other different makes

/-! Where the pieces are. -/

variable (valid : validateBucketName name = .ok ()) (root : start.look storage.dataRoot = some .dir)
  (limit : start.nameMax = none ∨ start.nameMax = some 255)

include root in
omit [DecidableEq Thread] in
theorem racing_root (racing : Racing crates storage start name known past s) :
    s.look storage.dataRoot = some .dir := by
  have outer : ¬ name :: storage.dataRoot <:+ storage.dataRoot := by
    intro inside
    have short := inside.length_le
    rw [List.length_cons] at short
    omega
  rw [racing.rest _ outer, root]

include valid root limit
omit [DecidableEq Thread] in
theorem racing_located (racing : Racing crates storage start name known past s) :
    s.locate (storage.bucketPath name) = .ok (name :: storage.dataRoot) := by
  have short : utf8Len name ≤ 255 := le_trans (bucket_name_facts valid).2.1 (by decide)
  apply FS.locate_name (locate_root storage s) (racing_root root racing) (bucket_is_name valid)
  apply fits_limit _ short
  rw [racing.continues.limit]
  exact limit

omit [DecidableEq Thread] in
theorem racing_piece (racing : Racing crates storage start name known past s) {part : Str}
    (member : part ∈ pieces) (inside : s.look (name :: storage.dataRoot) = some .dir) :
    s.locate ((storage.bucketPath name).join part) = .ok (part :: name :: storage.dataRoot) := by
  have limited : s.nameMax = none ∨ s.nameMax = some 255 := by
    rw [racing.continues.limit]
    exact limit
  have names : ∀ part ∈ pieces, isName part = true ∧ utf8Len part ≤ 255 := by decide
  exact locate_in_bucket part valid (racing_root root racing) inside limited (names part member).1
    (names part member).2

/-! ### Filling -/

omit limit in
/-- The data root is there already. -/
theorem races_root : Races crates storage start name thread
    (createDirAll (storage.bucketPath name).parent)
    (fun stage' outcome => stage' = stage ∧ outcome = .ok ()) stage := by
  obtain ⟨_, _, _, slash, _⟩ := name_parts (bucket_is_name valid)
  have parent : (storage.bucketPath name).parent = storage.rootPath := parent_join _ slash
  unfold createDirAll
  rw [parent, createDirUpTo.eq_def]
  simp only [Prog.send_bind]
  apply races_still
  · rintro _ _ ⟨⟩
  · rintro ⟨⟩
  rintro known past s reply after racing ⟨choice, performed⟩
  have there := racing_root root racing
  have taken := FS.mkdir_present (locate_root storage s) (by simp [there])
  simp only [Call.perform, taken, Option.some.injEq, Prod.mk.injEq] at performed
  obtain ⟨rfl, rfl⟩ := performed
  refine ⟨rfl, ?_⟩
  apply races_look rfl
  rintro _ _ s reply racing ⟨choice, performed⟩
  have found := FS.isDir_located (locate_root storage s) (racing_root root racing)
  simp only [Call.perform, found, Option.some.injEq, Prod.mk.injEq] at performed
  obtain ⟨rfl, _⟩ := performed
  rintro _ ⟨⟩
  exact ⟨rfl, rfl⟩

/-- The name is claimed, or it is taken. -/
theorem races_claim {next : Except Errno Unit → Prog Call Reply Error Value}
    (claimed : Races crates storage start name thread (next (.ok ())) post (.filling 0))
    (refused : ∀ e, Races crates storage start name thread (next (.error e)) post .outside) :
    Races crates storage start name thread (.call (.mkdir (storage.bucketPath name)) next) post
      .outside := by
  apply races_step
  rintro known past s reply after racing separate ⟨choice, performed⟩
  have located := racing_located valid root limit racing
  by_cases vacant : s.look (name :: storage.dataRoot) = none
  · have made := FS.mkdir_new located vacant (racing_root root racing)
    simp only [Call.perform, made, Option.some.injEq, Prod.mk.injEq] at performed
    obtain ⟨rfl, rfl⟩ := performed
    have seen := FS.look_mkdirAt s (name :: storage.dataRoot)
    obtain ⟨gone, calm⟩ := phase_vacant racing.phase vacant
    have others : ∀ other, other ≠ thread → ¬ (known other).Making := by
      intro other different makes
      apply calm other
      rwa [Function.update_of_ne different]
    refine ⟨.filling 0, rest_update [] seen, fun _ => ⟨past, [], rfl, by rintro _ ⟨⟩⟩, by rintro ⟨⟩, ?_,
      claimed⟩
    exact .filling thread 0 (Function.update_self ..) (Nat.zero_le 2) (within_made gone seen)
      (alone_update others)
  · have taken := FS.mkdir_present located vacant
    simp only [Call.perform, taken, Option.some.injEq, Prod.mk.injEq] at performed
    obtain ⟨rfl, rfl⟩ := performed
    exact ⟨.outside, fun _ _ => rfl, by rintro ⟨⟩, by rintro ⟨⟩, racing.phase, refused _⟩

omit [DecidableEq Thread] in
/-- The piece that comes next is not there yet. -/
theorem racing_next {part : Str} {count : Nat} (racing : Racing crates storage start name known past s)
    (nth : pieces[count]? = some part)
    (there : Within storage name s (bucketEntries (pieces.take count) [])) :
    s.look (name :: storage.dataRoot) = some .dir ∧
      s.look (part :: name :: storage.dataRoot) = none ∧
      s.locate ((storage.bucketPath name).join part) = .ok (part :: name :: storage.dataRoot) := by
  obtain ⟨⟨new, _⟩, _⟩ := pieces_next nth
  have entry := there [part]
  rw [bucketEntries, if_neg new] at entry
  exact ⟨there [], entry,
    racing_piece valid root limit racing (List.mem_of_getElem? nth) (there [])⟩

/-- The thread that fills the bucket makes the next directory in it. -/
theorem races_mkdir {part : Str} {count : Nat} (nth : pieces[count]? = some part)
    (directory : part ≠ bucketJsonName) {next : Except Errno Unit → Prog Call Reply Error Value}
    (rest : Races crates storage start name thread (next (.ok ())) post (.filling (count + 1))) :
    Races crates storage start name thread
      (.call (.mkdir ((storage.bucketPath name).join part)) next) post (.filling count) := by
  obtain ⟨⟨_, added⟩, _⟩ := pieces_next nth
  apply races_step
  rintro known past s reply after racing separate ⟨choice, performed⟩
  have making : (BucketStage.filling count).Making := trivial
  obtain ⟨others, ⟨_, ⟨⟩, _, there⟩ | ⟨_, ⟨⟩, _⟩⟩ := phase_making making racing.phase
  obtain ⟨inside, vacant, located⟩ := racing_next valid root limit racing nth there
  have made := FS.mkdir_new located vacant inside
  simp only [Call.perform, made, Option.some.injEq, Prod.mk.injEq] at performed
  obtain ⟨rfl, rfl⟩ := performed
  have seen := FS.look_mkdirAt s (part :: name :: storage.dataRoot)
  refine ⟨.filling (count + 1), rest_update [part] seen, ?_, by rintro ⟨⟩, ?_, rest⟩
  · intro _
    have filling := racing.making thread
    rw [Function.update_self] at filling
    exact filling_next (filling trivial) fun _ _ _ => by rintro ⟨⟩
  · have grown : Within storage name (s.mkdirAt (part :: name :: storage.dataRoot))
        (bucketEntries (pieces.take (count + 1)) []) := by
      apply within_piece there
      · rw [bucketEntries, if_pos ((added part).mpr (.inl rfl)), if_neg directory]
        exact seen
      · intro other different
        simp only [bucketEntries, added, or_iff_right different]
    exact .filling thread (count + 1) (Function.update_self ..)
      (Nat.succ_le_succ (pieces_early nth directory)) grown (alone_update others)

/-- The file for the record is made. -/
theorem races_creat {next : Except Errno Handle → Prog Call Reply Error Value}
    (rest : ∀ inode, Races crates storage start name thread (next (.ok inode)) post (.recording inode)) :
    Races crates storage start name thread
      (.call (.creat ((storage.bucketPath name).join bucketJsonName)) next) post (.filling 2) := by
  have nth : pieces[2]? = some bucketJsonName := rfl
  obtain ⟨⟨_, added⟩, _⟩ := pieces_next nth
  apply races_step
  rintro known past s reply after racing separate ⟨choice, performed⟩
  have making : (BucketStage.filling 2).Making := trivial
  obtain ⟨others, ⟨_, ⟨⟩, _, there⟩ | ⟨_, ⟨⟩, _⟩⟩ := phase_making making racing.phase
  obtain ⟨inside, vacant, located⟩ := racing_next valid root limit racing nth there
  have made := FS.creat_new located vacant inside
  simp only [Call.perform, made, Option.some.injEq, Prod.mk.injEq] at performed
  obtain ⟨rfl, rfl⟩ := performed
  have seen := FS.look_newFile s (bucketJsonName :: name :: storage.dataRoot)
  refine ⟨.recording s.nextInode, rest_update [bucketJsonName] seen, ?_, by rintro ⟨⟩, ?_, rest _⟩
  · intro _
    have filling := racing.making thread
    rw [Function.update_self] at filling
    exact filling_next (filling trivial) fun _ _ _ => by rintro ⟨⟩
  · have grown : Within storage name (s.newFile (bucketJsonName :: name :: storage.dataRoot))
        (bucketEntries pieces []) := by
      apply within_piece there
      · exact seen
      · intro other different
        exact if_congr ((added other).trans (or_iff_right different)) rfl rfl
    have named : (s.newFile (bucketJsonName :: name :: storage.dataRoot)).node
        (bucketJsonName :: name :: storage.dataRoot) = some (.file s.nextInode) := by
      rw [FS.node_newFile, Function.update_self]
    exact .recording thread _ (Function.update_self ..) named grown (alone_update others)

omit valid root limit in
/-- The record is written, and the bucket is whole. -/
theorem races_write {inode : Handle} {info : BucketInfo} (own : info.name = name)
    {next : Except Errno Unit → Prog Call Reply Error Value}
    (rest : Races crates storage start name thread (next (.ok ())) post .created) :
    Races crates storage start name thread
      (.call (.write inode (crates.bucketInfo.encode info)) next) post (.recording inode) := by
  apply races_step
  rintro known past s reply after racing separate ⟨choice, performed⟩
  have making : (BucketStage.recording inode).Making := trivial
  obtain ⟨others, ⟨_, ⟨⟩, _⟩ | ⟨_, ⟨⟩, named, there⟩⟩ := phase_making making racing.phase
  simp only [Call.perform, Option.some.injEq, Prod.mk.injEq] at performed
  obtain ⟨rfl, rfl⟩ := performed
  have empty : s.data inode = [] := by
    have entry := there [bucketJsonName]
    obtain ⟨inode', again, held⟩ := FS.look_file.mp entry
    cases named.symm.trans again
    exact held
  have seen : (s.write inode (crates.bucketInfo.encode info)).look = Function.update s.look
      ([bucketJsonName] ++ name :: storage.dataRoot)
      (bucketEntries pieces (crates.bucketInfo.encode info) [bucketJsonName]) := by
    unfold FS.write
    rw [FS.look_setData _ named, empty]
    rfl
  have written : Within storage name (s.write inode (crates.bucketInfo.encode info))
      (bucketEntries pieces (crates.bucketInfo.encode info)) := by
    apply within_piece there seen
    intro other different
    simp only [bucketEntries, if_neg different]
  refine ⟨.created, rest_update [bucketJsonName] seen, by rintro ⟨⟩, by rintro ⟨⟩, ?_, rest⟩
  apply BucketPhase.standing 0 info own (Nat.zero_le 3) written
  · intro other makes
    by_cases mine : other = thread
    · rw [mine, Function.update_self] at makes
      exact makes
    · rw [Function.update_of_ne mine] at makes
      exact others other mine makes
  · intro other tried removes
    by_cases mine : other = thread
    · rw [mine, Function.update_self] at removes
      cases removes
    · -- Nobody has tried to remove anything while this bucket was filled.
      cases tried with
      | zero => exact le_refl 0
      | succ tried =>
          have removing : (Function.update known thread (.recording inode) other).Removing := by
            rw [Function.update_of_ne mine] at removes ⊢
            rw [removes]
            exact trivial
          have calm := removing_calm racing (separate_lasting _ _ separate) removing thread
          rw [Function.update_self] at calm
          exact absurd making calm
  · exact fun started => absurd rfl started

theorem races_createDir {part : Str} {count : Nat} (nth : pieces[count]? = some part)
    (directory : part ≠ bucketJsonName) :
    Races crates storage start name thread (ioOp (createDirAll ((storage.bucketPath name).join part)))
      (fun stage outcome => stage = .filling (count + 1) ∧ outcome = .ok ()) (.filling count) := by
  apply tracks_ioOp.mpr
  unfold createDirAll
  rw [createDirUpTo.eq_def]
  simp only [Prog.send_bind]
  apply races_mkdir valid root limit nth directory
  rintro _ ⟨⟩
  exact ⟨rfl, rfl⟩

/-- A creation has made the bucket, or it has changed nothing. -/
theorem races_createBucket : Races crates storage start name thread (createBucket crates storage name)
    (fun stage outcome => stage = if outcome.isOk then .created else .outside) .outside := by
  unfold createBucket
  simp only [valid, lift, Prog.ofExcept, Prog.done_bind]
  apply tracks_guarded_bind separate_lasting
  apply tracks_ioOp.mpr
  apply tracks_guarded_mono (races_root valid root)
  rintro _ _ ⟨rfl, rfl⟩
  simp only [Prog.send_bind]
  apply races_claim valid root limit
  · apply tracks_guarded_bind separate_lasting
    apply tracks_guarded_mono (races_createDir valid root limit rfl objects_not_json)
    rintro _ _ ⟨rfl, rfl⟩
    apply tracks_guarded_bind separate_lasting
    apply tracks_guarded_mono (races_createDir valid root limit rfl meta_not_json)
    rintro _ _ ⟨rfl, rfl⟩
    apply races_look rfl
    intro _ _ _ time _ _
    apply tracks_ioOp.mpr
    unfold writeFile
    apply races_creat valid root limit
    intro inode
    apply races_write rfl
    rintro _ ⟨⟩
    rfl
  · intro e
    cases e <;>
      · rintro _ ⟨⟩
        rfl

/-! ### Emptying -/

omit valid root limit in
/-- Nobody fills the bucket when a thread removes pieces. -/
theorem step_calm {call : Call} {reply : Reply call}
    (racing : Racing crates storage start name (Function.update known thread stage) past s)
    (separate : NeverOverlap storage name (past ++ [⟨thread, call, reply⟩]))
    (removes : Emptying storage name thread (past ++ [⟨thread, call, reply⟩]))
    (idle : ¬ stage.Making) (other : Thread) : ¬ (Function.update known thread stage other).Making := by
  intro makes
  have different : other ≠ thread := by
    rintro rfl
    rw [Function.update_self] at makes
    exact idle makes
  have filling : Filling storage name other (past ++ [⟨thread, call, reply⟩]) :=
    filling_next (racing.making other makes) fun mine => absurd mine.symm different
  exact separate _ (List.prefix_refl _) other thread ⟨filling, removes⟩

omit valid root limit in
theorem calm_update {stage' : BucketStage} (idle : ¬ stage'.Making)
    (calm : ∀ other, ¬ (Function.update known thread stage other).Making) (other : Thread) :
    ¬ (Function.update known thread stage' other).Making := by
  by_cases mine : other = thread
  · rw [mine, Function.update_self]
    exact idle
  · have former := calm other
    rw [Function.update_of_ne mine] at former ⊢
    exact former

omit valid root limit in
/-- A stage that another thread is in. -/
theorem stage_other {stage' found : BucketStage} {other : Thread}
    (has : Function.update known thread stage other = found) (differs : found ≠ stage) :
    Function.update known thread stage' other = found := by
  have different : other ≠ thread := by
    rintro rfl
    rw [Function.update_self] at has
    exact differs has.symm
  rwa [Function.update_of_ne different] at has ⊢

/-- What a removal finds: nothing, and then the bucket is as it should be for the next one, or
the piece, without which it is. -/
inductive Removal (crates : Crates) (storage : FsStorage) (start : FS) (name part : Str)
    (known : Thread → BucketStage) (s : FS) : Prop
  | lost (phase : BucketPhase crates storage start name known s)
      (absent : s.locate ((storage.bucketPath name).join part) = .error .ENOENT ∨
        s.locate ((storage.bucketPath name).join part) = .ok (part :: name :: storage.dataRoot) ∧
          s.look (part :: name :: storage.dataRoot) = none)
  | found (record : Bytes)
      (phase : ∀ after : FS, after.look = Function.update s.look
        ([part] ++ name :: storage.dataRoot) none → BucketPhase crates storage start name known after)
      (located : s.locate ((storage.bucketPath name).join part) = .ok (part :: name :: storage.dataRoot))
      (there : s.look (part :: name :: storage.dataRoot) =
        some (if part = bucketJsonName then .file record else .dir))
      (empty : ∀ inner, s.look (inner :: part :: name :: storage.dataRoot) = none)

theorem racing_removal {part : Str} {count : Nat} (nth : pieces[count]? = some part)
    (racing : Racing crates storage start name (Function.update known thread (.emptying count)) past s)
    (calm : ∀ other, ¬ (Function.update known thread (.emptying count) other).Making) :
    Removal crates storage start name part
      (Function.update known thread (.emptying (count + 1))) s := by
  have member : part ∈ pieces := List.mem_of_getElem? nth
  have good : isName part = true := by
    have names : ∀ part ∈ pieces, isName part = true := by decide
    exact names part member
  have still : ∀ other, ¬ (Function.update known thread (.emptying (count + 1)) other).Making :=
    calm_update not_false calm
  cases racing.phase with
  | occupied _ _ _ _ idle =>
      have outside := idle thread
      rw [Function.update_self] at outside
      cases outside
  | filling maker _ stage _ _ _ => exact absurd (stage ▸ trivial) (calm maker)
  | recording maker _ stage _ _ _ => exact absurd (stage ▸ trivial) (calm maker)
  | absent gone _ lost =>
      refine .lost (.absent gone still ?_)
        (.inl (FS.locate_name_absent (racing_located valid root limit racing) (gone []) good))
      intro other created
      obtain ⟨remover, deleted⟩ := lost other (stage_other created nofun)
      exact ⟨remover, stage_other deleted nofun⟩
  | standing present info own small there _ bound cause =>
      obtain ⟨_, later, split⟩ := pieces_next nth
      have inside : s.look (name :: storage.dataRoot) = some .dir := there []
      have located := racing_piece valid root limit racing member inside
      have reached := bound thread count (Function.update_self ..)
      rcases Nat.lt_or_eq_of_le reached with past | rfl
      · have missing : part ∉ pieces.drop present :=
          fun member => later (List.drop_subset_drop_left pieces past member)
        have vacant := there [part]
        rw [bucketEntries, if_neg missing] at vacant
        refine .lost (.standing present info own small there still ?_ ?_) (.inr ⟨located, vacant⟩)
        · intro other tried removes
          by_cases mine : other = thread
          · rw [mine, Function.update_self] at removes
            cases removes
            exact past
          · rw [Function.update_of_ne mine] at removes
            apply bound other tried
            rwa [Function.update_of_ne mine]
        · intro started
          obtain ⟨other, tried, removes, far⟩ := cause started
          refine ⟨other, tried, stage_other removes ?_, far⟩
          rintro ⟨⟩
          omega
      · have entry := there [part]
        rw [bucketEntries, if_pos ((split part).mpr (.inl rfl))] at entry
        refine .found _ ?_ located entry fun inner => there [inner, part]
        intro after seen
        have kept : Within storage name after
            (bucketEntries (pieces.drop (count + 1)) (crates.bucketInfo.encode info)) := by
          apply within_piece there
          · rw [bucketEntries, if_neg later]
            exact seen
          · intro other different
            exact (if_congr ((split other).trans (or_iff_right different)) rfl rfl).symm
        have bounded : count + 1 ≤ 3 := (List.getElem?_eq_some_iff.mp nth).1
        refine .standing (count + 1) info own bounded kept still ?_ ?_
        · intro other tried removes
          by_cases mine : other = thread
          · rw [mine, Function.update_self] at removes
            cases removes
            exact le_refl _
          · rw [Function.update_of_ne mine] at removes
            apply Nat.le_succ_of_le (bound other tried _)
            rwa [Function.update_of_ne mine]
        · exact fun _ => ⟨thread, count + 1, Function.update_self .., le_refl _⟩

/-- The next of the directories is removed, or it is gone already. -/
theorem races_rmdir {part : Str} {count : Nat} (nth : pieces[count]? = some part)
    (directory : part ≠ bucketJsonName) {next : Except Errno Unit → Prog Call Reply Error Value}
    (begins : ∀ past reply, (count ≠ 0 → Emptying storage name thread past) →
      Emptying storage name thread
        (past ++ [⟨thread, .rmdir ((storage.bucketPath name).join part), reply⟩]))
    (rest : ∀ reply, reply = .ok () ∨ reply = .error .ENOENT →
      Races crates storage start name thread (next reply) post (.emptying (count + 1))) :
    Races crates storage start name thread
      (.call (.rmdir ((storage.bucketPath name).join part)) next) post (.emptying count) := by
  apply races_step
  rintro known past s reply after racing separate ⟨choice, performed⟩
  have removes : Emptying storage name thread
      (past ++ [⟨thread, .rmdir ((storage.bucketPath name).join part), reply⟩]) := by
    apply begins
    intro started
    apply racing.removing thread
    rw [Function.update_self]
    cases count with
    | zero => exact absurd rfl started
    | succ count => exact trivial
  have calm := step_calm racing separate removes not_false
  cases racing_removal valid root limit nth racing calm with
  | lost phase absent =>
      have refused : s.locateDir ((storage.bucketPath name).join part) = .error .ENOENT := by
        rcases absent with lost | ⟨located, vacant⟩
        · exact FS.locateDir_lost lost
        · exact FS.locateDir_absent located vacant
      simp only [Call.perform, FS.rmdir_lost refused, Option.some.injEq, Prod.mk.injEq] at performed
      obtain ⟨rfl, rfl⟩ := performed
      exact ⟨.emptying (count + 1), fun _ _ => rfl, by rintro ⟨⟩, fun _ => removes, phase, rest _ (.inr rfl)⟩
  | found record phase located there empty =>
      rw [if_neg directory] at there
      have good : isName part = true := by
        have names : ∀ part ∈ pieces, isName part = true := by decide
        exact names part (List.mem_of_getElem? nth)
      have gone := FS.rmdir_empty (FS.locateDir_dir located there)
        (join_lastPart (storage.bucketPath name) good) (List.cons_ne_nil _ _) empty
      simp only [Call.perform, gone, Option.some.injEq, Prod.mk.injEq] at performed
      obtain ⟨rfl, rfl⟩ := performed
      have seen := FS.look_drop s (part :: name :: storage.dataRoot)
      exact ⟨.emptying (count + 1), rest_update [part] seen, by rintro ⟨⟩, fun _ => removes, phase _ seen,
        rest _ (.inl rfl)⟩

/-- The record is removed, or it is gone already. -/
theorem races_unlink {next : Except Errno Unit → Prog Call Reply Error Value}
    (rest : ∀ reply, reply = .ok () ∨ reply = .error .ENOENT →
      Races crates storage start name thread (next reply) post (.emptying 3)) :
    Races crates storage start name thread
      (.call (.unlink ((storage.bucketPath name).join bucketJsonName)) next) post (.emptying 2) := by
  apply races_step
  rintro known past s reply after racing separate ⟨choice, performed⟩
  have removing := racing.removing thread
  rw [Function.update_self] at removing
  have removes : Emptying storage name thread
      (past ++ [⟨thread, .unlink ((storage.bucketPath name).join bucketJsonName), reply⟩]) :=
    emptying_next (removing trivial) fun _ => by rintro ⟨⟩
  have calm := step_calm racing separate removes not_false
  cases racing_removal valid root limit rfl racing calm with
  | lost phase absent =>
      have refused : s.unlink ((storage.bucketPath name).join bucketJsonName) = (.error .ENOENT, s) := by
        rcases absent with lost | ⟨located, vacant⟩
        · exact FS.unlink_lost lost
        · exact FS.unlink_absent located vacant
      simp only [Call.perform, refused, Option.some.injEq, Prod.mk.injEq] at performed
      obtain ⟨rfl, rfl⟩ := performed
      exact ⟨.emptying 3, fun _ _ => rfl, by rintro ⟨⟩, fun _ => removes, phase, rest _ (.inr rfl)⟩
  | found record phase located there empty =>
      rw [if_pos rfl] at there
      have gone := FS.unlink_file located there
      simp only [Call.perform, gone, Option.some.injEq, Prod.mk.injEq] at performed
      obtain ⟨rfl, rfl⟩ := performed
      have seen := FS.look_drop s (bucketJsonName :: name :: storage.dataRoot)
      exact ⟨.emptying 3, rest_update [bucketJsonName] seen, by rintro ⟨⟩, fun _ => removes, phase _ seen,
        rest _ (.inl rfl)⟩

/-- The directory itself is removed, or it is gone already. -/
theorem races_rmdirBucket {next : Except Errno Unit → Prog Call Reply Error Value}
    (rest : ∀ reply, reply = .ok () ∨ reply = .error .ENOENT →
      Races crates storage start name thread (next reply) post .deleted) :
    Races crates storage start name thread (.call (.rmdir (storage.bucketPath name)) next) post
      (.emptying 3) := by
  apply races_step
  rintro known past s reply after racing separate ⟨choice, performed⟩
  have removing : (Function.update known thread (.emptying 3) thread).Removing := by
    rw [Function.update_self]
    exact trivial
  have calm := removing_calm racing (separate_lasting _ _ separate) removing
  have still : ∀ other, ¬ (Function.update known thread .deleted other).Making :=
    calm_update not_false calm
  have located := racing_located valid root limit racing
  have absent : ∀ last : FS, Within storage name last (fun _ => none) →
      BucketPhase crates storage start name (Function.update known thread .deleted) last :=
    fun last gone => .absent gone still fun _ _ => ⟨thread, Function.update_self ..⟩
  cases racing.phase with
  | occupied _ _ _ _ idle =>
      have outside := idle thread
      rw [Function.update_self] at outside
      cases outside
  | filling maker _ stage _ _ _ => exact absurd (stage ▸ trivial) (calm maker)
  | recording maker _ stage _ _ _ => exact absurd (stage ▸ trivial) (calm maker)
  | absent gone _ _ =>
      have refused := FS.rmdir_lost (FS.locateDir_absent located (gone []))
      simp only [Call.perform, refused, Option.some.injEq, Prod.mk.injEq] at performed
      obtain ⟨rfl, rfl⟩ := performed
      exact ⟨.deleted, fun _ _ => rfl, by rintro ⟨⟩, by rintro ⟨⟩, absent _ gone, rest _ (.inr rfl)⟩
  | standing count info own small there _ bound _ =>
      obtain rfl : count = 3 := Nat.le_antisymm small (bound thread 3 (Function.update_self ..))
      have empty : ∀ part, s.look (part :: name :: storage.dataRoot) = none := fun part => there [part]
      have gone := FS.rmdir_empty (FS.locateDir_dir located (there []))
        (join_lastPart storage.rootPath (bucket_is_name valid)) (List.cons_ne_nil _ _) empty
      simp only [Call.perform, gone, Option.some.injEq, Prod.mk.injEq] at performed
      obtain ⟨rfl, rfl⟩ := performed
      have seen := FS.look_drop s (name :: storage.dataRoot)
      exact ⟨.deleted, rest_update [] seen, by rintro ⟨⟩, by rintro ⟨⟩, absent _ (within_gone there seen),
        rest _ (.inl rfl)⟩

omit valid root limit [DecidableEq Thread] in
/-- What is in a directory is listed. -/
theorem readDir_lists {path : PathBuf} {dir : Path} {part : Str}
    {reply : Except Errno (List DirEntry)} (taken : faultFree (.readDir path) s reply after)
    (located : s.locateDir path = .ok dir) (there : s.look (part :: dir) ≠ none) :
    ∃ entry rest, reply = .ok (entry :: rest) := by
  have listed : wp faultFree (.call (.readDir path) .done :
      Prog Call Reply StorageError (Except Errno (List DirEntry)))
      (fun outcome _ => ∃ entry rest, outcome = .ok (.ok (entry :: rest))) s := by
    apply wp_readDir located
    intro order _ entries
    have member := (entries part).mpr there
    cases order with
    | nil => cases member
    | cons first rest => exact ⟨_, _, rfl⟩
  obtain ⟨entry, rest, same⟩ := wp_runs listed (.call taken (.done _ _))
  exact ⟨entry, rest, Except.ok.inj same⟩

omit valid root limit in
/-- A thread that has found no objects may begin to remove pieces. -/
theorem phase_checked (phase : BucketPhase crates storage start name
      (Function.update known thread .outside) s)
    (unoccupied : ∀ part, s.look (objectsName :: name :: storage.dataRoot) = some .dir →
      s.look (part :: objectsName :: name :: storage.dataRoot) = none) :
    BucketPhase crates storage start name (Function.update known thread (.emptying 0)) s := by
  have only : ∀ maker, (∀ other, (Function.update known thread .outside other).Making → other = maker) →
      ∀ other, (Function.update known thread (.emptying 0) other).Making → other = maker := by
    intro maker alone other makes
    apply alone other
    by_cases mine : other = thread
    · rw [mine, Function.update_self] at makes
      exact absurd makes not_false
    · rwa [Function.update_of_ne mine] at makes ⊢
  cases phase with
  | occupied part stands stored same _ =>
      have objects : s.look (objectsName :: name :: storage.dataRoot) = some .dir :=
        (same [objectsName]).trans stands.objects
      exact absurd ((same [part, objectsName]).symm.trans (unoccupied part objects)) stored
  | absent gone calm lost =>
      refine .absent gone (calm_update not_false calm) ?_
      intro other created
      obtain ⟨remover, deleted⟩ := lost other (stage_other created nofun)
      exact ⟨remover, stage_other deleted nofun⟩
  | filling maker count stage early there alone =>
      exact .filling maker count (stage_other stage nofun) early there (only maker alone)
  | recording maker inode stage named there alone =>
      exact .recording maker inode (stage_other stage nofun) named there (only maker alone)
  | standing count info own small there calm bound cause =>
      refine .standing count info own small there (calm_update not_false calm) ?_ ?_
      · intro other tried removes
        by_cases mine : other = thread
        · rw [mine, Function.update_self] at removes
          cases removes
          exact Nat.zero_le count
        · apply bound other tried
          rwa [Function.update_of_ne mine] at removes ⊢
      · intro started
        obtain ⟨other, tried, removes, far⟩ := cause started
        exact ⟨other, tried, stage_other removes nofun, far⟩

/-- The objects are looked at; only where there are none a removal follows. -/
theorem races_readObjects {next : Except Errno (List DirEntry) → Prog Call Reply Error Value}
    (empty : ∀ reply, reply = .ok [] ∨ reply = .error .ENOENT →
      Races crates storage start name thread (next reply) post (.emptying 0))
    (others : ∀ reply, reply ≠ .ok [] → reply ≠ .error .ENOENT →
      Races crates storage start name thread (next reply) post .outside) :
    Races crates storage start name thread (.call (.readDir (storage.objectsDir name)) next) post
      .outside := by
  apply races_step
  intro known past s reply after racing _ taken
  obtain rfl := quiet_same rfl taken
  by_cases free : reply = .ok [] ∨ reply = .error .ENOENT
  · refine ⟨.emptying 0, fun _ _ => rfl, nofun, nofun, phase_checked racing.phase ?_, empty reply free⟩
    intro part inside
    by_contra there
    have dir : after.look (name :: storage.dataRoot) = some .dir := by
      by_contra missing
      cases racing.phase with
      | occupied _ stands _ same _ => exact missing ((same []).trans stands.dir)
      | absent gone _ _ => exact nomatch (gone [objectsName]).symm.trans inside
      | filling _ _ _ _ there _ => exact missing (there [])
      | recording _ _ _ _ there _ => exact missing (there [])
      | standing _ _ _ _ there _ _ _ => exact missing (there [])
    have located := racing_piece valid root limit racing (by decide : objectsName ∈ pieces) dir
    obtain ⟨entry, rest, listed⟩ := readDir_lists taken (FS.locateDir_dir located inside) there
    rw [listed] at free
    rcases free with impossible | impossible <;> cases impossible
  · rw [not_or] at free
    exact ⟨.outside, fun _ _ => rfl, nofun, nofun, racing.phase, others reply free.1 free.2⟩

theorem races_removeDir {part : Str} {count : Nat} (nth : pieces[count]? = some part)
    (directory : part ≠ bucketJsonName)
    (begins : ∀ past reply, (count ≠ 0 → Emptying storage name thread past) →
      Emptying storage name thread
        (past ++ [⟨thread, .rmdir ((storage.bucketPath name).join part), reply⟩])) :
    Races crates storage start name thread
      (removeDirGuarded ((storage.bucketPath name).join part) name)
      (fun stage outcome => stage = .emptying (count + 1) ∧ outcome = .ok ()) (.emptying count) := by
  unfold removeDirGuarded
  apply races_rmdir valid root limit nth directory begins
  rintro reply (rfl | rfl)
  · rintro _ ⟨⟩
    exact ⟨rfl, rfl⟩
  · rintro _ ⟨⟩
    exact ⟨rfl, rfl⟩

/-- The last removal of `delete_bucket`, of the directory that held the pieces. -/
theorem races_lastRemoval : Races crates storage start name thread (do
      match ← Sys.rmdir (storage.bucketPath name) with
      | .ok () => pure ()
      | .error .ENOENT => pure ()
      | .error e => throw (.Io (.os e)) : Op Unit)
    (fun stage outcome => stage = if outcome.isOk then .deleted else .outside) (.emptying 3) := by
  apply races_rmdirBucket valid root limit
  rintro reply (rfl | rfl)
  · rintro _ ⟨⟩
    rfl
  · rintro _ ⟨⟩
    rfl

/-- The removals of `delete_bucket`, one after the other. -/
theorem races_removals : Races crates storage start name thread (do
      removeDirGuarded (storage.objectsDir name) name
      removeDirGuarded (storage.metaDir name) name
      match ← Sys.unlink ((storage.bucketPath name).join bucketJsonName) with
      | .ok () => pure ()
      | .error .ENOENT => pure ()
      | .error e => throw (.Io (.os e))
      match ← Sys.rmdir (storage.bucketPath name) with
      | .ok () => pure ()
      | .error .ENOENT => pure ()
      | .error e => throw (.Io (.os e)) : Op Unit)
    (fun stage outcome => stage = if outcome.isOk then .deleted else .outside) (.emptying 0) := by
  apply tracks_guarded_bind separate_lasting
  apply tracks_guarded_mono (races_removeDir valid root limit rfl objects_not_json ?_)
  · rintro _ _ ⟨rfl, rfl⟩
    apply tracks_guarded_bind separate_lasting
    apply tracks_guarded_mono (races_removeDir valid root limit rfl meta_not_json ?_)
    · rintro _ _ ⟨rfl, rfl⟩
      simp only [Prog.send_bind]
      apply races_unlink valid root limit
      rintro reply (rfl | rfl)
      · exact races_lastRemoval valid root limit
      · exact races_lastRemoval valid root limit
    · intro past reply before
      apply emptying_next (before (Nat.succ_ne_zero 0))
      intro _ same
      have equal := Call.rmdir.inj same
      rw [join_name _ (by decide : '/' ∉ metaName)] at equal
      have lengths := congrArg (fun path : PathBuf => path.rel.length) equal
      simp at lengths
  · exact fun past reply _ => ⟨past, reply, [], rfl, by rintro _ ⟨⟩⟩

/-- A deletion has removed the bucket, or it has changed nothing. -/
theorem races_deleteBucket : Races crates storage start name thread (deleteBucket storage name)
    (fun stage outcome => stage = if outcome.isOk then .deleted else .outside) .outside := by
  unfold deleteBucket
  simp only [valid, lift, Prog.ofExcept, Prog.done_bind, Prog.send_bind]
  apply races_look rfl
  intro _ _ _ there _ _
  cases there with
  | false =>
      rintro _ ⟨⟩
      rfl
  | true =>
      simp only [Bool.not_true, Bool.false_eq_true, if_false]
      apply races_readObjects valid root limit
      · rintro reply (rfl | rfl)
        · exact races_removals valid root limit
        · exact races_removals valid root limit
      · intro reply full failed
        cases reply with
        | ok entries =>
            cases entries with
            | nil => exact absurd rfl full
            | cons entry entries =>
                rintro _ ⟨⟩
                rfl
        | error e =>
            cases e <;> first
              | exact absurd rfl failed
              | (rintro _ ⟨⟩; rfl)

end Steps

/-! ### Any number of calls -/

section Runs
variable {Thread : Type} {crates : Crates} {storage : FsStorage} {start s : FS} {store : Store}
  {name : Str} {known : Thread → BucketStage}

/-- The tree of a bucket in which nothing is stored. -/
theorem view_empty {bucket : Bucket} {info : BucketInfo} {sidecars : Names ObjectMeta}
    (recorded : bucket.info = some info) (kept : bucket.sidecars = some sidecars)
    (unused : ∀ n, bucket.objects.lookup n = none) (bare : ∀ n, sidecars.lookup n = none)
    (rel : List Str) :
    bucket.view crates rel = bucketEntries pieces (crates.bucketInfo.encode info) rel.reverse := by
  rcases rel with _ | ⟨part, _ | ⟨more, deeper⟩⟩
  · rfl
  · simp only [List.reverse_singleton, Bucket.view, recorded, kept, Option.map_some, bucketEntries,
      pieces, List.mem_cons, List.not_mem_nil, or_false]
    by_cases json : part = bucketJsonName
    · simp [json]
    · by_cases objects : part = objectsName
      · simp [objects]
      · by_cases sidecar : part = metaName <;> simp [json, objects, sidecar]
  · rw [bucketEntries_deep (by simp)]
    cases deeper with
    | nil => simp [Bucket.view, kept, unused, bare]
    | cons third deeper => rfl

/-- A bucket directory that has all its pieces, and whose sidecars have their objects, is either
in use or empty. -/
theorem phase_start (holds : Holds crates storage start store) (valid : validateBucketName name = .ok ())
    (whole : ∀ old, store.buckets.lookup name = some old → old.Whole ∧ old.Paired) :
    BucketPhase crates storage start name (fun _ : Thread => .outside) start := by
  cases present : store.buckets.lookup name with
  | none =>
      refine .absent ?_ (fun _ => not_false) nofun
      intro inner
      have seen := look_below holds valid inner.reverse
      simpa [present] using seen
  | some old =>
      obtain ⟨⟨recorded, kept⟩, paired⟩ := whole old present
      obtain ⟨info, found⟩ := Option.isSome_iff_exists.mp recorded
      obtain ⟨sidecars, beside⟩ := Option.isSome_iff_exists.mp kept
      have sound := holds.sound.buckets name old present
      by_cases used : ∃ n body, old.objects.lookup n = some body
      · obtain ⟨n, body, stored⟩ := used
        refine .occupied n ⟨?_, look_objects holds valid present, ?_, ?_⟩ ?_ (fun _ => rfl) fun _ => rfl
        · simp [look_bucket holds valid, present]
        · simp [look_meta holds valid present, beside]
        · exact ⟨_, by simp [look_json holds valid present, found]; rfl⟩
        · simp [look_object holds valid present, stored]
      · have unused : ∀ n, old.objects.lookup n = none := by
          intro n
          cases stored : old.objects.lookup n with
          | none => rfl
          | some body => exact absurd ⟨n, body, stored⟩ used
        have bare : ∀ n, sidecars.lookup n = none := by
          intro n
          cases stored : sidecars.lookup n with
          | none => rfl
          | some objectMeta =>
              obtain ⟨encoded, _, rfl⟩ := sound.sidecars sidecars n objectMeta beside stored
              obtain ⟨body, there⟩ := paired sidecars encoded objectMeta beside stored
              exact absurd ⟨encoded, body, there⟩ used
        refine .standing 0 info (sound.named info found) (Nat.zero_le 3) ?_ (fun _ => not_false) nofun
          fun started => absurd rfl started
        intro inner
        have seen := look_below holds valid inner.reverse
        rw [List.reverse_reverse, present, Option.bind_some, view_empty found beside unused bare,
          List.reverse_reverse] at seen
        exact seen

/-- A bucket that stands again is that of a store. -/
theorem standing_holds (holds : Holds crates storage start store)
    (valid : validateBucketName name = .ok ()) {past : List (Event Thread Reply)} {t : FS}
    (racing : Racing crates storage start name known past t) {info : BucketInfo} (own : info.name = name)
    (there : Within storage name t (bucketEntries pieces (crates.bucketInfo.encode info))) :
    Holds crates storage t (store.setBucket name (.fresh info)) := by
  have sound : (Bucket.fresh info).Sound name := by
    subst own
    exact fresh_sound valid info.createdAt
  refine ⟨?_, sound_setBucket holds.sound sound, ?_, ?_⟩
  · funext rel
    cases rel with
    | nil => exact (racing_root (look_root holds) racing).trans rfl
    | cons first inner =>
        have path : (first :: inner).reverse ++ storage.dataRoot =
            inner.reverse ++ first :: storage.dataRoot := by simp
        unfold under
        rw [path]
        by_cases same : first = name
        · subst same
          rw [there, view_bucket (bucket_not_uploads valid)]
          simp only [Store.setBucket, Finmap.lookup_insert, Option.bind_some]
          exact (view_empty rfl rfl (fun _ => Finmap.lookup_empty _) (fun _ => Finmap.lookup_empty _)
            inner).symm
        · have elsewhere : ¬ name :: storage.dataRoot <:+ inner.reverse ++ first :: storage.dataRoot := by
            intro inside
            have both := List.suffix_of_suffix_length_le inside (List.suffix_append _ _) (by simp)
            exact same (List.cons.inj (both.eq_of_length (by simp))).1.symm
          have seen := congrFun holds.seen (first :: inner)
          unfold under at seen
          rw [path] at seen
          rw [racing.rest _ elsewhere, seen]
          simp [Store.view, Store.setBucket, Finmap.lookup_insert_of_ne _ same]
  · rw [racing.continues.limit]
    exact holds.limit
  · intro id upload staged
    exact racing.continues.issued (holds.issued id upload staged)

variable [DecidableEq Thread] {clients : Thread → Client}

/-- What the stage of a client says about its answer. -/
def Client.Settles (name : Str) (client : Client) (stage : BucketStage)
    (outcome : Except StorageError Received) : Prop :=
  (client = .createBucket name → stage = if outcome.isOk then .created else .outside) ∧
    (client = .deleteBucket name → stage = if outcome.isOk then .deleted else .outside)

theorem races_client (holds : Holds crates storage start store)
    (valid : validateBucketName name = .ok ()) (thread : Thread) {client : Client}
    (calls : client = .createBucket name ∨ client = .deleteBucket name) :
    Races crates storage start name thread (client.program crates storage) (client.Settles name)
      .outside := by
  have root := look_root holds
  rcases calls with rfl | rfl
  · apply tracks_guarded_bind separate_lasting
    apply tracks_guarded_mono (races_createBucket valid root holds.limit)
    rintro stage outcome rfl
    cases outcome with
    | error e => exact ⟨fun _ => rfl, nofun⟩
    | ok _ =>
        rintro _ ⟨⟩
        exact ⟨fun _ => rfl, nofun⟩
  · apply tracks_guarded_bind separate_lasting
    apply tracks_guarded_mono (races_deleteBucket valid root holds.limit)
    rintro stage outcome rfl
    cases outcome with
    | error e => exact ⟨nofun, fun _ => rfl⟩
    | ok _ =>
        rintro _ ⟨⟩
        exact ⟨nofun, fun _ => rfl⟩

end Runs

/-! ### Creations alone -/

/-- Calls that do not remove a directory. -/
def Lasting (call : Call) : Prop := ∀ path, call ≠ .rmdir path

theorem issues_ioOp {Value : Type} {kind : Call → Prop} {call : IoOp Value} (first : issues kind call) :
    issues kind (ioOp call) := by
  apply issues_bind (issues_attempt first)
  intro outcome
  cases outcome <;> exact trivial

theorem issues_createDirUpTo (height : Nat) (path : PathBuf) :
    issues Lasting (createDirUpTo height path) := by
  refine createDirUpTo_rule (fun _ program => issues Lasting program) ?_ ?_ ?_ ?_ ?_ height path
  · exact fun _ => trivial
  · exact fun _ _ => trivial
  · exact fun _ _ goes => ⟨by rintro _ ⟨⟩, goes⟩
  · exact fun _ _ goes => ⟨by rintro _ ⟨⟩, goes⟩
  · exact fun _ _ _ climbs goes => issues_bind climbs fun _ => goes

theorem issues_createBucket (crates : Crates) (storage : FsStorage) (name : Str) :
    issues Lasting (createBucket crates storage name) := by
  have made : ∀ path : PathBuf, issues Lasting (ioOp (createDirAll path)) :=
    fun path => issues_ioOp (issues_createDirUpTo _ path)
  unfold createBucket
  cases validateBucketName name with
  | error e => exact trivial
  | ok _ =>
  apply issues_bind (made _)
  intro _
  refine ⟨nofun, fun reply => ?_⟩
  cases reply with
  | error e => cases e <;> exact trivial
  | ok _ =>
  apply issues_bind (made _)
  intro _
  apply issues_bind (made _)
  intro _
  refine ⟨nofun, fun time => issues_ioOp ⟨nofun, fun reply => ?_⟩⟩
  cases reply with
  | error e => exact trivial
  | ok inode =>
      refine ⟨nofun, fun reply => ?_⟩
      cases reply <;> exact trivial

/-- Where nobody deletes, nothing is removed. -/
theorem creations_never_overlap {Thread : Type} [DecidableEq Thread] {crates : Crates}
    {storage : FsStorage} {start t : FS} {name : Str} {clients : Thread → Client}
    (creates : ∀ thread, clients thread = .createBucket name) {last : Thread → Op Received}
    {events : List (Event Thread Reply)}
    (run : Interleaves (fun _ => faultFree) (fun thread => (clients thread).program crates storage)
      start events last t) : NeverOverlap storage name events := by
  have kinds : ∀ thread, issues Lasting ((clients thread).program crates storage) := by
    intro thread
    rw [creates thread]
    exact issues_bind (issues_createBucket crates storage name) fun _ => trivial
  have lasting := interleaves_issues (fun _ => Lasting) kinds run
  rintro first earlier _ remover ⟨_, before, reply, after, rfl, _⟩
  have removal : (⟨remover, .rmdir (storage.objectsDir name), reply⟩ : Event Thread Reply) ∈ events :=
    earlier.subset (List.mem_append_right before List.mem_cons_self)
  exact lasting _ removal _ rfl

/-- Two creations of the bucket `photos`. -/
def twoCreations : Bool → Client := fun _ => .createBucket Reference.bucket

/-- The steps of a creation until `objects/` is there. -/
def createFirst (storage : FsStorage) (name : Str) : Op Unit := do
  ioOp (createDirAll (storage.bucketPath name).parent)
  match ← Sys.mkdir (storage.bucketPath name) with
  | .ok () => pure ()
  | .error .EEXIST => throw (.BucketAlreadyExists name)
  | .error e => throw (.Io (.os e))
  ioOp (createDirAll (storage.objectsDir name))

/-- The steps that are left then. -/
def createRest (crates : Crates) (storage : FsStorage) (name : Str) : Op Unit := do
  ioOp (createDirAll (storage.metaDir name))
  let createdAt ← Sys.now
  let info : BucketInfo := ⟨name, createdAt⟩
  ioOp (writeFile ((storage.bucketPath name).join bucketJsonName) (crates.bucketInfo.encode info))

theorem create_halves (crates : Crates) (storage : FsStorage) {name : Str}
    (valid : validateBucketName name = .ok ()) :
    createBucket crates storage name =
      createFirst storage name >>= fun _ => createRest crates storage name := by
  simp only [createBucket, createFirst, valid, lift, Prog.ofExcept, Prog.done_bind, Prog.bind_assoc]
  congr 1
  funext _
  simp only [Prog.send_bind]
  congr 1
  funext reply
  cases reply with
  | ok _ => rfl
  | error e => cases e <;> rfl

/-- The step that is left when a deletion has tried to remove all pieces. -/
def deleteRest (storage : FsStorage) (name : Str) : Op Unit := do
  match ← Sys.rmdir (storage.bucketPath name) with
  | .ok () => pure ()
  | .error .ENOENT => pure ()
  | .error e => throw (.Io (.os e))

namespace Reference

/-- The bucket directory with `objects/` in it. -/
def begunDisk : FS := ((disk none).mkdirAt bucketDir).mkdirAt (objectsName :: bucketDir)

/-- The bucket directory after `objects/` has been removed from it. -/
def emptiedDisk : FS := begunDisk.drop (objectsName :: bucketDir)

theorem create_first : Runs faultFree (createFirst storage bucket) (disk none) (.ok ()) begunDisk := by
  have valid : validateBucketName bucket = .ok () := by decide
  have root := (disk_empty none).root
  have nothing := (disk_empty none).nothing
  obtain ⟨_, _, _, slash, _⟩ := name_parts (bucket_is_name valid)
  have parent : (storage.bucketPath bucket).parent = storage.rootPath := parent_join _ slash
  have first : wp faultFree (createFirst storage bucket)
      (fun outcome after => outcome = .ok () ∧ after = begunDisk) (disk none) := by
    have located : (disk none).locate (storage.bucketPath bucket) = .ok bucketDir :=
      FS.locate_name (locate_root storage _) root (bucket_is_name valid) rfl
    have made : ((disk none).mkdirAt bucketDir).look bucketDir = some .dir := by simp
    have inside : ((disk none).mkdirAt bucketDir).locate (storage.objectsDir bucket) =
        .ok (objectsName :: bucketDir) :=
      locate_in_bucket objectsName valid (FS.mkdirAt_kept _ root) made (.inl rfl) (by decide) (by decide)
    have vacant : ((disk none).mkdirAt bucketDir).look (objectsName :: bucketDir) = none := by
      have absent := nothing [bucket, objectsName] (List.cons_ne_nil _ _)
      simpa [bucketDir] using absent
    unfold createFirst createDirAll
    rw [parent, wp_bind, wp_ioOp, wp_createDir_present _ (locate_root storage _) root]
    simp only [Except.mapError, Prog.send_bind, wp_mkdir,
      FS.mkdir_new located (nothing [bucket] (List.cons_ne_nil _ _)) root]
    rw [wp_ioOp, wp_createDir_new _ inside vacant made]
    exact ⟨rfl, rfl⟩
  obtain ⟨_, _, run, rfl, rfl⟩ := wp_returns first
  exact run

theorem emptied_look (path : Path) : emptiedDisk.look path =
    if path = objectsName :: bucketDir then none
    else if path = bucketDir then some .dir else (disk none).look path := by
  simp only [emptiedDisk, begunDisk, FS.look_drop, FS.look_mkdirAt, Function.update_apply]
  split <;> rfl

theorem emptied_root : emptiedDisk.look storage.dataRoot = some .dir := by
  rw [emptied_look, if_neg (by decide), if_neg (by decide)]
  exact (disk_empty none).root

theorem emptied_inside : emptiedDisk.look bucketDir = some .dir := by
  rw [emptied_look, if_neg (by decide), if_pos rfl]

theorem emptied_located {part : Str} (good : isName part = true) (short : utf8Len part ≤ 255) :
    emptiedDisk.locate ((storage.bucketPath bucket).join part) = .ok (part :: bucketDir) :=
  locate_in_bucket part (by decide) emptied_root emptied_inside (.inl rfl) good short

theorem emptied_vacant (part : Str) : emptiedDisk.look (part :: bucketDir) = none := by
  have absent := (disk_empty none).nothing [bucket, part] (List.cons_ne_nil _ _)
  have below : part :: bucketDir ≠ bucketDir := by simp
  rw [emptied_look, if_neg below]
  split
  · rfl
  · exact absent

/-- The deletion finds the bucket empty, removes `objects/` and finds nothing else. -/
theorem delete_first : Reaches faultFree (deleteBucket storage bucket) begunDisk
    (deleteRest storage bucket) emptiedDisk := by
  have valid : validateBucketName bucket = .ok () := by decide
  have root : begunDisk.look storage.dataRoot = some .dir :=
    FS.mkdirAt_kept _ (FS.mkdirAt_kept _ (disk_empty none).root)
  have inside : begunDisk.look bucketDir = some .dir := FS.mkdirAt_kept _ (by simp)
  have objects : begunDisk.look (objectsName :: bucketDir) = some .dir := by simp [begunDisk]
  have childless : ∀ part, begunDisk.look (part :: objectsName :: bucketDir) = none := by
    intro part
    have absent := (disk_empty none).nothing [bucket, objectsName, part] (List.cons_ne_nil _ _)
    have apart : part :: objectsName :: bucketDir ≠ objectsName :: bucketDir := by simp
    have below : part :: objectsName :: bucketDir ≠ bucketDir := by
      intro same
      have lengths := congrArg List.length same
      simp only [List.length_cons] at lengths
      omega
    rw [begunDisk, FS.look_mkdirAt, Function.update_of_ne apart, FS.look_mkdirAt,
      Function.update_of_ne below]
    exact absent
  have located : begunDisk.locate (storage.bucketPath bucket) = .ok bucketDir :=
    FS.locate_name (locate_root storage _) root (bucket_is_name valid) rfl
  have reached : begunDisk.locate (storage.objectsDir bucket) = .ok (objectsName :: bucketDir) :=
    locate_in_bucket objectsName valid root inside (.inl rfl) (by decide) (by decide)
  have there : faultFree (.exists (storage.bucketPath bucket)) begunDisk true begunDisk := by
    have found := FS.exists_located located
    rw [inside] at found
    exact ⟨{}, congrArg (fun found => some (found, begunDisk)) found⟩
  have listed : faultFree (.readDir (storage.objectsDir bucket)) begunDisk (.ok []) begunDisk := by
    have empty : begunDisk.children (objectsName :: bucketDir) = ∅ := FS.children_empty.mpr childless
    refine ⟨{}, ?_⟩
    simp [Call.perform, FS.readDir, FS.locateDir_dir reached objects, empty]
  have removed : faultFree (.rmdir (storage.objectsDir bucket)) begunDisk (.ok ()) emptiedDisk :=
    ⟨{}, congrArg some (FS.rmdir_empty (FS.locateDir_dir reached objects)
      (join_lastPart _ (by decide : isName objectsName = true)) (List.cons_ne_nil _ _) childless)⟩
  have missing : faultFree (.rmdir (storage.metaDir bucket)) emptiedDisk (.error .ENOENT) emptiedDisk :=
    ⟨{}, congrArg some (FS.rmdir_lost (FS.locateDir_absent (emptied_located (by decide) (by decide))
      (emptied_vacant metaName)))⟩
  have unrecorded : faultFree (.unlink ((storage.bucketPath bucket).join bucketJsonName)) emptiedDisk
      (.error .ENOENT) emptiedDisk :=
    ⟨{}, congrArg some (FS.unlink_absent (emptied_located (by decide) (by decide))
      (emptied_vacant bucketJsonName))⟩
  simp only [deleteBucket, valid, lift, Prog.ofExcept, Prog.done_bind]
  refine .step rfl there ?_
  refine .step rfl listed ?_
  refine .step rfl removed ?_
  refine .step rfl missing ?_
  refine .step rfl unrecorded ?_
  exact .here _ _

/-- The creation goes on as if `objects/` were there. -/
theorem create_rest : ∃ t, Runs faultFree (createRest Crates.reference storage bucket) emptiedDisk
      (.ok ()) t ∧ t.look storage.dataRoot = some .dir ∧ t.look bucketDir = some .dir ∧
    t.look (objectsName :: bucketDir) = none ∧ t.look (metaName :: bucketDir) = some .dir ∧
    t.nameMax = none := by
  have valid : validateBucketName bucket = .ok () := by decide
  have rest : wp faultFree (createRest Crates.reference storage bucket) (fun outcome t => outcome = .ok () ∧
      t.look storage.dataRoot = some .dir ∧ t.look bucketDir = some .dir ∧
      t.look (objectsName :: bucketDir) = none ∧ t.look (metaName :: bucketDir) = some .dir)
      emptiedDisk := by
    have metaDir : emptiedDisk.locate (storage.metaDir bucket) = .ok (metaName :: bucketDir) :=
      emptied_located (by decide) (by decide)
    unfold createRest createDirAll
    rw [wp_bind, wp_ioOp, wp_createDir_new _ metaDir (emptied_vacant metaName) emptied_inside]
    have root := FS.mkdirAt_kept (metaName :: bucketDir) emptied_root
    have inside := FS.mkdirAt_kept (metaName :: bucketDir) emptied_inside
    have vacant : (emptiedDisk.mkdirAt (metaName :: bucketDir)).look (bucketJsonName :: bucketDir) =
        none := by
      rw [FS.look_mkdirAt, Function.update_of_ne (by decide)]
      exact emptied_vacant bucketJsonName
    have located : (emptiedDisk.mkdirAt (metaName :: bucketDir)).locate
        ((storage.bucketPath bucket).join bucketJsonName) = .ok (bucketJsonName :: bucketDir) :=
      locate_in_bucket bucketJsonName valid root inside (.inl rfl) (by decide) (by decide)
    simp only [Except.mapError, Prog.send_bind]
    apply wp_now
    intro time
    rw [wp_ioOp]
    apply wp_writeFile located vacant inside
    intro after becomes
    rw [becomes.look]
    refine ⟨rfl, ?_, ?_, ?_, ?_⟩
    · rw [Function.update_of_ne (by decide)]
      exact root
    · rw [Function.update_of_ne (by decide)]
      exact inside
    · rw [Function.update_of_ne (by decide), FS.look_mkdirAt, Function.update_of_ne (by decide)]
      exact emptied_vacant objectsName
    · rw [Function.update_of_ne (by decide), FS.look_mkdirAt, Function.update_self]
  obtain ⟨_, t, run, ⟨rfl, root, inside, objects, made⟩, limit⟩ := wp_returns (wp_limited rest)
  exact ⟨t, run, root, inside, objects, made, limit⟩

end Reference

/-- A creation and a deletion of the bucket `photos`. -/
def createAndDelete : Bool → Client
  | false => .createBucket Reference.bucket
  | true => .deleteBucket Reference.bucket

end Ferrobucket
