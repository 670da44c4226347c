import Mathlib.Data.List.Sort
import Ferrobucket.Lib.Look
import Ferrobucket.Lib.Syscall
/-! Rules for programs on the machine without faults: one for each call. A call with a
single answer is executed in place; the others must be answered for every choice. -/
namespace Posix
open Text Program

variable {Error Value : Type} {post : Except Error Value → FS → Prop} {s : FS}

theorem wp_exec {call : Call} {next : Reply call → Prog Call Reply Error Value}
    {answer : Reply call} {after : FS}
    (only : ∀ choice, call.perform choice s = some (answer, after)) :
    wp faultFree (.call call next) post s ↔ wp faultFree (next answer) post after := by
  apply wp_call_iff
  intro reply state
  constructor
  · rintro ⟨choice, performed⟩
    rw [only choice] at performed
    cases performed
    exact ⟨rfl, rfl⟩
  · rintro ⟨rfl, rfl⟩
    exact ⟨{}, only {}⟩

namespace FS

/-- What no call changes: the limit on names, and that an issued id stays issued. -/
structure Continues (s after : FS) : Prop where
  limit : after.nameMax = s.nameMax
  issued : s.issued ⊆ after.issued

theorem continues_refl (s : FS) : s.Continues s := ⟨rfl, List.Subset.refl _⟩

theorem continues_trans {s middle after : FS} (first : s.Continues middle)
    (second : middle.Continues after) : s.Continues after :=
  ⟨second.limit.trans first.limit, List.Subset.trans first.issued second.issued⟩

theorem continues_mkdir (s : FS) (path : PathBuf) : s.Continues (s.mkdir path).2 := by
  unfold mkdir
  split
  · exact continues_refl s
  · split <;> exact ⟨rfl, List.Subset.refl _⟩

theorem continues_creat (s : FS) (path : PathBuf) : s.Continues (s.creat path).2 := by
  unfold creat
  split
  · exact continues_refl s
  · split
    · exact continues_refl s
    · exact ⟨rfl, List.Subset.refl _⟩
    · split <;> exact ⟨rfl, List.Subset.refl _⟩

theorem continues_rename (s : FS) (source target : PathBuf) :
    s.Continues (s.rename source target).2 := by
  unfold rename
  split
  · exact continues_refl s
  · exact continues_refl s
  · split
    · exact continues_refl s
    · exact continues_refl s
    · exact continues_refl s
    · exact ⟨limit_move s _ _, by rw [issued_move]; exact List.Subset.refl _⟩

theorem continues_unlink (s : FS) (path : PathBuf) : s.Continues (s.unlink path).2 := by
  unfold unlink
  split <;> exact ⟨rfl, List.Subset.refl _⟩

theorem continues_rmdir (s : FS) (path : PathBuf) : s.Continues (s.rmdir path).2 := by
  unfold rmdir
  split
  · exact continues_refl s
  · split_ifs <;> exact ⟨rfl, List.Subset.refl _⟩

end FS

theorem continues_perform {call : Call} {choice : Choice} {answer : Reply call} {after : FS}
    (performed : call.perform choice s = some (answer, after)) : s.Continues after := by
  have whole : ∀ {outcome : Reply call × FS}, call.perform choice s = some outcome →
      outcome.2 = after := by
    intro outcome same
    rw [same] at performed
    rw [Option.some.inj performed]
  cases call with
  | mkdir path => exact whole rfl ▸ s.continues_mkdir path
  | creat path => exact whole rfl ▸ s.continues_creat path
  | rename source target => exact whole rfl ▸ s.continues_rename source target
  | unlink path => exact whole rfl ▸ s.continues_unlink path
  | rmdir path => exact whole rfl ▸ s.continues_rmdir path
  | write handle chunk => exact whole rfl ▸ ⟨rfl, List.Subset.refl _⟩
  | «exists» path | isDir path | flush handle | «open» path | read handle | now =>
      exact whole rfl ▸ s.continues_refl
  | tempfileIn dir =>
      simp only [Call.perform, FS.tempfileIn] at performed
      split_ifs at performed
      split at performed
      · cases performed
        exact s.continues_refl
      · split at performed
        · cases performed
        · cases performed
          exact ⟨rfl, List.Subset.refl _⟩
  | readDir path =>
      obtain ⟨answer, _, same⟩ := Option.map_eq_some_iff.mp performed
      cases same
      exact s.continues_refl
  | readTree path =>
      obtain ⟨answer, _, same⟩ := Option.map_eq_some_iff.mp performed
      cases same
      exact s.continues_refl
  | uuid =>
      simp only [Call.perform] at performed
      split_ifs at performed
      cases performed
      exact ⟨rfl, List.subset_cons_self _ _⟩

theorem wp_limited {program : Prog Call Reply Error Value} (holds : wp faultFree program post s) :
    wp faultFree program (fun outcome after => post outcome after ∧ after.nameMax = s.nameMax) s := by
  refine wp_keeps ?_ holds rfl
  rintro call before answer after ⟨choice, performed⟩ kept
  exact (continues_perform performed).limit.trans kept

theorem runs_continue {program : Prog Call Reply Error Value} {before after : FS}
    {outcome : Except Error Value} (run : Runs faultFree program before outcome after) :
    before.Continues after := by
  induction run with
  | done => exact FS.continues_refl _
  | fail => exact FS.continues_refl _
  | call step _ ih =>
      obtain ⟨choice, performed⟩ := step
      exact FS.continues_trans (continues_perform performed) ih

theorem wp_mkdir (path : PathBuf) (next : Except Errno Unit → Prog Call Reply Error Value) :
    wp faultFree (.call (.mkdir path) next) post s ↔
      wp faultFree (next (s.mkdir path).1) post (s.mkdir path).2 :=
  wp_exec fun _ => rfl

theorem wp_exists (path : PathBuf) (next : Bool → Prog Call Reply Error Value) :
    wp faultFree (.call (.exists path) next) post s ↔
      wp faultFree (next (s.exists path)) post s :=
  wp_exec fun _ => rfl

theorem wp_isDir (path : PathBuf) (next : Bool → Prog Call Reply Error Value) :
    wp faultFree (.call (.isDir path) next) post s ↔
      wp faultFree (next (s.isDir path)) post s :=
  wp_exec fun _ => rfl

theorem wp_creat (path : PathBuf) (next : Except Errno Handle → Prog Call Reply Error Value) :
    wp faultFree (.call (.creat path) next) post s ↔
      wp faultFree (next (s.creat path).1) post (s.creat path).2 :=
  wp_exec fun _ => rfl

theorem wp_write (handle : Handle) (chunk : Bytes)
    (next : Except Errno Unit → Prog Call Reply Error Value) :
    wp faultFree (.call (.write handle chunk) next) post s ↔
      wp faultFree (next (.ok ())) post (s.write handle chunk) :=
  wp_exec fun _ => rfl

theorem wp_flush (handle : Handle) (next : Except Errno Unit → Prog Call Reply Error Value) :
    wp faultFree (.call (.flush handle) next) post s ↔ wp faultFree (next (.ok ())) post s :=
  wp_exec fun _ => rfl

theorem wp_rename (source target : PathBuf)
    (next : Except Errno Unit → Prog Call Reply Error Value) :
    wp faultFree (.call (.rename source target) next) post s ↔
      wp faultFree (next (s.rename source target).1) post (s.rename source target).2 :=
  wp_exec fun _ => rfl

theorem wp_unlink (path : PathBuf) (next : Except Errno Unit → Prog Call Reply Error Value) :
    wp faultFree (.call (.unlink path) next) post s ↔
      wp faultFree (next (s.unlink path).1) post (s.unlink path).2 :=
  wp_exec fun _ => rfl

theorem wp_rmdir (path : PathBuf) (next : Except Errno Unit → Prog Call Reply Error Value) :
    wp faultFree (.call (.rmdir path) next) post s ↔
      wp faultFree (next (s.rmdir path).1) post (s.rmdir path).2 :=
  wp_exec fun _ => rfl

theorem wp_open (path : PathBuf) (next : Except Errno Handle → Prog Call Reply Error Value) :
    wp faultFree (.call (.open path) next) post s ↔ wp faultFree (next (s.open path)) post s :=
  wp_exec fun _ => rfl

theorem wp_read (handle : Handle) (next : Except Errno Bytes → Prog Call Reply Error Value) :
    wp faultFree (.call (.read handle) next) post s ↔
      wp faultFree (next (.ok (s.data handle))) post s :=
  wp_exec fun _ => rfl

theorem wp_now {next : Nat → Prog Call Reply Error Value}
    (all : ∀ time, wp faultFree (next time) post s) : wp faultFree (.call .now next) post s := by
  refine ⟨⟨0, s, {}, rfl⟩, ?_⟩
  rintro reply after ⟨choice, performed⟩
  cases performed
  exact all _

theorem wp_uuid {next : Str → Prog Call Reply Error Value}
    (unused : ∃ name, isUuid name = true ∧ name ∉ s.issued)
    (all : ∀ name, isUuid name = true → name ∉ s.issued →
      wp faultFree (next name) post { s with issued := name :: s.issued }) :
    wp faultFree (.call .uuid next) post s := by
  obtain ⟨name, wellFormed, new⟩ := unused
  refine ⟨⟨name, _, { name := name }, by simp [Call.perform, wellFormed, new]; rfl⟩, ?_⟩
  rintro reply after ⟨choice, performed⟩
  simp only [Call.perform] at performed
  split at performed
  · next fits =>
      cases performed
      exact all _ fits.1 fits.2
  · cases performed

/-! ### Temporary files -/

theorem alphanumeric_char {c : Char} (letter : isAsciiAlphanumeric c = true) :
    c.toNat < 128 ∧ c ≠ '/' ∧ c ≠ '\u0000' ∧ c ≠ '.' := by
  simp only [isAsciiAlphanumeric, Bool.or_eq_true, Bool.and_eq_true, decide_eq_true_eq,
    Char.le_def, UInt32.le_iff_toNat_le] at letter
  have value : c.toNat = c.val.toNat := rfl
  have bound : c.toNat < 128 ∧ c.toNat ≠ 47 ∧ c.toNat ≠ 0 ∧ c.toNat ≠ 46 := by
    simp at letter
    omega
  refine ⟨bound.1, ?_, ?_, ?_⟩
  · rintro rfl
    exact bound.2.1 rfl
  · rintro rfl
    exact bound.2.2.1 rfl
  · rintro rfl
    exact bound.2.2.2 rfl

theorem temp_parts {name : Str} (temp : isTempName name = true) :
    name.length = 10 ∧ ∃ random, name = '.' :: 't' :: 'm' :: 'p' :: random ∧
      ∀ c ∈ random, isAsciiAlphanumeric c = true := by
  simp only [isTempName, Bool.and_eq_true, decide_eq_true_eq, List.all_eq_true] at temp
  obtain ⟨⟨length, front⟩, rest⟩ := temp
  refine ⟨length, name.drop 4, ?_, rest⟩
  have whole := List.take_append_drop 4 name
  rw [front] at whole
  exact whole.symm

theorem temp_is_name {name : Str} (temp : isTempName name = true) : isName name = true := by
  obtain ⟨_, random, rfl, letters⟩ := temp_parts temp
  have clean : ∀ c ∈ random, c ≠ '/' ∧ c ≠ '\u0000' := fun c member =>
    ⟨(alphanumeric_char (letters c member)).2.1, (alphanumeric_char (letters c member)).2.2.1⟩
  have slash : '/' ∉ random := fun member => (clean _ member).1 rfl
  have nul : '\u0000' ∉ random := fun member => (clean _ member).2 rfl
  simp [isName, slash, nul]

theorem temp_length {name : Str} (temp : isTempName name = true) : utf8Len name = 10 := by
  obtain ⟨length, random, rfl, letters⟩ := temp_parts temp
  rw [← length]
  apply utf8Len_ascii
  intro c member
  simp only [List.mem_cons] at member
  rcases member with rfl | rfl | rfl | rfl | inside
  · decide
  · decide
  · decide
  · decide
  · exact (alphanumeric_char (letters c inside)).1

theorem wp_tempfileIn {dir : PathBuf} {found : Path}
    {next : Except Errno (PathBuf × Handle) → Prog Call Reply Error Value}
    (located : s.locate dir = .ok found) (inside : s.look found = some .dir)
    (short : ∀ name, isTempName name = true → s.tooLong name = false)
    (unused : ∃ name, isTempName name = true ∧ s.look (name :: found) = none)
    (all : ∀ name, isTempName name = true → s.look (name :: found) = none →
      wp faultFree (next (.ok (dir.join name, s.nextInode))) post (s.newFile (name :: found))) :
    wp faultFree (.call (.tempfileIn dir) next) post s := by
  have answers : ∀ name, isTempName name = true → s.look (name :: found) = none →
      s.tempfileIn dir name = some (.ok (dir.join name, s.nextInode), s.newFile (name :: found)) := by
    intro name temp absent
    have target : s.locate (dir.join name) = .ok (name :: found) := by
      rw [FS.locate_join dir (temp_is_name temp), located]
      simp [Except.bind, FS.walk_name [] inside (temp_is_name temp) (short name temp)]
    simp [FS.tempfileIn, temp, target, FS.look_none.mp absent]
  obtain ⟨name, temp, absent⟩ := unused
  refine ⟨⟨_, _, { name := name }, answers name temp absent⟩, ?_⟩
  rintro reply after ⟨choice, performed⟩
  simp only [Call.perform] at performed
  by_cases temp : isTempName choice.name = true
  · by_cases absent : s.look (choice.name :: found) = none
    · rw [answers choice.name temp absent] at performed
      cases performed
      exact all choice.name temp absent
    · -- A name that is taken is not an answer: another one is drawn.
      have target : s.locate (dir.join choice.name) = .ok (choice.name :: found) := by
        rw [FS.locate_join dir (temp_is_name temp), located]
        simp [Except.bind, FS.walk_name [] inside (temp_is_name temp) (short _ temp)]
      obtain ⟨other, taken⟩ := Option.ne_none_iff_exists'.mp (mt FS.look_none.mpr absent)
      simp [FS.tempfileIn, temp, target, taken] at performed
  · simp [FS.tempfileIn, temp] at performed

theorem wp_tempfileIn_lost {dir : PathBuf} {e : Errno}
    {next : Except Errno (PathBuf × Handle) → Prog Call Reply Error Value}
    (lost : s.locate dir = .error e) (holds : wp faultFree (next (.error e)) post s) :
    wp faultFree (.call (.tempfileIn dir) next) post s := by
  have answers : ∀ name, isTempName name = true →
      s.tempfileIn dir name = some (.error e, s) := by
    intro name temp
    have target : s.locate (dir.join name) = .error e := by
      rw [FS.locate_join dir (temp_is_name temp), lost]
      rfl
    simp [FS.tempfileIn, temp, target]
  refine ⟨⟨_, _, { name := ".tmpAAAAAA".toList }, answers _ (by decide)⟩, ?_⟩
  rintro reply after ⟨choice, performed⟩
  simp only [Call.perform] at performed
  by_cases temp : isTempName choice.name = true
  · rw [answers choice.name temp] at performed
    cases performed
    exact holds
  · simp [FS.tempfileIn, temp] at performed

theorem wp_tempfileIn_absent {dir : PathBuf} {found : Path}
    {next : Except Errno (PathBuf × Handle) → Prog Call Reply Error Value}
    (located : s.locate dir = .ok found) (absent : s.look found = none)
    (holds : wp faultFree (next (.error .ENOENT)) post s) :
    wp faultFree (.call (.tempfileIn dir) next) post s := by
  have answers : ∀ name, isTempName name = true →
      s.tempfileIn dir name = some (.error .ENOENT, s) := by
    intro name temp
    have target : s.locate (dir.join name) = .error .ENOENT := by
      rw [FS.locate_join dir (temp_is_name temp), located]
      exact FS.walk_absent name [] absent
    simp [FS.tempfileIn, temp, target]
  refine ⟨⟨_, _, { name := ".tmpAAAAAA".toList }, answers _ (by decide)⟩, ?_⟩
  rintro reply after ⟨choice, performed⟩
  simp only [Call.perform] at performed
  by_cases temp : isTempName choice.name = true
  · rw [answers choice.name temp] at performed
    cases performed
    exact holds
  · simp [FS.tempfileIn, temp] at performed

/-! ### Directories -/

/-- A listing in any order: every entry once. -/
theorem wp_readDir {path : PathBuf} {dir : Path}
    {next : Except Errno (List DirEntry) → Prog Call Reply Error Value}
    (located : s.locateDir path = .ok dir)
    (all : ∀ order : List Str, order.Nodup →
      (∀ name, name ∈ order ↔ s.look (name :: dir) ≠ none) →
      wp faultFree (next (.ok (order.map fun name =>
        ⟨name, s.look (name :: dir) = some .dir⟩))) post s) :
    wp faultFree (.call (.readDir path) next) post s := by
  constructor
  · have whole : ((s.children dir).toList : Multiset Str) = (s.children dir).val :=
      Multiset.coe_toList _
    refine ⟨.ok ((s.children dir).toList.map fun name => ⟨name, s.node (name :: dir) = some .dir⟩),
      s, { order := (s.children dir).toList }, ?_⟩
    simp only [Call.perform, FS.readDir, located, whole, if_true, Option.map_some]
  · rintro reply after ⟨choice, performed⟩
    simp only [Call.perform, FS.readDir, located] at performed
    split at performed
    · next complete =>
        cases performed
        have distinct : choice.order.Nodup := by
          have unique := (s.children dir).nodup
          rw [← complete] at unique
          exact Multiset.coe_nodup.mp unique
        have entries : ∀ name, name ∈ choice.order ↔ s.look (name :: dir) ≠ none := by
          intro name
          have present := @FS.mem_children s dir name
          rw [← Finset.mem_val, ← complete, Multiset.mem_coe, Ne, ← FS.look_none] at present
          exact present
        have listed := all choice.order distinct entries
        simp only [FS.look_dir] at listed
        exact listed
    · cases performed

theorem wp_readDir_lost {path : PathBuf} {e : Errno}
    {next : Except Errno (List DirEntry) → Prog Call Reply Error Value}
    (lost : s.locateDir path = .error e) :
    wp faultFree (.call (.readDir path) next) post s ↔ wp faultFree (next (.error e)) post s :=
  wp_exec fun choice => by simp [Call.perform, FS.readDir, lost]

/-- Longest paths first: an order in which no directory comes before its contents. -/
theorem contents_first (paths : Finset Path) :
    ∃ tree : List Path, (tree : Multiset Path) = paths.val ∧
      tree.Pairwise fun first later => ¬ first <:+ later := by
  let longer : Path → Path → Prop := fun first later => later.length ≤ first.length
  refine ⟨paths.toList.insertionSort longer, ?_, ?_⟩
  · rw [Multiset.coe_eq_coe.mpr (List.perm_insertionSort longer _)]
    exact Multiset.coe_toList _
  · have distinct : (paths.toList.insertionSort longer).Nodup :=
      (List.perm_insertionSort longer _).nodup_iff.mpr paths.nodup_toList
    have descending : (paths.toList.insertionSort longer).Pairwise longer :=
      List.pairwise_insertionSort longer _
    apply (descending.and distinct).imp
    intro first later both inside
    have shorter := inside.length_le
    exact both.2 (inside.eq_of_length (le_antisymm shorter both.1))

theorem wp_readTree {path : PathBuf} {dir : Path}
    {next : Except Errno (List (Path × Bool)) → Prog Call Reply Error Value}
    (located : s.locateDir path = .ok dir)
    (all : ∀ tree : List Path, tree.Nodup →
      (∀ found, found ∈ tree ↔ s.look found ≠ none ∧ dir <:+ found ∧ found ≠ dir) →
      tree.Pairwise (fun first later => ¬ first <:+ later) →
      wp faultFree (next (.ok (tree.map fun found => (found, s.look found = some .dir)))) post s) :
    wp faultFree (.call (.readTree path) next) post s := by
  constructor
  · obtain ⟨tree, whole, ordered⟩ := contents_first (s.below dir)
    refine ⟨.ok (tree.map fun found => (found, s.node found = some .dir)), s, { tree := tree }, ?_⟩
    have both : (tree : Multiset Path) = (s.below dir).val ∧
        tree.Pairwise fun first later => ¬ first <:+ later := ⟨whole, ordered⟩
    simp only [Call.perform, FS.readTree, located, if_pos both, Option.map_some]
  · rintro reply after ⟨choice, performed⟩
    simp only [Call.perform, FS.readTree, located] at performed
    split at performed
    · next both =>
        cases performed
        have distinct : choice.tree.Nodup := by
          have unique := (s.below dir).nodup
          rw [← both.1] at unique
          exact Multiset.coe_nodup.mp unique
        have entries : ∀ found, found ∈ choice.tree ↔
            s.look found ≠ none ∧ dir <:+ found ∧ found ≠ dir := by
          intro found
          have present := @FS.mem_below s dir found
          rw [← Finset.mem_val, ← both.1, Multiset.mem_coe, Ne, ← FS.look_none] at present
          exact present
        have listed := all choice.tree distinct entries both.2
        simp only [FS.look_dir] at listed
        exact listed
    · cases performed

theorem wp_readTree_lost {path : PathBuf} {e : Errno}
    {next : Except Errno (List (Path × Bool)) → Prog Call Reply Error Value}
    (lost : s.locateDir path = .error e) :
    wp faultFree (.call (.readTree path) next) post s ↔ wp faultFree (next (.error e)) post s :=
  wp_exec fun choice => by simp [Call.perform, FS.readTree, lost]

end Posix
