import Ferrobucket.Lib.Concurrent
import Ferrobucket.Lib.Machine
/-! Single steps of programs on the machine without faults: which calls change nothing,
and what each of the others does where it succeeds. -/
namespace Posix
open Text Program

/-- Calls that only look. -/
def Call.quiet : Call → Bool
  | .exists _ | .isDir _ | .readDir _ | .readTree _ | .flush _ | .open _ | .read _ | .now => true
  | _ => false

theorem quiet_same {call : Call} {s after : FS} {answer : Reply call} (quiet : call.quiet = true)
    (step : faultFree call s answer after) : after = s := by
  obtain ⟨choice, performed⟩ := step
  cases call with
  | «exists» path | isDir path | flush handle | «open» path | read handle | now =>
      cases performed
      rfl
  | readDir path =>
      obtain ⟨_, _, same⟩ := Option.map_eq_some_iff.mp performed
      cases same
      rfl
  | readTree path =>
      obtain ⟨_, _, same⟩ := Option.map_eq_some_iff.mp performed
      cases same
      rfl
  | _ => cases quiet

/-- A call with a single answer has given that one. -/
theorem exec_taken {call : Call} {s after : FS} {answer : Reply call} {result : Reply call × FS}
    (only : ∀ choice, call.perform choice s = some result) (step : faultFree call s answer after) :
    answer = result.1 ∧ after = result.2 := by
  obtain ⟨choice, performed⟩ := step
  rw [only choice] at performed
  cases performed
  exact ⟨rfl, rfl⟩

section Tracking
variable {World Ghost Error Value : Type} {inv : World → Ghost → FS → Prop} {ghost : Ghost}
  {post : Ghost → Except Error Value → Prop}
  {advance : World → (call : Call) → Reply call → World}

theorem tracks_quiet {call : Call} {next : Reply call → Prog Call Reply Error Value}
    (quiet : call.quiet = true) (all : ∀ reply, tracks faultFree stays inv (next reply) post ghost) :
    tracks faultFree stays inv (.call call next) post ghost := by
  intro world s reply after holds step
  obtain rfl := quiet_same quiet step
  exact ⟨ghost, holds, all reply⟩

/-- A call with a single answer is executed in place. -/
theorem tracks_exec {call : Call} {next : Reply call → Prog Call Reply Error Value}
    (all : ∀ world s, inv world ghost s → ∃ answer after,
      (∀ choice, call.perform choice s = some (answer, after)) ∧
        ∃ ghost', inv (advance world call answer) ghost' after ∧
          tracks faultFree advance inv (next answer) post ghost') :
    tracks faultFree advance inv (.call call next) post ghost := by
  rintro world s reply after holds ⟨choice, performed⟩
  obtain ⟨answer, result, only, ghost', still, later⟩ := all world s holds
  rw [only choice] at performed
  cases performed
  exact ⟨ghost', still, later⟩

end Tracking

/-- A temporary file: the path it was made under, where that is, and its inode. -/
structure Temp where
  name : PathBuf
  place : Path
  inode : Handle

/-- A directory that is removed is the one its path leads to. -/
theorem rmdir_changes (s : FS) (path : PathBuf) :
    (s.rmdir path).2 = s ∨ ∃ found, s.locate path = .ok found ∧ (s.rmdir path).2 = s.drop found := by
  unfold FS.rmdir
  cases located : s.locateDir path with
  | error e => exact .inl rfl
  | ok found =>
      simp only []
      split_ifs
      · exact .inl rfl
      · exact .inl rfl
      · exact .inl rfl
      · exact .inr ⟨found, FS.locateDir_ok located, rfl⟩
      · exact .inl rfl

/-- A file that is unlinked is the one its path leads to. -/
theorem unlink_changes (s : FS) (path : PathBuf) :
    (s.unlink path).2 = s ∨ ∃ found, s.locate path = .ok found ∧ (s.unlink path).2 = s.drop found := by
  unfold FS.unlink
  cases located : s.locateFile path with
  | error e => exact .inl rfl
  | ok file => exact .inr ⟨file.1, FS.locateFile_ok located, rfl⟩

/-- What removing a directory answers. -/
theorem rmdir_cases (s : FS) (path : PathBuf) :
    (∃ found, s.locate path = .ok found ∧ s.look found = some .dir ∧
      (∀ name, s.look (name :: found) = none) ∧ s.rmdir path = (.ok (), s.drop found)) ∨
    ∃ e, s.rmdir path = (.error e, s) := by
  cases located : s.locateDir path with
  | error e => exact .inr ⟨e, FS.rmdir_lost located⟩
  | ok found =>
      unfold FS.rmdir
      simp only [located]
      split_ifs with dot dots top empty
      · exact .inr ⟨_, rfl⟩
      · exact .inr ⟨_, rfl⟩
      · exact .inr ⟨_, rfl⟩
      · obtain ⟨place, inside⟩ := FS.locateDir_found located
        exact .inl ⟨found, place, inside, FS.children_empty.mp empty, rfl⟩
      · exact .inr ⟨_, rfl⟩

/-- What making or emptying a file answers. -/
theorem creat_cases (s : FS) (path : PathBuf) :
    (∃ found inode, s.locate path = .ok found ∧ s.node found = some (.file inode) ∧
      s.creat path = (.ok inode, s.setData inode [])) ∨
    (∃ found, s.locate path = .ok found ∧ s.look found = none ∧ s.look found.tail = some .dir ∧
      s.creat path = (.ok s.nextInode, s.newFile found)) ∨
    ∃ e, s.creat path = (.error e, s) := by
  unfold FS.creat
  cases located : s.locate path with
  | error e => exact .inr (.inr ⟨e, rfl⟩)
  | ok found =>
      simp only []
      cases named : s.node found with
      | some node =>
          cases node with
          | dir => exact .inr (.inr ⟨_, rfl⟩)
          | file inode => exact .inl ⟨found, inode, rfl, named, rfl⟩
      | none =>
          simp only []
          cases parent : s.node found.tail with
          | none => exact .inr (.inr ⟨_, rfl⟩)
          | some node =>
              cases node with
              | file inode => exact .inr (.inr ⟨_, rfl⟩)
              | dir => exact .inr (.inl ⟨found, rfl, FS.look_none.mpr named, FS.look_dir.mpr parent, rfl⟩)

/-- A tree walk finds what is below its directory and tells directories from files. -/
theorem tree_listed {path : PathBuf} {s after : FS} {answer : Except Errno (List (Path × Bool))}
    (step : faultFree (.readTree path) s answer after) :
    after = s ∧ ((∃ e, s.locateDir path = .error e ∧ answer = .error e) ∨ ∃ dir entries,
      s.locateDir path = .ok dir ∧ answer = .ok entries ∧
        ∀ entry ∈ entries, s.look entry.1 ≠ none ∧ (dir <:+ entry.1 ∧ entry.1 ≠ dir) ∧
          (entry.2 = true ↔ s.look entry.1 = some .dir)) := by
  refine ⟨quiet_same rfl step, ?_⟩
  obtain ⟨choice, performed⟩ := step
  obtain ⟨reply, read, same⟩ := Option.map_eq_some_iff.mp performed
  cases same
  unfold FS.readTree at read
  cases located : s.locateDir path with
  | error e =>
      rw [located] at read
      exact .inl ⟨e, rfl, (Option.some.inj read).symm⟩
  | ok dir =>
      simp only [located] at read
      split_ifs at read with whole
      refine .inr ⟨dir, _, rfl, (Option.some.inj read).symm, ?_⟩
      intro entry member
      obtain ⟨found, listed, rfl⟩ := List.mem_map.mp member
      have below : found ∈ s.below dir := by
        rw [← Finset.mem_val, ← whole.1]
        exact listed
      obtain ⟨there, inside⟩ := FS.mem_below.mp below
      exact ⟨fun absent => there (FS.look_none.mp absent), inside,
        decide_eq_true_iff.trans FS.look_dir.symm⟩

/-- A tree walk finds only what is below its directory. -/
theorem tree_read {path : PathBuf} {s after : FS} {answer : Except Errno (List (Path × Bool))}
    (step : faultFree (.readTree path) s answer after) :
    after = s ∧ ((∃ e, answer = .error e) ∨ ∃ dir entries, s.locate path = .ok dir ∧
      answer = .ok entries ∧ ∀ entry ∈ entries, dir <:+ entry.1) := by
  obtain ⟨same, listed⟩ := tree_listed step
  refine ⟨same, ?_⟩
  rcases listed with ⟨e, _, failed⟩ | ⟨dir, entries, located, answered, below⟩
  · exact .inl ⟨e, failed⟩
  · exact .inr ⟨dir, entries, FS.locateDir_ok located, answered, fun entry member =>
      (below entry member).2.1.1⟩

/-- What a temporary file is made of. -/
theorem temp_made {dir : PathBuf} {s after : FS} {answer : Except Errno (PathBuf × Handle)}
    (step : faultFree (.tempfileIn dir) s answer after) :
    (∃ e name, answer = .error e ∧ after = s ∧ isTempName name = true ∧
      s.locate (dir.join name) = .error e) ∨
    (∃ name place, isTempName name = true ∧ s.locate (dir.join name) = .ok place ∧
      s.look place = none ∧ answer = .ok (dir.join name, s.nextInode) ∧ after = s.newFile place) := by
  obtain ⟨choice, performed⟩ := step
  simp only [Call.perform, FS.tempfileIn] at performed
  split_ifs at performed with temp
  split at performed
  · next failed =>
      cases performed
      exact .inl ⟨_, _, rfl, rfl, temp, failed⟩
  · next place located =>
      split at performed
      · cases performed
      · next absent =>
          cases performed
          exact .inr ⟨_, place, temp, located, FS.look_none.mpr absent, rfl, rfl⟩

end Posix
