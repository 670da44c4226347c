import Ferrobucket.Lib.Steps
/-! A file system without some of its paths. A program that only looks, and never comes
across one of the missing paths, cannot tell it from the whole one. -/
namespace Posix
open Text Program

/-- The same file system, in which the hidden paths are not there. -/
structure Without (hidden : Path → Prop) (s u : FS) : Prop where
  gone : ∀ path, hidden path → u.node path = none
  kept : ∀ path, ¬ hidden path → u.node path = s.node path
  data : u.data = s.data
  limit : u.nameMax = s.nameMax
  issued : u.issued = s.issued

section Without
variable {hidden : Path → Prop} {s u : FS}

theorem without_finitely (s : FS) (paths : Finset Path) : ∃ u, Without (· ∈ paths) s u := by
  induction paths using Finset.induction_on with
  | empty => exact ⟨s, fun path member => absurd member (Finset.notMem_empty path), fun _ _ => rfl, rfl, rfl, rfl⟩
  | insert first rest _ ih =>
      obtain ⟨u, without⟩ := ih
      refine ⟨u.drop first, ?_, ?_, without.data, without.limit, without.issued⟩
      · intro path member
        rcases Finset.mem_insert.mp member with rfl | inside
        · simp
        · by_cases same : path = first
          · simp [same]
          · rw [FS.node_drop, Function.update_of_ne same]
            exact without.gone path inside
      · intro path outside
        obtain ⟨different, other⟩ := not_or.mp (fun member => outside (Finset.mem_insert.mpr member))
        rw [FS.node_drop, Function.update_of_ne different]
        exact without.kept path other

/-- Whatever is to be hidden, there is such a file system. -/
theorem without_exists (s : FS) (hidden : Path → Prop) : ∃ u, Without hidden s u := by
  classical
  obtain ⟨u, without⟩ := without_finitely s (s.nodes.keys.filter hidden)
  refine ⟨u, ?_, ?_, without.data, without.limit, without.issued⟩
  · intro path covered
    by_cases there : path ∈ s.nodes.keys
    · exact without.gone path (Finset.mem_filter.mpr ⟨there, covered⟩)
    · rw [without.kept path fun member => there (Finset.mem_filter.mp member).1]
      exact Finmap.lookup_eq_none.mpr fun inside => there (Finmap.mem_keys.mpr inside)
  · intro path open'
    exact without.kept path fun member => open' (Finset.mem_filter.mp member).2

theorem without_look (without : Without hidden s u) {path : Path} (shown : ¬ hidden path) :
    u.look path = s.look path := by
  unfold FS.look
  rw [without.kept path shown, without.data]

theorem without_gone (without : Without hidden s u) {path : Path} (covered : hidden path) :
    u.look path = none :=
  FS.look_none.mpr (without.gone path covered)

/-- With a directory all that is below it is hidden. -/
theorem without_tree (without : Without hidden s u) (tree : s.Tree)
    (closed : ∀ path, path ≠ [] → hidden path.tail → hidden path) : u.Tree := by
  intro path nonempty there
  by_cases covered : hidden path
  · exact absurd (without_gone without covered) there
  · rw [without_look without covered] at there
    rw [without_look without fun above => covered (closed path nonempty above)]
    exact tree path nonempty there

end Without
/-! ### Programs that cannot tell -/

/-- A call that answers the same on both. -/
def Alike (s u : FS) (call : Call) : Prop :=
  ∀ choice, (call.perform choice s).map Prod.fst = (call.perform choice u).map Prod.fst

/-- Every call of the program only looks, and sees the same on both. -/
def Overlooks (s u : FS) {Error Value : Type} : Prog Call Reply Error Value → Prop
  | .done _ => True
  | .fail _ => True
  | .call call next => call.quiet = true ∧ Alike s u call ∧ ∀ reply, Overlooks s u (next reply)

section Overlooks
variable {s u : FS} {Error Failure Value Result : Type}

theorem overlooks_bind {program : Prog Call Reply Error Value}
    {rest : Value → Prog Call Reply Error Result} (first : Overlooks s u program)
    (later : ∀ value, Overlooks s u (rest value)) : Overlooks s u (program >>= rest) := by
  induction program with
  | done value => exact later value
  | fail error => trivial
  | call call next ih => exact ⟨first.1, first.2.1, fun reply => ih reply (first.2.2 reply)⟩

theorem overlooks_attempt {program : Prog Call Reply Error Value} (first : Overlooks s u program) :
    Overlooks s u (program.attempt : Prog Call Reply Failure (Except Error Value)) := by
  induction program with
  | done value => trivial
  | fail error => trivial
  | call call next ih => exact ⟨first.1, first.2.1, fun reply => ih reply (first.2.2 reply)⟩

theorem overlooks_symm {program : Prog Call Reply Error Value} (same : Overlooks s u program) :
    Overlooks u s program := by
  induction program with
  | done value => trivial
  | fail error => trivial
  | call call next ih =>
      exact ⟨same.1, fun choice => (same.2.1 choice).symm, fun reply => ih reply (same.2.2 reply)⟩

/-- What such a program does on the one it does on the other, and both stay as they are. -/
theorem wp_overlooked {program : Prog Call Reply Error Value} {post : Except Error Value → Prop}
    (same : Overlooks s u program) (holds : wp faultFree program (fun outcome _ => post outcome) u) :
    wp faultFree program (fun outcome after => after = s ∧ post outcome) s := by
  induction program with
  | done value => exact ⟨rfl, holds⟩
  | fail error => exact ⟨rfl, holds⟩
  | call call next ih =>
      obtain ⟨quiet, alike, rest⟩ := same
      obtain ⟨⟨reply, after, choice, performed⟩, all⟩ := holds
      constructor
      · have answered := alike choice
        rw [performed] at answered
        obtain ⟨⟨other, left⟩, here, _⟩ := Option.map_eq_some_iff.mp answered
        exact ⟨other, left, choice, here⟩
      · rintro reply after ⟨choice, performed⟩
        obtain rfl := quiet_same quiet ⟨choice, performed⟩
        have answered := (alike choice).symm
        rw [performed] at answered
        obtain ⟨⟨other, left⟩, there, (rfl : other = reply)⟩ := Option.map_eq_some_iff.mp answered
        obtain rfl := quiet_same quiet ⟨choice, there⟩
        exact ih other (rest other) (all other _ ⟨choice, there⟩)

theorem alike_exists {path : PathBuf} {found : Path} (here : s.locate path = .ok found)
    (there : u.locate path = .ok found) (same : s.node found = u.node found) :
    Alike s u (.exists path) := by
  intro choice
  simp [Call.perform, FS.exists, here, there, same]

theorem alike_open {path : PathBuf} (located : s.locate path = u.locate path)
    (same : ∀ found, u.locate path = .ok found → s.node found = u.node found) :
    Alike s u (.open path) := by
  intro choice
  simp only [Call.perform, Option.map_some, Option.some.injEq, FS.open, FS.locateFile, located]
  cases there : u.locate path with
  | error e => rfl
  | ok found => simp only [same found there]

theorem alike_read (same : s.data = u.data) (handle : Handle) : Alike s u (.read handle) := by
  intro choice
  simp [Call.perform, same]

theorem alike_readDir {path : PathBuf} {dir : Path} (here : s.locateDir path = .ok dir)
    (there : u.locateDir path = .ok dir) (same : ∀ name, s.node (name :: dir) = u.node (name :: dir)) :
    Alike s u (.readDir path) := by
  intro choice
  have children : s.children dir = u.children dir := by
    ext name
    rw [FS.mem_children, FS.mem_children, same]
  simp only [Call.perform, FS.readDir, here, there, children, same]
  split_ifs <;> rfl

end Overlooks
end Posix
