import Ferrobucket.Lib.Look
import Ferrobucket.Lib.Steps
/-! A run of several threads, taken apart at one of its steps, and what no step of it changes
when nobody makes or removes directories. -/
namespace Program

section Passing
variable {Command : Type} {Reply : Command → Type} {Error Value State Thread : Type} [DecidableEq Thread]
  {sem : Thread → Semantics Command Reply State} {pool last : Thread → Prog Command Reply Error Value}
  {before after : State}

/-- A run goes through a state between any two of its steps. -/
theorem interleaves_split {first second : List (Event Thread Reply)}
    (run : Interleaves sem pool before (first ++ second) last after) :
    ∃ middle between, Interleaves sem pool before first middle between ∧
      Interleaves sem middle between second last after := by
  induction first generalizing pool before with
  | nil => exact ⟨pool, before, .stop pool before, run⟩
  | cons event first ih =>
      obtain ⟨thread, command, reply⟩ := event
      cases run with
      | step _ runs step later =>
          obtain ⟨middle, between, front, back⟩ := ih later
          exact ⟨middle, between, .step thread runs step front, back⟩

/-- The run goes through the state when the thread has begun and is not yet at its end. -/
def Amid (sem : Thread → Semantics Command Reply State) (pool last : Thread → Prog Command Reply Error Value)
    (before after : State) (events : List (Event Thread Reply)) (thread : Thread) (state : State) : Prop :=
  ∃ past rest middle, events = past ++ rest ∧ Interleaves sem pool before past middle state ∧
    Interleaves sem middle state rest last after ∧ (∃ event ∈ past, event.thread = thread) ∧
    ∃ event ∈ rest, event.thread = thread

theorem interleaves_first {event : Event Thread Reply} {later : List (Event Thread Reply)}
    (run : Interleaves sem pool before (event :: later) last after) :
    ∃ next, sem event.thread event.command before event.reply next := by
  obtain ⟨thread, command, reply⟩ := event
  cases run with
  | step _ _ step _ => exact ⟨_, step⟩

/-- What every step of the run keeps, the run keeps. -/
theorem interleaves_keeps {keeps : State → State → Prop} {kind : Command → Prop}
    {events : List (Event Thread Reply)} (same : ∀ state, keeps state state)
    (trans : ∀ {first second third}, keeps first second → keeps second third → keeps first third)
    (step : ∀ thread command state reply next, kind command → sem thread command state reply next →
      keeps state next) (all : ∀ event ∈ events, kind event.command)
    (run : Interleaves sem pool before events last after) : keeps before after := by
  induction run with
  | stop pool state => exact same state
  | step thread runs first _ ih =>
      have rest := ih fun event member => all event (List.mem_cons_of_mem _ member)
      exact trans (step thread _ _ _ _ (all _ List.mem_cons_self) first) rest

/-- A thread that takes no step is where it was. -/
theorem interleaves_waits {events : List (Event Thread Reply)} {thread : Thread}
    (run : Interleaves sem pool before events last after) (waits : ∀ event ∈ events, event.thread ≠ thread) :
    last thread = pool thread := by
  induction run with
  | stop pool state => rfl
  | @step pool _ _ _ _ _ other _ next reply _ _ _ ih =>
      rw [ih fun event member => waits event (List.mem_cons_of_mem _ member), Function.update_of_ne]
      exact (waits _ List.mem_cons_self).symm

/-- All threads from the beginning of their run. -/
theorem pool_begins {Ghost : Type} {inv : (Thread → Ghost) → List (Event Thread Reply) → State → Prop}
    {post : Thread → Ghost → Except Error Value → Prop} {ghosts : Thread → Ghost}
    {events : List (Event Thread Reply)}
    (tracked : ∀ thread, tracks (sem thread) (recorded thread) (among inv thread) (pool thread)
      (post thread) (ghosts thread))
    (start : inv ghosts [] before) (run : Interleaves sem pool before events last after) :
    ∃ ghosts', inv ghosts' events after ∧
      (∀ thread, tracks (sem thread) (recorded thread) (among inv thread) (last thread) (post thread)
        (ghosts' thread)) ∧
      ∀ thread, (∀ event ∈ events, event.thread ≠ thread) → ghosts' thread = ghosts thread :=
  pool_waits tracked start run

/-- A thread leaves alone what is said of the ghosts of others. -/
theorem tracks_fixed {Ghost : Type} {own : Semantics Command Reply State}
    {inv : (Thread → Ghost) → List (Event Thread Reply) → State → Prop} {fixed : (Thread → Ghost) → Prop}
    {thread : Thread} {program : Prog Command Reply Error Value} {post : Ghost → Except Error Value → Prop}
    {ghost : Ghost} (apart : ∀ ghosts old new, fixed (Function.update ghosts thread old) →
      fixed (Function.update ghosts thread new))
    (tracked : tracks own (recorded thread) (among inv thread) program post ghost) :
    tracks own (recorded thread)
      (among (fun ghosts past state => inv ghosts past state ∧ fixed ghosts) thread) program post ghost := by
  induction program generalizing ghost with
  | done value => exact tracked
  | fail error => exact tracked
  | call command next ih =>
      rintro world state reply after ⟨holds, still⟩ step
      obtain ⟨ghost', kept, later⟩ := tracked world state reply after holds step
      exact ⟨ghost', ⟨kept, apart _ _ _ still⟩, ih reply later⟩

end Passing
end Program

namespace Posix
open Text Program

/-- The call makes no directory and removes none. -/
def Call.sparesDirs : Call → Bool
  | .mkdir _ | .rmdir _ => false
  | _ => true

/-- The same directories. -/
def SameDirs (s t : FS) : Prop := ∀ path, t.look path = some .dir ↔ s.look path = some .dir

section Dirs
variable {s t u : FS}

theorem sameDirs_trans (first : SameDirs s t) (second : SameDirs t u) : SameDirs s u :=
  fun path => (second path).trans (first path)

theorem sameDirs_data (same : t.node = s.node) : SameDirs s t := by
  intro path
  rw [FS.look_dir, FS.look_dir, same]

/-- Only what is at one path changes, and it is no directory, before or after. -/
theorem sameDirs_node {path : Path} {now : Option Node} (plain : s.node path ≠ some .dir)
    (became : t.node = Function.update s.node path now) (still : now ≠ some .dir) : SameDirs s t := by
  intro other
  rw [FS.look_dir, FS.look_dir, became]
  by_cases same : other = path
  · subst same
    rw [Function.update_self]
    exact iff_of_false still plain
  · rw [Function.update_of_ne same]

/-- A file moves from one place to another. -/
theorem sameDirs_move {source target : Path} {inode : Nat} (file : s.node source = some (.file inode))
    (free : s.node target ≠ some .dir) : SameDirs s (s.move source target) := by
  have gone : SameDirs s (s.drop source) :=
    sameDirs_node (by simp [file]) (FS.node_drop s source) (by simp)
  have vacant : (s.drop source).node target ≠ some .dir := fun directory =>
    free (FS.look_dir.mp ((gone target).mp (FS.look_dir.mpr directory)))
  have placed : (s.move source target).node =
      Function.update (s.drop source).node target (some (.file inode)) := by
    rw [FS.node_drop, FS.node_move s file]
  exact sameDirs_trans gone (sameDirs_node vacant placed (by simp))

theorem dirs_step {call : Call} {answer : Reply call} (spares : call.sparesDirs = true)
    (step : faultFree call s answer t) : SameDirs s t := by
  by_cases quiet : call.quiet = true
  · obtain rfl := quiet_same quiet step
    exact sameDirs_data rfl
  obtain ⟨choice, performed⟩ := step
  cases call with
  | tempfileIn dir =>
      rcases temp_made ⟨choice, performed⟩ with ⟨_, _, _, rfl, _⟩ | ⟨_, place, _, _, absent, _, rfl⟩
      · exact sameDirs_data rfl
      · exact sameDirs_node (by simp [FS.look_none.mp absent]) (FS.node_newFile s place) (by simp)
  | creat path =>
      have same : (s.creat path).2 = t := congrArg Prod.snd (Option.some.inj performed)
      rcases creat_cases s path with ⟨_, _, _, _, done⟩ | ⟨found, _, absent, _, done⟩ | ⟨_, done⟩
      · rw [done] at same
        exact same ▸ sameDirs_data rfl
      · rw [done] at same
        exact same ▸ sameDirs_node (by simp [FS.look_none.mp absent]) (FS.node_newFile s found) (by simp)
      · rw [done] at same
        exact same ▸ sameDirs_data rfl
  | write handle chunk =>
      have same : s.write handle chunk = t := congrArg Prod.snd (Option.some.inj performed)
      exact same ▸ sameDirs_data rfl
  | rename source target =>
      have same : (s.rename source target).2 = t := congrArg Prod.snd (Option.some.inj performed)
      rw [← same]
      unfold FS.rename
      split
      · exact sameDirs_data rfl
      · exact sameDirs_data rfl
      · split
        · exact sameDirs_data rfl
        · exact sameDirs_data rfl
        · exact sameDirs_data rfl
        · next file free => exact sameDirs_move file free
  | unlink path =>
      have same : (s.unlink path).2 = t := congrArg Prod.snd (Option.some.inj performed)
      rw [← same]
      unfold FS.unlink
      cases located : s.locateFile path with
      | error e => exact sameDirs_data rfl
      | ok file =>
          obtain ⟨_, named⟩ := FS.locateFile_found located
          exact sameDirs_node (by simp [named]) (FS.node_drop s file.1) (by simp)
  | uuid =>
      simp only [Call.perform] at performed
      split_ifs at performed
      cases performed
      exact sameDirs_data rfl
  | mkdir path | rmdir path => cases spares
  | _ => exact absurd rfl quiet

/-- What a directory read has answered: every entry once, in some order. -/
theorem readDir_entries {path : PathBuf} {dir : Path} {answer : Except Errno (List DirEntry)}
    (step : faultFree (.readDir path) s answer t) (located : s.locateDir path = .ok dir) :
    ∃ order : List Str, order.Nodup ∧ (∀ name, name ∈ order ↔ s.look (name :: dir) ≠ none) ∧
      answer = .ok (order.map fun name => ⟨name, s.look (name :: dir) = some .dir⟩) := by
  have listed : wp faultFree (.call (.readDir path) .done :
      Prog Call Reply Errno (Except Errno (List DirEntry)))
      (fun outcome _ => ∃ order : List Str, order.Nodup ∧
        (∀ name, name ∈ order ↔ s.look (name :: dir) ≠ none) ∧
        outcome = .ok (.ok (order.map fun name => ⟨name, s.look (name :: dir) = some .dir⟩))) s :=
    wp_readDir located fun order distinct entries => ⟨order, distinct, entries, rfl⟩
  obtain ⟨order, distinct, entries, same⟩ := listed.2 answer t step
  exact ⟨order, distinct, entries, Except.ok.inj same⟩

section Run
variable {Thread Error Value : Type} [DecidableEq Thread] {pool last : Thread → Prog Call Reply Error Value}
  {events : List (Event Thread Reply)}

/-- Threads that make and remove no directories leave all directories as they are. -/
theorem interleaves_dirs (spare : ∀ thread, issues (fun call => call.sparesDirs = true) (pool thread))
    (run : Interleaves (fun _ => faultFree) pool s events last t) : SameDirs s t :=
  interleaves_keeps (fun _ => sameDirs_data rfl) sameDirs_trans
    (fun _ _ _ _ _ spares step => dirs_step spares step)
    (interleaves_issues (fun _ call => call.sparesDirs = true) spare run) run

end Run
end Dirs
end Posix
