import Mathlib.Data.List.Basic
import Ferrobucket.Lib.Program
/-! Programs one step at a time: cut short after some of their steps, or interleaved
with others. A program is followed by a ghost value of its own, which says where the
program is and what it owns; one invariant relates the ghosts and what has happened so
far to the state. Nobody else changes a thread's ghost, so what is shown about each
thread alone holds of all together. -/
namespace Program

variable {Command : Type} {Reply : Command → Type} {Error Failure Value Result State : Type}
variable {World Ghost : Type}

/-- The state that a program has reached after exactly so many steps. -/
inductive Cut (sem : Semantics Command Reply State) :
    Nat → Prog Command Reply Error Value → State → State → Prop
  | here (program : Prog Command Reply Error Value) (state : State) : Cut sem 0 program state state
  | step {count : Nat} {command : Command} {next : Reply command → Prog Command Reply Error Value}
      {before middle after : State} {reply : Reply command} (first : sem command before reply middle)
      (rest : Cut sem count (next reply) middle after) : Cut sem (count + 1) (.call command next) before after

variable (sem : Semantics Command Reply State)
  (advance : World → (command : Command) → Reply command → World) (inv : World → Ghost → State → Prop)

/-- Each step of the program keeps the invariant with a new ghost, whatever the world
around it is, and the last ghost suits the outcome. `advance` is what a step does to the
world. -/
def tracks : Prog Command Reply Error Value → (Ghost → Except Error Value → Prop) → Ghost → Prop
  | .done value, post, ghost => post ghost (.ok value)
  | .fail error, post, ghost => post ghost (.error error)
  | .call command next, post, ghost =>
      ∀ world state reply after, inv world ghost state → sem command state reply after →
        ∃ ghost', inv (advance world command reply) ghost' after ∧ tracks (next reply) post ghost'

/-- A world that steps do not change. -/
def stays (world : World) (command : Command) (_ : Reply command) : World := world

variable {sem} {advance} {inv}

theorem tracks_mono {program : Prog Command Reply Error Value}
    {weak strong : Ghost → Except Error Value → Prop} {ghost : Ghost}
    (tracked : tracks sem advance inv program strong ghost)
    (weaker : ∀ ghost outcome, strong ghost outcome → weak ghost outcome) :
    tracks sem advance inv program weak ghost := by
  induction program generalizing ghost with
  | done value => exact weaker _ _ tracked
  | fail error => exact weaker _ _ tracked
  | call command next ih =>
      intro world state reply after holds step
      obtain ⟨ghost', still, later⟩ := tracked world state reply after holds step
      exact ⟨ghost', still, ih reply later⟩

theorem tracks_bind {program : Prog Command Reply Error Value}
    {rest : Value → Prog Command Reply Error Result} {post : Ghost → Except Error Result → Prop}
    {ghost : Ghost} :
    tracks sem advance inv (program >>= rest) post ghost ↔
      tracks sem advance inv program (fun ghost' outcome =>
        match outcome with
        | .ok value => tracks sem advance inv (rest value) post ghost'
        | .error error => post ghost' (.error error)) ghost := by
  induction program generalizing ghost with
  | done value => exact Iff.rfl
  | fail error => exact Iff.rfl
  | call command next ih =>
      constructor
      · intro tracked world state reply after holds step
        obtain ⟨ghost', still, later⟩ := tracked world state reply after holds step
        exact ⟨ghost', still, (ih reply).mp later⟩
      · intro tracked world state reply after holds step
        obtain ⟨ghost', still, later⟩ := tracked world state reply after holds step
        exact ⟨ghost', still, (ih reply).mpr later⟩

theorem tracks_attempt {program : Prog Command Reply Error Value}
    {post : Ghost → Except Failure (Except Error Value) → Prop} {ghost : Ghost} :
    tracks sem advance inv program.attempt post ghost ↔
      tracks sem advance inv program (fun ghost' outcome => post ghost' (.ok outcome)) ghost := by
  induction program generalizing ghost with
  | done value => exact Iff.rfl
  | fail error => exact Iff.rfl
  | call command next ih =>
      constructor
      · intro tracked world state reply after holds step
        obtain ⟨ghost', still, later⟩ := tracked world state reply after holds step
        exact ⟨ghost', still, (ih reply).mp later⟩
      · intro tracked world state reply after holds step
        obtain ⟨ghost', still, later⟩ := tracked world state reply after holds step
        exact ⟨ghost', still, (ih reply).mpr later⟩

/-- The invariant holds wherever the program is cut. -/
theorem tracks_cut {program : Prog Command Reply Error Value}
    {post : Ghost → Except Error Value → Prop} {world : World} {ghost : Ghost} {before after : State}
    {count : Nat} (tracked : tracks sem stays inv program post ghost) (start : inv world ghost before)
    (cut : Cut sem count program before after) : ∃ ghost', inv world ghost' after := by
  induction cut generalizing ghost with
  | here => exact ⟨ghost, start⟩
  | step first _ ih =>
      obtain ⟨ghost', still, later⟩ := tracked world _ _ _ start first
      exact ih later still

theorem tracks_runs {program : Prog Command Reply Error Value}
    {post : Ghost → Except Error Value → Prop} {world : World} {ghost : Ghost} {before after : State}
    {outcome : Except Error Value} (tracked : tracks sem stays inv program post ghost)
    (start : inv world ghost before) (run : Runs sem program before outcome after) :
    ∃ ghost', inv world ghost' after ∧ post ghost' outcome := by
  induction run generalizing ghost with
  | done => exact ⟨ghost, start, tracked⟩
  | fail => exact ⟨ghost, start, tracked⟩
  | call step _ ih =>
      obtain ⟨ghost', still, later⟩ := tracked world _ _ _ start step
      exact ih later still

/-- A run is a cut that goes to the end. -/
theorem runs_cut {program : Prog Command Reply Error Value} {before after : State}
    {outcome : Except Error Value} (run : Runs sem program before outcome after) :
    ∃ count, Cut sem count program before after := by
  induction run with
  | done value state => exact ⟨0, .here _ state⟩
  | fail error state => exact ⟨0, .here _ state⟩
  | call step _ ih =>
      obtain ⟨count, cut⟩ := ih
      exact ⟨count + 1, .step step cut⟩

/-! ### Threads -/

section Threads
variable {Thread : Type} [DecidableEq Thread]

/-- A step of a thread, as it can be seen from outside. -/
structure Event (Thread : Type) {Command : Type} (Reply : Command → Type) where
  thread : Thread
  command : Command
  reply : Reply command

/-- What a pool of threads can become, one step of one thread at a time, and the steps that
lead there. Each thread may have a machine of its own, all on the same state. -/
inductive Interleaves (sem : Thread → Semantics Command Reply State) :
    (Thread → Prog Command Reply Error Value) → State → List (Event Thread Reply) →
    (Thread → Prog Command Reply Error Value) → State → Prop
  | stop (pool : Thread → Prog Command Reply Error Value) (state : State) :
      Interleaves sem pool state [] pool state
  | step {pool last : Thread → Prog Command Reply Error Value} {before middle after : State}
      {later : List (Event Thread Reply)} (thread : Thread) {command : Command}
      {next : Reply command → Prog Command Reply Error Value} {reply : Reply command}
      (runs : pool thread = .call command next) (first : sem thread command before reply middle)
      (rest : Interleaves sem (Function.update pool thread (next reply)) middle later last after) :
      Interleaves sem pool before (⟨thread, command, reply⟩ :: later) last after

/-- A thread among others, whose ghosts it does not touch. -/
def among (inv : (Thread → Ghost) → List (Event Thread Reply) → State → Prop) (thread : Thread)
    (world : (Thread → Ghost) × List (Event Thread Reply)) (ghost : Ghost) (state : State) : Prop :=
  inv (Function.update world.1 thread ghost) world.2 state

/-- The step of a thread is written down. -/
def recorded (thread : Thread) (world : (Thread → Ghost) × List (Event Thread Reply))
    (command : Command) (reply : Reply command) : (Thread → Ghost) × List (Event Thread Reply) :=
  (world.1, world.2 ++ [⟨thread, command, reply⟩])

/-- Threads that keep the invariant one by one keep it together, and whoever takes no step keeps
its ghost. -/
theorem pool_waits {sem : Thread → Semantics Command Reply State}
    {inv : (Thread → Ghost) → List (Event Thread Reply) → State → Prop}
    {post : Thread → Ghost → Except Error Value → Prop}
    {pool last : Thread → Prog Command Reply Error Value} {ghosts : Thread → Ghost}
    {past events : List (Event Thread Reply)} {before after : State}
    (tracked : ∀ thread, tracks (sem thread) (recorded thread) (among inv thread) (pool thread)
      (post thread) (ghosts thread))
    (start : inv ghosts past before) (run : Interleaves sem pool before events last after) :
    ∃ ghosts', inv ghosts' (past ++ events) after ∧
      (∀ thread, tracks (sem thread) (recorded thread) (among inv thread) (last thread) (post thread)
        (ghosts' thread)) ∧
      ∀ thread, (∀ event ∈ events, event.thread ≠ thread) → ghosts' thread = ghosts thread := by
  induction run generalizing ghosts past with
  | stop pool state =>
      rw [List.append_nil]
      exact ⟨ghosts, start, tracked, fun _ _ => rfl⟩
  | @step pool _ state _ _ later thread command next reply runs first _ ih =>
      have own := tracked thread
      rw [runs] at own
      have here : among inv thread (ghosts, past) (ghosts thread) state := by
        unfold among
        rw [Function.update_eq_self]
        exact start
      obtain ⟨ghost', still, rest⟩ := own (ghosts, past) _ _ _ here first
      have joined : past ++ ⟨thread, command, reply⟩ :: later =
          (past ++ [⟨thread, command, reply⟩]) ++ later := by simp
      rw [joined]
      have pool' : ∀ other, tracks (sem other) (recorded other) (among inv other)
          (Function.update pool thread (next reply) other) (post other)
          (Function.update ghosts thread ghost' other) := by
        intro other
        by_cases same : other = thread
        · subst same
          rw [Function.update_self, Function.update_self]
          exact rest
        · rw [Function.update_of_ne same, Function.update_of_ne same]
          exact tracked other
      obtain ⟨ghosts', kept, tracked', waits⟩ := ih pool' still
      refine ⟨ghosts', kept, tracked', ?_⟩
      intro other absent
      have different : other ≠ thread := (absent _ List.mem_cons_self).symm
      rw [waits other fun event member => absent event (List.mem_cons_of_mem _ member),
        Function.update_of_ne different]

theorem pool_tracks {sem : Thread → Semantics Command Reply State}
    {inv : (Thread → Ghost) → List (Event Thread Reply) → State → Prop}
    {post : Thread → Ghost → Except Error Value → Prop}
    {pool last : Thread → Prog Command Reply Error Value} {ghosts : Thread → Ghost}
    {past events : List (Event Thread Reply)} {before after : State}
    (tracked : ∀ thread, tracks (sem thread) (recorded thread) (among inv thread) (pool thread)
      (post thread) (ghosts thread))
    (start : inv ghosts past before) (run : Interleaves sem pool before events last after) :
    ∃ ghosts', inv ghosts' (past ++ events) after ∧
      ∀ thread, tracks (sem thread) (recorded thread) (among inv thread) (last thread) (post thread)
        (ghosts' thread) := by
  obtain ⟨ghosts', kept, still, _⟩ := pool_waits tracked start run
  exact ⟨ghosts', kept, still⟩

/-! ### Runs of one thread after another -/

/-- The program that has ended with this outcome. -/
def ended : Except Error Value → Prog Command Reply Error Value
  | .ok value => .done value
  | .error error => .fail error

theorem tracks_ended {sem : Semantics Command Reply State} {advance : World →
      (command : Command) → Reply command → World} {inv : World → Ghost → State → Prop}
    {post : Ghost → Except Error Value → Prop} {outcome : Except Error Value} {ghost : Ghost}
    (tracked : tracks sem advance inv (ended outcome) post ghost) : post ghost outcome := by
  cases outcome with
  | ok value => exact tracked
  | error error => exact tracked

theorem interleaves_append {sem : Thread → Semantics Command Reply State}
    {pool middle last : Thread → Prog Command Reply Error Value} {before between after : State}
    {events later : List (Event Thread Reply)} (first : Interleaves sem pool before events middle between)
    (second : Interleaves sem middle between later last after) :
    Interleaves sem pool before (events ++ later) last after := by
  induction first with
  | stop => exact second
  | step thread runs step _ ih => exact .step thread runs step (ih second)

/-- What a program has come to after some of its steps. -/
inductive Reaches (sem : Semantics Command Reply State) :
    Prog Command Reply Error Value → State → Prog Command Reply Error Value → State → Prop
  | here (program : Prog Command Reply Error Value) (state : State) : Reaches sem program state program state
  | step {program last : Prog Command Reply Error Value} {before middle after : State} {command : Command}
      {next : Reply command → Prog Command Reply Error Value} {reply : Reply command}
      (shape : program = .call command next) (first : sem command before reply middle)
      (rest : Reaches sem (next reply) middle last after) : Reaches sem program before last after

theorem runs_reaches {sem : Semantics Command Reply State} {program : Prog Command Reply Error Value}
    {before after : State} {outcome : Except Error Value} (run : Runs sem program before outcome after) :
    Reaches sem program before (ended outcome) after := by
  induction run with
  | done value state => exact .here _ state
  | fail error state => exact .here _ state
  | call step _ ih => exact .step rfl step ih

theorem reaches_bind {Middle : Type} {sem : Semantics Command Reply State}
    {program last : Prog Command Reply Error Middle} {rest : Middle → Prog Command Reply Error Value}
    {before after : State} (reaches : Reaches sem program before last after) :
    Reaches sem (program >>= rest) before (last >>= rest) after := by
  induction reaches with
  | here program state => exact .here _ state
  | step shape first _ ih =>
      subst shape
      exact .step rfl first ih

theorem reaches_trans {sem : Semantics Command Reply State}
    {program middle last : Prog Command Reply Error Value} {before between after : State}
    (first : Reaches sem program before middle between) (second : Reaches sem middle between last after) :
    Reaches sem program before last after := by
  induction first with
  | here => exact second
  | step shape step _ ih => exact .step shape step (ih second)

theorem runs_reaches_then {Middle : Type} {sem : Semantics Command Reply State}
    {program : Prog Command Reply Error Middle} {rest : Middle → Prog Command Reply Error Value}
    {before after : State} {value : Middle} (run : Runs sem program before (.ok value) after) :
    Reaches sem (program >>= rest) before (rest value) after :=
  reaches_bind (runs_reaches run)

/-- A thread may take some steps while the others wait. -/
theorem reaches_interleaves {sem : Semantics Command Reply State}
    {program last : Prog Command Reply Error Value} {before after : State}
    (reaches : Reaches sem program before last after) (thread : Thread)
    (pool : Thread → Prog Command Reply Error Value) (same : pool thread = program) :
    ∃ events, Interleaves (fun _ => sem) pool before events (Function.update pool thread last) after := by
  induction reaches generalizing pool with
  | here program state =>
      refine ⟨[], ?_⟩
      rw [← same, Function.update_eq_self]
      exact .stop pool state
  | @step _ _ _ _ _ command next reply shape first _ ih =>
      obtain ⟨events, rest⟩ := ih (Function.update pool thread (next reply)) (Function.update_self ..)
      rw [Function.update_idem] at rest
      exact ⟨_, .step thread (same.trans shape) first rest⟩

/-- A thread may run to its end while the others wait. -/
theorem runs_interleaves {sem : Semantics Command Reply State} {program : Prog Command Reply Error Value}
    {before after : State} {outcome : Except Error Value} (run : Runs sem program before outcome after)
    (thread : Thread) (pool : Thread → Prog Command Reply Error Value) (same : pool thread = program) :
    ∃ events, Interleaves (fun _ => sem) pool before events
      (Function.update pool thread (ended outcome)) after :=
  reaches_interleaves (runs_reaches run) thread pool same

/-- A thread may run the first part of its program while the others wait. -/
theorem runs_interleaves_then {Middle : Type} {sem : Semantics Command Reply State}
    {program : Prog Command Reply Error Middle} {rest : Middle → Prog Command Reply Error Value}
    {before after : State} {value : Middle} (run : Runs sem program before (.ok value) after)
    (thread : Thread) (pool : Thread → Prog Command Reply Error Value)
    (same : pool thread = program >>= rest) :
    ∃ events, Interleaves (fun _ => sem) pool before events
      (Function.update pool thread (rest value)) after :=
  reaches_interleaves (runs_reaches_then run) thread pool same

/-! ### Which commands come -/

/-- All commands that a program can come to are of one kind. -/
def issues (kind : Command → Prop) : Prog Command Reply Error Value → Prop
  | .done _ => True
  | .fail _ => True
  | .call command next => kind command ∧ ∀ reply, issues kind (next reply)

theorem issues_bind {Result : Type} {kind : Command → Prop} {program : Prog Command Reply Error Value}
    {rest : Value → Prog Command Reply Error Result} (first : issues kind program)
    (later : ∀ value, issues kind (rest value)) : issues kind (program >>= rest) := by
  induction program with
  | done value => exact later value
  | fail error => trivial
  | call command next ih => exact ⟨first.1, fun reply => ih reply (first.2 reply)⟩

theorem issues_attempt {kind : Command → Prop} {program : Prog Command Reply Error Value}
    (first : issues kind program) :
    issues kind (program.attempt : Prog Command Reply Failure (Except Error Value)) := by
  induction program with
  | done value => trivial
  | fail error => trivial
  | call command next ih => exact ⟨first.1, fun reply => ih reply (first.2 reply)⟩

/-- In a run each thread issues commands of its kind only. -/
theorem interleaves_issues {sem : Thread → Semantics Command Reply State}
    (kinds : Thread → Command → Prop) {pool last : Thread → Prog Command Reply Error Value}
    {before after : State} {events : List (Event Thread Reply)}
    (all : ∀ thread, issues (kinds thread) (pool thread))
    (run : Interleaves sem pool before events last after) :
    ∀ event ∈ events, kinds event.thread event.command := by
  induction run with
  | stop => exact nofun
  | @step _ _ _ _ _ _ thread command next reply runs _ _ ih =>
      have own := all thread
      rw [runs] at own
      intro event member
      rcases List.mem_cons.mp member with rfl | later
      · exact own.1
      · refine ih ?_ event later
        intro other
        by_cases same : other = thread
        · subst same
          rw [Function.update_self]
          exact own.2 reply
        · rw [Function.update_of_ne same]
          exact all other

end Threads
end Program
