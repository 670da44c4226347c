import Ferrobucket.Lib.Machine
/-! Programs of which one command may fail for no reason of its own. Which one is fixed
beforehand, by its number among the commands that the program issues. A program that goes
through stages, each of which may stop it, is atomic exactly if it does not stop after a
stage that has changed something. -/
namespace Program

variable {Command : Type} {Reply : Command → Type} {Error Value State : Type}

/-- The machine with a fault ahead: `some n` if `n` commands are still answered before it. -/
def planned (good bad : Semantics Command Reply State) :
    Semantics Command Reply (State × Option Nat) := fun command before reply after =>
  match before.2 with
  | none => good command before.1 reply after.1 ∧ after.2 = none
  | some 0 => bad command before.1 reply after.1 ∧ after.2 = none
  | some (count + 1) => good command before.1 reply after.1 ∧ after.2 = some count

/-- What is left of the plan when `issued` commands have been answered. -/
def left (issued : Nat) : Option Nat → Option Nat
  | none => none
  | some number => if issued ≤ number then some (number - issued) else none

@[simp] theorem left_start (fault : Option Nat) : left 0 fault = fault := by
  cases fault <;> simp [left]

@[simp] theorem left_now (issued : Nat) : left issued (some issued) = some 0 := by
  simp [left]

theorem left_past {issued number : Nat} (past : number < issued) : left issued (some number) = none := by
  simp [left, past]

section Rules
variable {good bad : Semantics Command Reply State} {command : Command} {issued : Nat}
  {fault : Option Nat} {next : Reply command → Prog Command Reply Error Value}
  {post : Except Error Value → State × Option Nat → Prop} {state : State}

theorem planned_earlier {reply : Reply command} {after : State × Option Nat}
    (later : fault ≠ some issued) :
    planned good bad command (state, left issued fault) reply after ↔
      good command state reply after.1 ∧ after.2 = left (issued + 1) fault := by
  cases fault with
  | none => exact Iff.rfl
  | some number =>
      rcases Nat.lt_trichotomy number issued with past | now | ahead
      · rw [left_past past, left_past (Nat.lt_succ_of_lt past)]
        exact Iff.rfl
      · exact absurd (congrArg some now) later
      · obtain ⟨count, rfl⟩ := Nat.exists_eq_add_of_lt ahead
        have here : left issued (some (issued + count + 1)) = some (count + 1) := by
          simp [left, Nat.add_assoc]
        have there : left (issued + 1) (some (issued + count + 1)) = some count := by
          simp [left]
        rw [here, there]
        exact Iff.rfl

/-- A command that the fault does not hit. -/
theorem wp_earlier (later : fault ≠ some issued)
    (holds : wp good (Prog.send command : Prog Command Reply Error (Reply command))
      (fun outcome after => ∀ reply, outcome = .ok reply →
        wp (planned good bad) (next reply) post (after, left (issued + 1) fault)) state) :
    wp (planned good bad) (.call command next) post (state, left issued fault) := by
  obtain ⟨⟨reply, after, step⟩, all⟩ := holds
  refine ⟨⟨reply, (after, left (issued + 1) fault), (planned_earlier later).mpr ⟨step, rfl⟩⟩, ?_⟩
  rintro reply ⟨after, rest⟩ step
  obtain ⟨step, rfl⟩ := (planned_earlier later).mp step
  exact all reply after step reply rfl

/-- The command that the fault hits. -/
theorem wp_hit {reply : Reply command} {after : State}
    (fails : ∀ r t, bad command state r t ↔ r = reply ∧ t = after)
    (holds : wp (planned good bad) (next reply) post (after, none)) :
    wp (planned good bad) (.call command next) post (state, left issued (some issued)) := by
  rw [left_now]
  refine ⟨⟨reply, (after, none), (fails reply after).mpr ⟨rfl, rfl⟩, rfl⟩, ?_⟩
  rintro other ⟨result, rest⟩ ⟨step, spent⟩
  obtain ⟨rfl, rfl⟩ := (fails other result).mp step
  obtain rfl : rest = none := spent
  exact holds

/-- Whatever a command answers, and whether or not it is hit. -/
theorem wp_either {plan : Option Nat} (answers : ∃ reply after, good command state reply after)
    (fails : ∃ reply after, bad command state reply after)
    (all : ∀ reply after rest, good command state reply after ∨ bad command state reply after →
      wp (planned good bad) (next reply) post (after, rest)) :
    wp (planned good bad) (.call command next) post (state, plan) := by
  obtain ⟨reply, after, step⟩ := answers
  obtain ⟨answer, failed, fault⟩ := fails
  match plan with
  | none =>
      refine ⟨⟨reply, (after, none), step, rfl⟩, ?_⟩
      rintro r ⟨t, rest⟩ ⟨own, _⟩
      exact all r t rest (.inl own)
  | some 0 =>
      refine ⟨⟨answer, (failed, none), fault, rfl⟩, ?_⟩
      rintro r ⟨t, rest⟩ ⟨own, _⟩
      exact all r t rest (.inr own)
  | some (count + 1) =>
      refine ⟨⟨reply, (after, some count), step, rfl⟩, ?_⟩
      rintro r ⟨t, rest⟩ ⟨own, _⟩
      exact all r t rest (.inl own)

end Rules
/-! ### Stages -/

/-- A stage of a program: the number of the command whose failure stops it, whether it passes
when that one does not fail, and whether it then changes anything. -/
structure Stage where
  number : Nat
  passes : Prop
  changes : Prop

def Stage.Goes (fault : Option Nat) (stage : Stage) : Prop :=
  stage.passes ∧ fault ≠ some stage.number

/-- Some stage stops the program after an earlier one has changed something. -/
def StopsLate (fault : Option Nat) : Prop → List Stage → Prop
  | _, [] => False
  | changed, stage :: rest =>
      (¬ stage.Goes fault ∧ changed) ∨ (stage.Goes fault ∧ StopsLate fault (changed ∨ stage.changes) rest)

/-- How such a program ends: it fails after a change, or a failure has changed nothing. -/
def Ends (untouched : State → Prop) (late : Prop) (outcome : Except Error Value) (after : State) : Prop :=
  (late → outcome.isOk = false ∧ ¬ untouched after) ∧
    (¬ late → outcome.isOk = false → untouched after)

section Stages
variable {untouched : State → Prop} {fault : Option Nat} {changed : Prop} {stage : Stage}
  {rest : List Stage} {outcome : Except Error Value} {after : State}

theorem ends_stopped {error : Error} (stops : ¬ stage.Goes fault) (seen : untouched after ↔ ¬ changed) :
    Ends untouched (StopsLate fault changed (stage :: rest)) (.error error : Except Error Value) after := by
  unfold StopsLate
  constructor
  · rintro (⟨_, late⟩ | ⟨goes, _⟩)
    · exact ⟨rfl, fun same => seen.mp same late⟩
    · exact absurd goes stops
  · intro early _
    exact seen.mpr fun late => early (.inl ⟨stops, late⟩)

theorem ends_gone (goes : stage.Goes fault)
    (later : Ends untouched (StopsLate fault (changed ∨ stage.changes) rest) outcome after) :
    Ends untouched (StopsLate fault changed (stage :: rest)) outcome after := by
  have same : StopsLate fault changed (stage :: rest) ↔
      StopsLate fault (changed ∨ stage.changes) rest := by
    simp [StopsLate, goes]
  unfold Ends
  rw [same]
  exact later

theorem ends_done (value : Value) :
    Ends untouched (StopsLate fault changed []) (.ok value : Except Error Value) after :=
  ⟨fun late => absurd late not_false, fun _ failed => nomatch failed⟩

/-- A program that ends so leaves everything untouched when it fails exactly if it does not
stop late. -/
theorem ends_atomic {sem : Semantics Command Reply State} {program : Prog Command Reply Error Value}
    {late : Prop} {before : State} (ends : wp sem program (Ends untouched late) before) :
    wp sem program (fun outcome after => outcome.isOk = false → untouched after) before ↔ ¬ late := by
  constructor
  · intro atomic stops
    obtain ⟨outcome, after, run, broken, _⟩ := wp_returns ends
    exact (broken stops).2 (wp_runs atomic run (broken stops).1)
  · intro early
    exact wp_mono ends fun outcome after final => final.2 early

end Stages
end Program

/-! ### Faults of the file system -/
namespace Posix
open Program

/-- An I/O error: the call changes nothing. What is no call of the file system cannot fail. -/
def faulted : Semantics Call Reply FS := fun call before answer after =>
  match call.failing Errno.EIO with
  | some reply => answer = reply ∧ after = before
  | none => faultFree call before answer after

/-- The machine on which at most one call fails, the one that the plan says. -/
def oneFault : Semantics Call Reply (FS × Option Nat) := planned faultFree faulted

section Rules
variable {Error Value : Type} {post : Except Error Value → FS × Option Nat → Prop} {s : FS}
  {issued : Nat} {fault : Option Nat}

/-- A call with one answer, which the fault does not hit. -/
theorem wp_answered (call : Call) (answer : Reply call) (after : FS)
    {next : Reply call → Prog Call Reply Error Value} (later : fault ≠ some issued)
    (only : ∀ choice, call.perform choice s = some (answer, after))
    (holds : wp oneFault (next answer) post (after, left (issued + 1) fault)) :
    wp oneFault (.call call next) post (s, left issued fault) := by
  apply wp_earlier later
  apply (wp_exec only).mpr
  rintro reply same
  obtain rfl := Except.ok.inj same
  exact holds

theorem wp_failed (call : Call) (answer : Reply call)
    {next : Reply call → Prog Call Reply Error Value} (failing : call.failing Errno.EIO = some answer)
    (holds : wp oneFault (next answer) post (s, none)) :
    wp oneFault (.call call next) post (s, left issued (some issued)) := by
  apply wp_hit _ holds
  intro reply after
  simp only [faulted, failing]

/-- A command that cannot fail. -/
theorem wp_unfailing {call : Call} {next : Reply call → Prog Call Reply Error Value}
    (failing : call.failing Errno.EIO = none)
    (holds : wp faultFree (Prog.send call : Prog Call Reply Error (Reply call))
      (fun outcome after => ∀ reply, outcome = .ok reply →
        wp oneFault (next reply) post (after, left (issued + 1) fault)) s) :
    wp oneFault (.call call next) post (s, left issued fault) := by
  by_cases hit : fault = some issued
  · subst hit
    rw [left_past (Nat.lt_succ_self issued)] at holds
    rw [left_now]
    have same : ∀ reply after, faulted call s reply after ↔ faultFree call s reply after := by
      simp [faulted, failing]
    obtain ⟨⟨reply, after, step⟩, all⟩ := holds
    refine ⟨⟨reply, (after, none), (same reply after).mpr step, rfl⟩, ?_⟩
    rintro other ⟨result, rest⟩ ⟨performed, spent⟩
    obtain rfl : rest = none := spent
    exact all other result ((same other result).mp performed) other rfl
  · exact wp_earlier hit holds

theorem readDir_answers (s : FS) (path : PathBuf) :
    ∃ reply after, faultFree (.readDir path) s reply after := by
  cases located : s.locateDir path with
  | error e => exact ⟨.error e, s, {}, by simp [Call.perform, FS.readDir, located]⟩
  | ok dir =>
      have listed : wp faultFree (.call (.readDir path) (fun _ => .done ()) :
          Prog Call Reply Errno Unit) (fun _ _ => True) s :=
        wp_readDir located fun _ _ _ => trivial
      exact listed.1

/-- A directory that is read once more, with whatever it answers now. -/
theorem wp_reread {path : PathBuf} {plan : Option Nat}
    {next : Except Errno (List DirEntry) → Prog Call Reply Error Value}
    (all : ∀ reply rest, wp oneFault (next reply) post (s, rest)) :
    wp oneFault (.call (.readDir path) next) post (s, plan) := by
  apply wp_either (readDir_answers s path) ⟨.error Errno.EIO, s, rfl, rfl⟩
  rintro reply after rest (step | ⟨_, rfl⟩)
  · obtain ⟨choice, performed⟩ := step
    obtain ⟨_, _, same⟩ := Option.map_eq_some_iff.mp performed
    cases same
    exact all _ rest
  · exact all reply rest

end Rules
end Posix
