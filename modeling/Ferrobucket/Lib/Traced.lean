import Ferrobucket.Lib.Machine
/-! Runs together with the answers that the machine gave in them. On the machine where some
calls may fail for no reason of their own, the trace says which one did, and a call that
failed has changed nothing. -/
namespace Program

variable {Command : Type} {Reply : Command → Type} {Error Failure Value Result State : Type}

/-- A command with its answer. -/
abbrev Answer (Command : Type) (Reply : Command → Type) := Σ command : Command, Reply command

inductive Traced (sem : Semantics Command Reply State) :
    Prog Command Reply Error Value → State → List (Answer Command Reply) → Except Error Value →
      State → Prop where
  | done (value : Value) (state : State) : Traced sem (.done value) state [] (.ok value) state
  | fail (error : Error) (state : State) : Traced sem (.fail error) state [] (.error error) state
  | call {command : Command} {next : Reply command → Prog Command Reply Error Value}
      {before middle after : State} {reply : Reply command} {events : List (Answer Command Reply)}
      {outcome : Except Error Value} :
      sem command before reply middle → Traced sem (next reply) middle events outcome after →
      Traced sem (.call command next) before (⟨command, reply⟩ :: events) outcome after

section Rules
variable {sem : Semantics Command Reply State} {before after : State}
  {events : List (Answer Command Reply)}

theorem traced_call {command : Command} {next : Reply command → Prog Command Reply Error Value}
    {outcome : Except Error Value} (run : Traced sem (.call command next) before events outcome after) :
    ∃ reply middle rest, events = ⟨command, reply⟩ :: rest ∧ sem command before reply middle ∧
      Traced sem (next reply) middle rest outcome after := by
  cases run with
  | call step later => exact ⟨_, _, _, rfl, step, later⟩

theorem traced_done {value : Value} {outcome : Except Error Value}
    (run : Traced sem (.done value : Prog Command Reply Error Value) before events outcome after) :
    events = [] ∧ outcome = .ok value ∧ after = before := by
  cases run
  exact ⟨rfl, rfl, rfl⟩

theorem traced_fail {error : Error} {outcome : Except Error Value}
    (run : Traced sem (.fail error : Prog Command Reply Error Value) before events outcome after) :
    events = [] ∧ outcome = .error error ∧ after = before := by
  cases run
  exact ⟨rfl, rfl, rfl⟩

theorem traced_bind {program : Prog Command Reply Error Value}
    {rest : Value → Prog Command Reply Error Result} {outcome : Except Error Result}
    (run : Traced sem (program >>= rest) before events outcome after) :
    (∃ value middle first second, events = first ++ second ∧
      Traced sem program before first (.ok value) middle ∧
      Traced sem (rest value) middle second outcome after) ∨
    (∃ error, outcome = .error error ∧ Traced sem program before events (.error error) after) := by
  induction program generalizing before events with
  | done value => exact .inl ⟨value, before, [], events, rfl, .done value before, run⟩
  | fail error =>
      obtain ⟨rfl, rfl, rfl⟩ := traced_fail run
      exact .inr ⟨error, rfl, .fail error _⟩
  | call command next ih =>
      obtain ⟨reply, middle, tail, rfl, step, later⟩ := traced_call run
      rcases ih reply later with ⟨value, last, first, second, rfl, own, other⟩ | ⟨error, same, own⟩
      · exact .inl ⟨value, last, _, second, rfl, .call step own, other⟩
      · exact .inr ⟨error, same, .call step own⟩

theorem traced_attempt {program : Prog Command Reply Error Value}
    {outcome : Except Failure (Except Error Value)}
    (run : Traced sem program.attempt before events outcome after) :
    ∃ result, outcome = .ok result ∧ Traced sem program before events result after := by
  induction program generalizing before events with
  | done value =>
      obtain ⟨rfl, rfl, rfl⟩ := traced_done run
      exact ⟨.ok value, rfl, .done value _⟩
  | fail error =>
      obtain ⟨rfl, rfl, rfl⟩ := traced_done run
      exact ⟨.error error, rfl, .fail error _⟩
  | call command next ih =>
      obtain ⟨reply, middle, tail, rfl, step, later⟩ := traced_call run
      obtain ⟨result, same, own⟩ := ih reply later
      exact ⟨result, same, .call step own⟩

/-- Every run has a trace, also on a machine that may do more. -/
theorem traced_of_runs {other : Semantics Command Reply State} {program : Prog Command Reply Error Value}
    {outcome : Except Error Value}
    (more : ∀ command s reply t, sem command s reply t → other command s reply t)
    (run : Runs sem program before outcome after) :
    ∃ events, Traced other program before events outcome after := by
  induction run with
  | done value state => exact ⟨[], .done value state⟩
  | fail error state => exact ⟨[], .fail error state⟩
  | call step _ ih =>
      obtain ⟨events, own⟩ := ih
      exact ⟨_, .call (more _ _ _ _ step) own⟩

end Rules
end Program

/-! ### Failing calls -/
namespace Posix
open Program

abbrev Answered := Answer Call Reply

/-- Did a call on a file fail? Tests and calls on directories are no calls of this kind, and
neither is a removal. -/
def failed : Answered → Bool
  | ⟨.tempfileIn _, .error _⟩ => true
  | ⟨.write _ _, .error _⟩ => true
  | ⟨.flush _, .error _⟩ => true
  | ⟨.rename _ _, .error _⟩ => true
  | ⟨.open _, .error _⟩ => true
  | ⟨.read _, .error _⟩ => true
  | _ => false

def makesTemp : Answered → Bool
  | ⟨.tempfileIn _, _⟩ => true
  | _ => false

def renames : Answered → Bool
  | ⟨.rename _ _, _⟩ => true
  | _ => false

/-- Does a call fail in the window that is opened by the creation of a temporary file and
closed by the next rename, both included? -/
def failsInWindow : Bool → List Answered → Bool
  | _, [] => false
  | opened, event :: rest =>
      if opened || makesTemp event then
        failed event || (!renames event && failsInWindow true rest)
      else failsInWindow false rest

/-- The machine on which the calls of such a window may fail for no reason of their own. -/
def unreliable : Semantics Call Reply FS := fun call before answer after =>
  faultFree call before answer after ∨
    (failed ⟨call, answer⟩ = true ∧ after = before)

section Window
variable {events front back : List Answered} {s after : FS}

theorem fails_past (plain : ∀ event ∈ front, makesTemp event = false) :
    failsInWindow false (front ++ back) = failsInWindow false back := by
  induction front with
  | nil => rfl
  | cons event rest ih =>
      have own := plain event List.mem_cons_self
      have tail := ih fun other member => plain other (List.mem_cons_of_mem event member)
      simp [failsInWindow, own, tail]

/-- Once a rename has gone through, the window is closed. -/
theorem fails_closed (fine : ∀ event ∈ front, failed event = false)
    (renamed : ∃ event ∈ front, renames event = true) :
    failsInWindow true (front ++ back) = false := by
  induction front with
  | nil =>
      obtain ⟨event, member, _⟩ := renamed
      cases member
  | cons event rest ih =>
      have own := fine event List.mem_cons_self
      cases first : renames event with
      | true => simp [failsInWindow, own, first]
      | false =>
          obtain ⟨other, member, last⟩ := renamed
          have later : ∃ other ∈ rest, renames other = true := by
            rcases List.mem_cons.mp member with rfl | inside
            · rw [first] at last
              cases last
            · exact ⟨other, inside, last⟩
          have tail := ih (fun other member => fine other (List.mem_cons_of_mem event member)) later
          simp [failsInWindow, own, first, tail]

theorem rename_failed_same {source target : PathBuf} {e : Errno}
    (refused : (s.rename source target).1 = .error e) : (s.rename source target).2 = s := by
  unfold FS.rename at refused ⊢
  split at refused
  · rfl
  · rfl
  · split at refused
    · rfl
    · rfl
    · rfl
    · cases refused

/-- A call that failed has changed nothing. -/
theorem failed_same {call : Call} {answer : Reply call} (step : unreliable call s answer after)
    (broke : failed ⟨call, answer⟩ = true) : after = s := by
  rcases step with ⟨choice, performed⟩ | ⟨_, same⟩
  · cases call with
    | tempfileIn dir =>
        cases answer with
        | ok made => cases broke
        | error e =>
            simp only [Call.perform, FS.tempfileIn] at performed
            split_ifs at performed
            split at performed
            · cases performed
              rfl
            · split at performed
              · cases performed
              · cases performed
    | rename source target =>
        cases answer with
        | ok done => cases broke
        | error e =>
            simp only [Call.perform, Option.some.injEq] at performed
            have refused : (s.rename source target).1 = .error e := by rw [performed]
            have same := rename_failed_same refused
            rw [performed] at same
            exact same
    | write handle chunk =>
        simp only [Call.perform, Option.some.injEq, Prod.mk.injEq] at performed
        obtain ⟨rfl, _⟩ := performed
        cases broke
    | flush handle =>
        simp only [Call.perform, Option.some.injEq, Prod.mk.injEq] at performed
        exact performed.2.symm
    | «open» path =>
        simp only [Call.perform, Option.some.injEq, Prod.mk.injEq] at performed
        exact performed.2.symm
    | read handle =>
        simp only [Call.perform, Option.some.injEq, Prod.mk.injEq] at performed
        exact performed.2.symm
    | mkdir path | «exists» path | isDir path | readDir path | readTree path | creat path
    | unlink path | rmdir path | uuid | now => cases broke
  · exact same

end Window
end Posix
