import Mathlib.Logic.Function.Basic
/-! Programs that talk to a machine one command at a time. A program is a tree:
it ends with a value or an error, or issues a command and goes on with the reply.
The machine is a relation, so a reply may be one of many; every rule below is
stated for all of them. -/
namespace Program

variable {Command : Type} {Reply : Command → Type} {Error Failure Value Result State : Type}

inductive Prog (Command : Type) (Reply : Command → Type) (Error Value : Type) where
  | done (value : Value)
  | fail (error : Error)
  | call (command : Command) (next : Reply command → Prog Command Reply Error Value)

namespace Prog

def bind : Prog Command Reply Error Value → (Value → Prog Command Reply Error Result) →
    Prog Command Reply Error Result
  | .done value, rest => rest value
  | .fail error, _ => .fail error
  | .call command next, rest => .call command fun reply => (next reply).bind rest

/-- Run a program to its end and hand its outcome on, error or not. -/
def attempt : Prog Command Reply Error Value →
    Prog Command Reply Failure (Except Error Value)
  | .done value => .done (.ok value)
  | .fail error => .done (.error error)
  | .call command next => .call command fun reply => (next reply).attempt

def send (command : Command) : Prog Command Reply Error (Reply command) :=
  .call command .done

def ofExcept : Except Error Value → Prog Command Reply Error Value
  | .ok value => .done value
  | .error error => .fail error

instance : Monad (Prog Command Reply Error) where
  pure := .done
  bind := .bind

instance : MonadExceptOf Error (Prog Command Reply Error) where
  throw := .fail
  tryCatch body handler := body.attempt.bind fun outcome =>
    match outcome with
    | .ok value => .done value
    | .error error => handler error

@[simp] theorem pure_eq (value : Value) :
    (pure value : Prog Command Reply Error Value) = .done value := rfl

@[simp] theorem throw_eq (error : Error) :
    (throw error : Prog Command Reply Error Value) = .fail error := rfl

@[simp] theorem done_bind (value : Value) (rest : Value → Prog Command Reply Error Result) :
    (.done value >>= rest) = rest value := rfl

@[simp] theorem fail_bind (error : Error) (rest : Value → Prog Command Reply Error Result) :
    (.fail error >>= rest) = .fail error := rfl

@[simp] theorem call_bind (command : Command)
    (next : Reply command → Prog Command Reply Error Value)
    (rest : Value → Prog Command Reply Error Result) :
    (.call command next >>= rest) = .call command fun reply => next reply >>= rest := rfl

@[simp] theorem send_bind (command : Command)
    (rest : Reply command → Prog Command Reply Error Result) :
    (send command >>= rest) = .call command rest := rfl

theorem bind_assoc {Last : Type} (program : Prog Command Reply Error Value)
    (middle : Value → Prog Command Reply Error Result)
    (rest : Result → Prog Command Reply Error Last) :
    (program >>= middle >>= rest) = (program >>= fun value => middle value >>= rest) := by
  induction program with
  | done value => rfl
  | fail error => rfl
  | call command next ih => exact congrArg (Prog.call command) (funext ih)

end Prog

/-- What a machine may answer: `sem command before reply after`. -/
abbrev Semantics (Command : Type) (Reply : Command → Type) (State : Type) :=
  (command : Command) → State → Reply command → State → Prop

variable (sem : Semantics Command Reply State)

/-- Total correctness: from this state the machine never leaves the program
without an answer, and every run ends with an outcome that satisfies `post`. -/
def wp : Prog Command Reply Error Value → (Except Error Value → State → Prop) → State → Prop
  | .done value, post, state => post (.ok value) state
  | .fail error, post, state => post (.error error) state
  | .call command next, post, state =>
      (∃ reply after, sem command state reply after) ∧
        ∀ reply after, sem command state reply after → wp (next reply) post after

inductive Runs : Prog Command Reply Error Value → State → Except Error Value → State → Prop where
  | done (value : Value) (state : State) : Runs (.done value) state (.ok value) state
  | fail (error : Error) (state : State) : Runs (.fail error) state (.error error) state
  | call {command : Command} {next : Reply command → Prog Command Reply Error Value}
      {before middle after : State} {reply : Reply command} {outcome : Except Error Value} :
      sem command before reply middle → Runs (next reply) middle outcome after →
      Runs (.call command next) before outcome after

variable {sem}

@[simp] theorem wp_done (value : Value) (post : Except Error Value → State → Prop)
    (state : State) :
    wp sem (.done value : Prog Command Reply Error Value) post state ↔ post (.ok value) state :=
  Iff.rfl

@[simp] theorem wp_fail (error : Error) (post : Except Error Value → State → Prop)
    (state : State) :
    wp sem (.fail error : Prog Command Reply Error Value) post state ↔ post (.error error) state :=
  Iff.rfl

theorem wp_mono {program : Prog Command Reply Error Value}
    {weak strong : Except Error Value → State → Prop} {state : State}
    (holds : wp sem program strong state)
    (weaker : ∀ outcome after, strong outcome after → weak outcome after) :
    wp sem program weak state := by
  induction program generalizing state with
  | done value => exact weaker _ _ holds
  | fail error => exact weaker _ _ holds
  | call command next ih =>
      refine ⟨holds.1, fun reply after step => ?_⟩
      exact ih reply (holds.2 reply after step)

theorem wp_bind {program : Prog Command Reply Error Value}
    {rest : Value → Prog Command Reply Error Result}
    {post : Except Error Result → State → Prop} {state : State} :
    wp sem (program >>= rest) post state ↔
      wp sem program (fun outcome after =>
        match outcome with
        | .ok value => wp sem (rest value) post after
        | .error error => post (.error error) after) state := by
  induction program generalizing state with
  | done value => exact Iff.rfl
  | fail error => exact Iff.rfl
  | call command next ih =>
      exact and_congr Iff.rfl
        (forall_congr' fun reply => forall_congr' fun _ => imp_congr Iff.rfl (ih reply))

theorem wp_attempt {program : Prog Command Reply Error Value}
    {post : Except Failure (Except Error Value) → State → Prop} {state : State} :
    wp sem program.attempt post state ↔
      wp sem program (fun outcome after => post (.ok outcome) after) state := by
  induction program generalizing state with
  | done value => exact Iff.rfl
  | fail error => exact Iff.rfl
  | call command next ih =>
      exact and_congr Iff.rfl
        (forall_congr' fun reply => forall_congr' fun _ => imp_congr Iff.rfl (ih reply))

/-- Errors may be renamed after the run as well as in it. -/
theorem wp_mapError {change : Failure → Error} {program : Prog Command Reply Failure Value}
    {post : Except Error Value → State → Prop} {state : State} :
    wp sem (do Prog.ofExcept ((← program.attempt).mapError change)) post state ↔
      wp sem program (fun outcome after => post (outcome.mapError change) after) state := by
  rw [wp_bind, wp_attempt]
  constructor
  · intro holds
    apply wp_mono holds
    intro outcome after answered
    cases outcome <;> exact answered
  · intro holds
    apply wp_mono holds
    intro outcome after answered
    cases outcome <;> exact answered

/-- A command with one possible answer is executed in place. -/
theorem wp_call_iff {command : Command} {next : Reply command → Prog Command Reply Error Value}
    {post : Except Error Value → State → Prop} {state after : State} {reply : Reply command}
    (answer : ∀ r s, sem command state r s ↔ r = reply ∧ s = after) :
    wp sem (.call command next) post state ↔ wp sem (next reply) post after := by
  simp only [wp, answer]
  constructor
  · rintro ⟨-, all⟩
    exact all reply after ⟨rfl, rfl⟩
  · rintro holds
    refine ⟨⟨reply, after, rfl, rfl⟩, ?_⟩
    rintro r s ⟨rfl, rfl⟩
    exact holds

/-- What every command keeps, every program keeps. -/
theorem wp_keeps {program : Prog Command Reply Error Value}
    {post : Except Error Value → State → Prop} {kept : State → Prop} {state : State}
    (keeps : ∀ command before reply after, sem command before reply after → kept before → kept after)
    (holds : wp sem program post state) (start : kept state) :
    wp sem program (fun outcome after => post outcome after ∧ kept after) state := by
  induction program generalizing state with
  | done value => exact ⟨holds, start⟩
  | fail error => exact ⟨holds, start⟩
  | call command next ih =>
      refine ⟨holds.1, fun reply after step => ?_⟩
      exact ih reply (holds.2 reply after step) (keeps command state reply after step start)

theorem wp_runs {program : Prog Command Reply Error Value}
    {post : Except Error Value → State → Prop} {before after : State}
    {outcome : Except Error Value} (holds : wp sem program post before)
    (run : Runs sem program before outcome after) : post outcome after := by
  induction run with
  | done => exact holds
  | fail => exact holds
  | call step _ ih => exact ih (holds.2 _ _ step)

theorem wp_returns {program : Prog Command Reply Error Value}
    {post : Except Error Value → State → Prop} {before : State}
    (holds : wp sem program post before) :
    ∃ outcome after, Runs sem program before outcome after ∧ post outcome after := by
  induction program generalizing before with
  | done value => exact ⟨_, _, .done value before, holds⟩
  | fail error => exact ⟨_, _, .fail error before, holds⟩
  | call command next ih =>
      obtain ⟨reply, middle, step⟩ := holds.1
      obtain ⟨outcome, after, run, final⟩ := ih reply (holds.2 reply middle step)
      exact ⟨outcome, after, .call step run, final⟩

/-- A property that every outcome decides in the same way is decided by the program. -/
theorem wp_decided {program : Prog Command Reply Error Value} {known post : Except Error Value → State → Prop}
    {state : State} {condition : Prop} (knows : wp sem program known state)
    (decides : ∀ outcome after, known outcome after → (post outcome after ↔ condition)) :
    wp sem program post state ↔ condition := by
  constructor
  · intro holds
    obtain ⟨outcome, after, run, answered⟩ := wp_returns knows
    exact (decides outcome after answered).mp (wp_runs holds run)
  · intro met
    exact wp_mono knows fun outcome after answered => (decides outcome after answered).mpr met

/-- Every outcome that a rule speaks of is the outcome of a run. -/
theorem wp_and_runs {program : Prog Command Reply Error Value}
    {post : Except Error Value → State → Prop} {state : State} (holds : wp sem program post state) :
    wp sem program (fun outcome after => post outcome after ∧ Runs sem program state outcome after)
      state := by
  induction program generalizing state with
  | done value => exact ⟨holds, .done value state⟩
  | fail error => exact ⟨holds, .fail error state⟩
  | call command next ih =>
      refine ⟨holds.1, fun reply after step => ?_⟩
      apply wp_mono (ih reply (holds.2 reply after step))
      rintro outcome final ⟨satisfied, run⟩
      exact ⟨satisfied, .call step run⟩

theorem runs_bind {program : Prog Command Reply Error Value}
    {rest : Value → Prog Command Reply Error Result} {before after : State}
    {outcome : Except Error Result} (run : Runs sem (program >>= rest) before outcome after) :
    (∃ value middle, Runs sem program before (.ok value) middle ∧
      Runs sem (rest value) middle outcome after) ∨
    (∃ error, outcome = .error error ∧ Runs sem program before (.error error) after) := by
  induction program generalizing before with
  | done value => exact .inl ⟨value, before, .done value before, run⟩
  | fail error =>
      cases run
      exact .inr ⟨error, rfl, .fail error _⟩
  | call command next ih =>
      cases run with
      | call step later =>
          rcases ih _ later with ⟨value, middle, first, second⟩ | ⟨error, same, first⟩
          · exact .inl ⟨value, middle, .call step first, second⟩
          · exact .inr ⟨error, same, .call step first⟩

theorem runs_then {program : Prog Command Reply Error Value}
    {rest : Value → Prog Command Reply Error Result} {before middle after : State} {value : Value}
    {outcome : Except Error Result} (first : Runs sem program before (.ok value) middle)
    (second : Runs sem (rest value) middle outcome after) :
    Runs sem (program >>= rest) before outcome after := by
  induction program generalizing before with
  | done value =>
      cases first
      exact second
  | fail error => cases first
  | call command next ih =>
      cases first with
      | call step later => exact .call step (ih _ later)

theorem runs_attempt {program : Prog Command Reply Error Value} {before after : State}
    {outcome : Except Failure (Except Error Value)} (run : Runs sem program.attempt before outcome after) :
    ∃ result, outcome = .ok result ∧ Runs sem program before result after := by
  induction program generalizing before with
  | done value =>
      cases run
      exact ⟨.ok value, rfl, .done value _⟩
  | fail error =>
      cases run
      exact ⟨.error error, rfl, .fail error _⟩
  | call command next ih =>
      cases run with
      | call step later =>
          obtain ⟨result, same, own⟩ := ih _ later
          exact ⟨result, same, .call step own⟩

theorem runs_bind_ok {program : Prog Command Reply Error Value}
    {rest : Value → Prog Command Reply Error Result} {before after : State} {result : Result}
    (run : Runs sem (program >>= rest) before (.ok result) after) :
    ∃ value middle, Runs sem program before (.ok value) middle ∧
      Runs sem (rest value) middle (.ok result) after := by
  rcases runs_bind run with found | ⟨error, failed, _⟩
  · exact found
  · cases failed

/-! ### Requests one after the other -/

section Requests
variable {Request Answer Model : Type}

def runAll (perform : Request → Prog Command Reply Error Answer) :
    List Request → Prog Command Reply Error (List Answer)
  | [] => .done []
  | request :: rest => do
      let answer ← perform request
      let answers ← runAll perform rest
      .done (answer :: answers)

/-- The same requests on an abstract machine that answers in one step. -/
def answerAll (step : Request → Model → Answer × Model) : List Request → Model → List Answer × Model
  | [], model => ([], model)
  | request :: rest, model =>
      let first := step request model
      let later := answerAll step rest first.2
      (first.1 :: later.1, later.2)

/-- A simulation of every request is a simulation of every run. The relation may depend on
how many requests are still to come. -/
theorem wp_runAll {perform : Request → Prog Command Reply Error Answer}
    {step : Request → Model → Answer × Model} (related : Nat → State → Model → Prop)
    (simulates : ∀ remaining request state model, related (remaining + 1) state model →
      wp sem (perform request) (fun outcome after =>
        outcome = .ok (step request model).1 ∧ related remaining after (step request model).2) state)
    (requests : List Request) {state : State} {model : Model}
    (start : related requests.length state model) :
    wp sem (runAll perform requests) (fun outcome after =>
      outcome = .ok (answerAll step requests model).1 ∧
        related 0 after (answerAll step requests model).2) state := by
  induction requests generalizing state model with
  | nil => exact ⟨rfl, start⟩
  | cons request rest ih =>
      unfold runAll
      rw [wp_bind]
      apply wp_mono (simulates rest.length request state model start)
      rintro outcome middle ⟨rfl, still⟩
      simp only []
      rw [wp_bind]
      apply wp_mono (ih still)
      rintro outcome after ⟨rfl, final⟩
      exact ⟨rfl, final⟩

end Requests
end Program
