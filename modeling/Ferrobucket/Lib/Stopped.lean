import Ferrobucket.Lib.Steps
import Ferrobucket.Lib.Traced
/-! Programs stopped before their end: a crash after any of the calls, or calls that fail.
What holds wherever a program stops is shown by going through it once from the state that
it begins in, with the answers so far at hand. -/
namespace Program

variable {Command : Type} {Reply : Command → Type} {Error Failure Value Result State : Type}

/-- What a program has come to, and the answers it was given on the way. -/
inductive Begun (sem : Semantics Command Reply State) :
    Prog Command Reply Error Value → State → List (Answer Command Reply) →
      Prog Command Reply Error Value → State → Prop
  | here (program : Prog Command Reply Error Value) (state : State) : Begun sem program state [] program state
  | step {command : Command} {next : Reply command → Prog Command Reply Error Value}
      {rest : Prog Command Reply Error Value} {before middle after : State} {reply : Reply command}
      {events : List (Answer Command Reply)} (first : sem command before reply middle)
      (later : Begun sem (next reply) middle events rest after) :
      Begun sem (.call command next) before (⟨command, reply⟩ :: events) rest after

section Begun
variable {sem : Semantics Command Reply State} {before after : State} {events : List (Answer Command Reply)}

/-- A program that has run to its end is the beginning of what comes next. -/
theorem traced_begun {program : Prog Command Reply Error Value}
    {rest : Value → Prog Command Reply Error Result} {value : Value}
    (run : Traced sem program before events (.ok value) after) :
    Begun sem (program >>= rest) before events (rest value) after := by
  induction program generalizing before events with
  | done value =>
      obtain ⟨rfl, same, rfl⟩ := traced_done run
      cases same
      exact .here _ _
  | fail error =>
      obtain ⟨_, same, _⟩ := traced_fail run
      cases same
  | call command next ih =>
      obtain ⟨reply, middle, tail, rfl, step, later⟩ := traced_call run
      exact .step step (ih reply later)

end Begun

/-! ### At every point -/

/-- `safe` holds of the answers and the state wherever the program is, and `post` where it
ends. -/
def throughout (sem : Semantics Command Reply State)
    (safe : List (Answer Command Reply) → State → Prop) :
    Prog Command Reply Error Value →
      (Except Error Value → List (Answer Command Reply) → State → Prop) →
      List (Answer Command Reply) → State → Prop
  | .done value, post, events, state => safe events state ∧ post (.ok value) events state
  | .fail error, post, events, state => safe events state ∧ post (.error error) events state
  | .call command next, post, events, state => safe events state ∧
      ∀ reply after, sem command state reply after →
        throughout sem safe (next reply) post (events ++ [⟨command, reply⟩]) after

section Throughout
variable {sem : Semantics Command Reply State} {safe : List (Answer Command Reply) → State → Prop}
  {events : List (Answer Command Reply)} {state : State}

theorem throughout_safe {program : Prog Command Reply Error Value}
    {post : Except Error Value → List (Answer Command Reply) → State → Prop}
    (all : throughout sem safe program post events state) : safe events state := by
  cases program with
  | done value => exact all.1
  | fail error => exact all.1
  | call command next => exact all.1

/-- Wherever the program is stopped, it is at a safe point. -/
theorem throughout_begun {program rest : Prog Command Reply Error Value}
    {post : Except Error Value → List (Answer Command Reply) → State → Prop}
    {later : List (Answer Command Reply)} {after : State}
    (all : throughout sem safe program post events state) (begun : Begun sem program state later rest after) :
    safe (events ++ later) after := by
  induction begun generalizing events with
  | here program state =>
      rw [List.append_nil]
      exact throughout_safe all
  | step first _ ih =>
      have rest := ih (all.2 _ _ first)
      rwa [List.append_assoc] at rest

theorem throughout_mono {program : Prog Command Reply Error Value}
    {strong weak : Except Error Value → List (Answer Command Reply) → State → Prop}
    (all : throughout sem safe program strong events state)
    (weaker : ∀ outcome events state, safe events state → strong outcome events state →
      weak outcome events state) : throughout sem safe program weak events state := by
  induction program generalizing events state with
  | done value => exact ⟨all.1, weaker _ _ _ all.1 all.2⟩
  | fail error => exact ⟨all.1, weaker _ _ _ all.1 all.2⟩
  | call command next ih =>
      exact ⟨all.1, fun reply after step => ih reply (all.2 reply after step)⟩

theorem throughout_bind {program : Prog Command Reply Error Value}
    {rest : Value → Prog Command Reply Error Result}
    {post : Except Error Result → List (Answer Command Reply) → State → Prop}
    (all : throughout sem safe program (fun outcome events state =>
      match outcome with
      | .ok value => throughout sem safe (rest value) post events state
      | .error error => post (.error error) events state) events state) :
    throughout sem safe (program >>= rest) post events state := by
  induction program generalizing events state with
  | done value => exact all.2
  | fail error => exact all
  | call command next ih =>
      exact ⟨all.1, fun reply after step => ih reply (all.2 reply after step)⟩

theorem throughout_attempt {program : Prog Command Reply Error Value}
    {post : Except Failure (Except Error Value) → List (Answer Command Reply) → State → Prop}
    (all : throughout sem safe program (fun outcome => post (.ok outcome)) events state) :
    throughout sem safe program.attempt post events state := by
  induction program generalizing events state with
  | done value => exact all
  | fail error => exact all
  | call command next ih =>
      exact ⟨all.1, fun reply after step => ih reply (all.2 reply after step)⟩

end Throughout
end Program

/-! ### Calls that may fail -/
namespace Posix
open Program

section Faulty
variable {s after : FS} {call : Call} {answer : Reply call}

/-- A call does what it does, or fails and changes nothing. -/
theorem faulty_step (step : faulty call s answer after) :
    faultFree call s answer after ∨ ((∃ e, call.failing e = some answer) ∧ after = s) := by
  obtain ⟨choice, executed⟩ := step
  unfold Call.exec at executed
  split at executed
  · exact .inl ⟨choice, executed⟩
  · next e _ =>
      obtain ⟨reply, failing, same⟩ := Option.map_eq_some_iff.mp executed
      cases same
      exact .inr ⟨⟨e, failing⟩, rfl⟩

theorem faulty_good (step : faultFree call s answer after) : faulty call s answer after := by
  obtain ⟨choice, performed⟩ := step
  cases call <;> exact ⟨{ choice with fault := none }, performed⟩

theorem faulty_quiet (quiet : call.quiet = true) (step : faulty call s answer after) : after = s := by
  rcases faulty_step step with good | ⟨_, same⟩
  · exact quiet_same quiet good
  · exact same

end Faulty
end Posix
