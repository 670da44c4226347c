import Ferrobucket.Lib.Concurrent
/-! Invariants of the runs in which only what is allowed has happened. A thread has a ghost
as long as that is so; when a step goes beyond it, the thread that took it loses its ghost,
and nothing more is to be shown about it. -/
namespace Program

section Guarded
variable {Command : Type} {Reply : Command → Type} {Error Value State Thread Ghost : Type}
  [DecidableEq Thread]

/-- While the past is allowed all threads have their ghosts, and the invariant holds. -/
def Guarded (allowed : List (Event Thread Reply) → Prop)
    (inv : (Thread → Ghost) → List (Event Thread Reply) → State → Prop)
    (ghosts : Thread → Option Ghost) (past : List (Event Thread Reply)) (state : State) : Prop :=
  allowed past → ∃ known : Thread → Ghost, (∀ thread, ghosts thread = some (known thread)) ∧
    inv known past state

/-- What is shown about a thread that still has its ghost. -/
def guard (post : Ghost → Except Error Value → Prop) (ghost : Option Ghost)
    (outcome : Except Error Value) : Prop :=
  ∀ known, ghost = some known → post known outcome

variable {sem : Semantics Command Reply State} {thread : Thread}
  {allowed : List (Event Thread Reply) → Prop}
  {inv : (Thread → Ghost) → List (Event Thread Reply) → State → Prop}
  {post : Ghost → Except Error Value → Prop}

/-- A thread that has lost its ghost goes on as it likes. -/
theorem tracks_stray (lasting : ∀ past event, allowed (past ++ [event]) → allowed past)
    (program : Prog Command Reply Error Value) :
    tracks sem (recorded thread) (among (Guarded allowed inv) thread) program (guard post) none := by
  induction program with
  | done value => exact nofun
  | fail error => exact nofun
  | call command next ih =>
      intro world state reply after holds _
      refine ⟨none, ?_, ih reply⟩
      intro still
      obtain ⟨known, same, _⟩ := holds (lasting _ _ still)
      have lost := same thread
      rw [Function.update_self] at lost
      cases lost

/-- One step of a thread, which may take for granted that it is allowed. -/
theorem tracks_guarded (lasting : ∀ past event, allowed (past ++ [event]) → allowed past)
    {command : Command} {next : Reply command → Prog Command Reply Error Value} {ghost : Ghost}
    (step : ∀ known past state reply after, allowed (past ++ [⟨thread, command, reply⟩]) →
      inv (Function.update known thread ghost) past state → sem command state reply after →
      ∃ ghost', inv (Function.update known thread ghost') (past ++ [⟨thread, command, reply⟩]) after ∧
        tracks sem (recorded thread) (among (Guarded allowed inv) thread) (next reply) (guard post)
          (some ghost')) :
    tracks sem (recorded thread) (among (Guarded allowed inv) thread) (.call command next) (guard post)
      (some ghost) := by
  intro world state reply after holds taken
  by_cases still : allowed (world.2 ++ [⟨thread, command, reply⟩])
  · obtain ⟨known, same, good⟩ := holds (lasting _ _ still)
    have own : known = Function.update known thread ghost := by
      have mine := same thread
      rw [Function.update_self] at mine
      rw [Option.some.inj mine, Function.update_eq_self]
    rw [own] at good
    obtain ⟨ghost', good', rest⟩ := step known world.2 state reply after still good taken
    refine ⟨some ghost', fun _ => ⟨Function.update known thread ghost', ?_, good'⟩, rest⟩
    intro other
    by_cases mine : other = thread
    · subst mine
      rw [Function.update_self, Function.update_self]
    · have others := same other
      rw [Function.update_of_ne mine] at others ⊢
      rw [Function.update_of_ne mine]
      exact others
  · exact ⟨none, fun allowed => absurd allowed still, tracks_stray lasting _⟩

theorem tracks_guarded_mono {program : Prog Command Reply Error Value}
    {strong weak : Ghost → Except Error Value → Prop} {ghost : Option Ghost}
    (tracked : tracks sem (recorded thread) (among (Guarded allowed inv) thread) program (guard strong)
      ghost)
    (weaker : ∀ ghost outcome, strong ghost outcome → weak ghost outcome) :
    tracks sem (recorded thread) (among (Guarded allowed inv) thread) program (guard weak) ghost :=
  tracks_mono tracked fun _ _ held known same => weaker _ _ (held known same)

/-- A program goes on with the ghost that its first part has left, if it has left one. -/
theorem tracks_guarded_bind {Result : Type}
    (lasting : ∀ past event, allowed (past ++ [event]) → allowed past)
    {program : Prog Command Reply Error Value} {rest : Value → Prog Command Reply Error Result}
    {final : Ghost → Except Error Result → Prop} {ghost : Ghost}
    (first : tracks sem (recorded thread) (among (Guarded allowed inv) thread) program
      (guard fun ghost' outcome =>
        match outcome with
        | .ok value => tracks sem (recorded thread) (among (Guarded allowed inv) thread) (rest value)
            (guard final) (some ghost')
        | .error error => final ghost' (.error error)) (some ghost)) :
    tracks sem (recorded thread) (among (Guarded allowed inv) thread) (program >>= rest) (guard final)
      (some ghost) := by
  apply tracks_bind.mpr
  apply tracks_mono first
  intro left outcome held
  cases outcome with
  | error error => exact held
  | ok value =>
      cases left with
      | none => exact tracks_stray lasting (rest value)
      | some known => exact held known rfl

/-- Threads that keep the invariant one by one keep it together, in every run that is allowed. -/
theorem pool_guarded {sem : Thread → Semantics Command Reply State}
    {post : Thread → Ghost → Except Error Value → Prop}
    {pool last : Thread → Prog Command Reply Error Value} {ghosts : Thread → Ghost}
    {events : List (Event Thread Reply)} {before after : State}
    (tracked : ∀ thread, tracks (sem thread) (recorded thread) (among (Guarded allowed inv) thread)
      (pool thread) (guard (post thread)) (some (ghosts thread)))
    (start : inv ghosts [] before) (run : Interleaves sem pool before events last after)
    (still : allowed events) :
    ∃ known, inv known events after ∧
      ∀ thread outcome, last thread = ended outcome → post thread (known thread) outcome := by
  have begins : Guarded allowed inv (fun thread => some (ghosts thread)) [] before :=
    fun _ => ⟨ghosts, fun _ => rfl, start⟩
  obtain ⟨ghosts', held, rest⟩ := pool_tracks tracked begins run
  obtain ⟨known, same, good⟩ := held still
  refine ⟨known, good, ?_⟩
  intro thread outcome done
  have tracked := rest thread
  rw [done] at tracked
  exact tracks_ended tracked _ (same thread)

end Guarded
end Program
