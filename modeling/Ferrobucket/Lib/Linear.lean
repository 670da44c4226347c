import Mathlib.Data.List.Induction
import Mathlib.Data.List.Nodup
import Mathlib.Data.List.TakeWhile
import Ferrobucket.Lib.Concurrent
/-! Runs in which every operation looks as if it had happened at one moment. Each thread has one
operation on something that all of them share; at its moment, which is one of its own steps, the
operation takes the content from what it was to what it leaves. The operations in the order of
their moments are a history in which each begins with what the one before has left, and no
operation comes before one that had ended when it began. -/
namespace Program

variable {Thread Command Content : Type} {Reply : Command → Type}

/-- The moment of an operation: the events up to its own step, and the content before and after. -/
structure Moment (Thread : Type) {Command : Type} (Reply : Command → Type) (Content : Type) where
  seen : List (Event Thread Reply)
  before : Content
  after : Content

/-- The moments of some threads, one after the other. The number is the length of the last one's
past. -/
inductive Succession (moments : Thread → Option (Moment Thread Reply Content)) (initial : Content) :
    List Thread → Nat → Content → Prop
  | nil : Succession moments initial [] 0 initial
  | next {order : List Thread} {count : Nat} {now : Content} {thread : Thread}
      {moment : Moment Thread Reply Content} (earlier : Succession moments initial order count now)
      (own : moments thread = some moment) (new : thread ∉ order) (begins : moment.before = now)
      (later : count < moment.seen.length) :
      Succession moments initial (order ++ [thread]) moment.seen.length moment.after

/-- A history: each operation takes the content that the one before has left to what it leaves. -/
inductive Replays (does : Thread → Content → Content → Prop) : Content → List Thread → Content → Prop
  | nil (content : Content) : Replays does content [] content
  | cons {before middle last : Content} {thread : Thread} {rest : List Thread}
      (first : does thread before middle) (later : Replays does middle rest last) :
      Replays does before (thread :: rest) last

/-- The first thread has taken its last step before the second takes one. -/
def Precedes (events : List (Event Thread Reply)) (first second : Thread) : Prop :=
  ∃ earlier later, events = earlier ++ later ∧ (∀ event ∈ earlier, event.thread ≠ second) ∧
    ∀ event ∈ later, event.thread ≠ first

theorem precedes_append {first second : Thread} {front back : List (Event Thread Reply)}
    (before : ∀ event ∈ front, event.thread = first) (after : ∀ event ∈ back, event.thread = second)
    (different : first ≠ second) : Precedes (front ++ back) first second := by
  refine ⟨front, back, rfl, ?_, ?_⟩
  · intro event member
    rw [before event member]
    exact different
  · intro event member
    rw [after event member]
    exact different.symm

/-- A run taken apart where a thread begins: whoever had ended by then takes no step behind. -/
theorem precedes_begins [DecidableEq Thread] (events : List (Event Thread Reply)) (thread : Thread) :
    ∃ front back, events = front ++ back ∧ (∀ event ∈ front, event.thread ≠ thread) ∧
      ∀ first, Precedes events first thread → ∀ event ∈ back, event.thread ≠ first := by
  refine ⟨events.takeWhile (·.thread ≠ thread), events.dropWhile (·.thread ≠ thread),
    List.takeWhile_append_dropWhile.symm, ?_, ?_⟩
  · intro event member
    simpa using List.mem_takeWhile_imp member
  · rintro first ⟨earlier, later, rfl, waits, done⟩ event member
    rw [List.dropWhile_append_of_pos (by simpa using waits)] at member
    exact done event ((List.dropWhile_sublist _).subset member)

/-- A thread that takes some steps while the others wait takes all of them itself. -/
theorem reaches_alone {State Error Value : Type} [DecidableEq Thread] {sem : Semantics Command Reply State}
    {program last : Prog Command Reply Error Value} {before after : State}
    (reaches : Reaches sem program before last after) (thread : Thread)
    (pool : Thread → Prog Command Reply Error Value) (same : pool thread = program) :
    ∃ events, (∀ event ∈ events, event.thread = thread) ∧
      Interleaves (fun _ => sem) pool before events (Function.update pool thread last) after := by
  induction reaches generalizing pool with
  | here program state =>
      refine ⟨[], fun _ member => absurd member List.not_mem_nil, ?_⟩
      rw [← same, Function.update_eq_self]
      exact .stop pool state
  | @step _ _ _ _ _ command next reply shape first _ ih =>
      obtain ⟨events, own, rest⟩ := ih (Function.update pool thread (next reply)) (Function.update_self ..)
      rw [Function.update_idem] at rest
      refine ⟨_, ?_, .step thread (same.trans shape) first rest⟩
      intro event member
      rcases List.mem_cons.mp member with rfl | later
      · rfl
      · exact own event later

/-- After these events the content is what the moments so far have made of it. -/
structure Linear (does : Thread → Content → Content → Prop) (initial : Content)
    (moments : Thread → Option (Moment Thread Reply Content)) (past : List (Event Thread Reply))
    (now : Content) : Prop where
  order : ∃ order count, Succession moments initial order count now ∧ count ≤ past.length ∧
    ∀ thread, thread ∈ order ↔ moments thread ≠ none
  timed : ∀ thread moment, moments thread = some moment →
    does thread moment.before moment.after ∧ moment.seen <+: past ∧
      ∃ earlier event, moment.seen = earlier ++ [event] ∧ event.thread = thread

section Steps
variable {does : Thread → Content → Content → Prop} {initial now after : Content}
  {moments : Thread → Option (Moment Thread Reply Content)} {past : List (Event Thread Reply)}
  {order : List Thread} {count : Nat}

theorem linear_start : Linear does initial (fun _ => none) ([] : List (Event Thread Reply)) initial where
  order := ⟨[], 0, .nil, Nat.le_refl 0, by simp⟩
  timed := by
    intro thread moment none
    cases none

/-- A step that is no moment and leaves the content alone. -/
theorem linear_quiet (linear : Linear does initial moments past now) (event : Event Thread Reply) :
    Linear does initial moments (past ++ [event]) now := by
  obtain ⟨⟨order, count, succession, bound, all⟩, timed⟩ := linear
  refine ⟨⟨order, count, succession, Nat.le_trans bound (List.prefix_append past [event]).length_le, all⟩, ?_⟩
  intro thread moment own
  obtain ⟨legal, seen, last⟩ := timed thread moment own
  exact ⟨legal, seen.trans (List.prefix_append _ _), last⟩

variable [DecidableEq Thread] {thread : Thread}

/-- The moments that there are do not see a new one. -/
theorem succession_update (succession : Succession moments initial order count now) (new : thread ∉ order)
    (moment : Option (Moment Thread Reply Content)) :
    Succession (Function.update moments thread moment) initial order count now := by
  induction succession with
  | nil => exact .nil
  | @next order count now other own earlier same fresh begins later ih =>
      have before : thread ∉ order := fun member => new (List.mem_append_left _ member)
      have different : other ≠ thread := by
        rintro rfl
        exact new (by simp)
      exact .next (ih before) ((Function.update_of_ne different _ _).trans same) fresh begins later

/-- The step that is the moment of its thread. -/
theorem linear_next (linear : Linear does initial moments past now) (event : Event Thread Reply)
    (mine : event.thread = thread) (first : moments thread = none) (legal : does thread now after) :
    Linear does initial (Function.update moments thread (some ⟨past ++ [event], now, after⟩))
      (past ++ [event]) after := by
  obtain ⟨⟨order, count, succession, bound, all⟩, timed⟩ := linear
  have new : thread ∉ order := fun member => (all thread).mp member first
  refine ⟨⟨order ++ [thread], (past ++ [event]).length, ?_, Nat.le_refl _, ?_⟩, ?_⟩
  · exact .next (succession_update succession new _) (Function.update_self ..) new rfl
      (by simp only [List.length_append, List.length_singleton]; omega)
  · intro other
    by_cases same : other = thread
    · subst same
      simp
    · rw [Function.update_of_ne same, ← all other]
      simp [same]
  · intro other moment own
    by_cases same : other = thread
    · subst same
      rw [Function.update_self, Option.some.injEq] at own
      subst own
      exact ⟨legal, List.prefix_refl _, past, event, rfl, mine⟩
    · rw [Function.update_of_ne same] at own
      obtain ⟨still, seen, last⟩ := timed other moment own
      exact ⟨still, seen.trans (List.prefix_append _ _), last⟩

end Steps

section Histories
variable {does : Thread → Content → Content → Prop} {initial now : Content}
  {moments : Thread → Option (Moment Thread Reply Content)} {events : List (Event Thread Reply)}
  {order : List Thread} {count : Nat}

theorem replays_snoc {thread : Thread} {after : Content} (replays : Replays does initial order now)
    (last : does thread now after) : Replays does initial (order ++ [thread]) after := by
  induction replays with
  | nil content => exact .cons last (.nil after)
  | cons first _ ih => exact .cons first (ih last)

/-- A history seen as what its contents stand for. -/
theorem replays_refine {Abstract : Type} {takes : Thread → Abstract → Abstract → Prop}
    {shown : Abstract → Content} (replays : Replays does initial order now)
    (refines : ∀ thread model after, does thread (shown model) after →
      ∃ next, after = shown next ∧ takes thread model next)
    {model : Abstract} (begins : initial = shown model) :
    ∃ last, now = shown last ∧ Replays takes model order last := by
  induction replays generalizing model with
  | nil content => exact ⟨model, begins, .nil model⟩
  | cons first _ ih =>
      subst begins
      obtain ⟨next, still, own⟩ := refines _ _ _ first
      obtain ⟨last, final, rest⟩ := ih still
      exact ⟨last, final, .cons own rest⟩

/-- Where every operation overwrites what it finds, the last one stays. -/
theorem replays_overwrite {leaves : Thread → Content}
    (replays : Replays (fun thread _ after => after = leaves thread) initial order now) :
    now = (order.getLast?.map leaves).getD initial := by
  induction replays with
  | nil content => rfl
  | @cons before middle last thread rest first later ih =>
      subst first
      cases rest with
      | nil => exact ih
      | cons next more =>
          rw [List.getLast?_cons_cons]
          rw [List.getLast?_eq_some_getLast (List.cons_ne_nil next more)] at ih ⊢
          exact ih

theorem succession_nodup (succession : Succession moments initial order count now) : order.Nodup := by
  induction succession with
  | nil => exact List.nodup_nil
  | next earlier own new begins later ih =>
      rw [List.nodup_append]
      refine ⟨ih, List.nodup_singleton _, ?_⟩
      rintro other member _ last rfl
      exact new (List.mem_singleton.mp last ▸ member)

theorem succession_replays (succession : Succession moments initial order count now)
    (legal : ∀ thread moment, moments thread = some moment → does thread moment.before moment.after) :
    Replays (fun thread before after => does thread before after ∧
      ∃ seen, moments thread = some ⟨seen, before, after⟩) initial order now := by
  induction succession with
  | nil => exact .nil initial
  | @next order count now thread moment earlier own new begins later ih =>
      subst begins
      exact replays_snoc ih ⟨legal thread moment own, moment.seen, own⟩

/-- The pasts of the moments get longer and longer. -/
theorem succession_sorted (succession : Succession moments initial order count now) :
    (∀ thread ∈ order, ∃ moment, moments thread = some moment ∧ moment.seen.length ≤ count) ∧
      order.Pairwise fun first second => ∀ early late, moments first = some early →
        moments second = some late → early.seen.length < late.seen.length := by
  induction succession with
  | nil => exact ⟨fun _ member => absurd member List.not_mem_nil, .nil⟩
  | @next order count now thread moment earlier own new begins later ih =>
      obtain ⟨bounded, sorted⟩ := ih
      constructor
      · intro other member
        rcases List.mem_append.mp member with before | last
        · obtain ⟨found, same, short⟩ := bounded other before
          exact ⟨found, same, Nat.le_trans short (Nat.le_of_lt later)⟩
        · obtain rfl := List.mem_singleton.mp last
          exact ⟨moment, own, Nat.le_refl _⟩
      · rw [List.pairwise_append]
        refine ⟨sorted, List.pairwise_singleton _ _, ?_⟩
        intro first member _ last early late same also
        obtain rfl := List.mem_singleton.mp last
        obtain ⟨found, known, short⟩ := bounded first member
        rw [known, Option.some.injEq] at same
        rw [own, Option.some.injEq] at also
        subst same also
        exact Nat.lt_of_le_of_lt short later

/-- The moment of a thread that has ended is before that of a thread that begins later. -/
theorem moment_earlier {first second : Thread} {early late : Moment Thread Reply Content}
    (linear : Linear does initial moments events now) (precedes : Precedes events first second)
    (own : moments first = some early) (other : moments second = some late) :
    early.seen.length < late.seen.length := by
  obtain ⟨earlier, later, rfl, absent, done⟩ := precedes
  obtain ⟨_, happened, past, event, same, mine⟩ := linear.timed first early own
  obtain ⟨_, happened', past', event', same', mine'⟩ := linear.timed second late other
  -- The one is within the first part of the run, the other goes beyond it.
  have within : early.seen <+: earlier := by
    rcases List.prefix_or_prefix_of_prefix happened (List.prefix_append earlier later) with inside | beyond
    · exact inside
    · obtain ⟨rest, extended⟩ := beyond
      cases rest using List.reverseRecOn with
      | nil =>
          rw [List.append_nil] at extended
          exact extended ▸ List.prefix_refl _
      | append_singleton rest last =>
          rw [← List.append_assoc, same] at extended
          obtain ⟨_, equal⟩ := List.append_inj' extended rfl
          obtain rfl : last = event := by simpa using equal
          obtain ⟨tail, whole⟩ := happened
          rw [same, ← (List.append_inj' extended rfl).1, List.append_assoc, List.append_assoc] at whole
          have member : last ∈ later := by
            rw [← List.append_cancel_left whole]
            simp
          exact absurd mine (done last member)
  have beyond : earlier.length < late.seen.length := by
    by_contra short
    have inside : late.seen <+: earlier :=
      List.prefix_of_prefix_length_le happened' (List.prefix_append earlier later) (by omega)
    exact absent event' (inside.subset (by simp [same'])) mine'
  exact Nat.lt_of_le_of_lt within.length_le beyond

/-- The operations that had a moment, as one history: no thread twice, none before one that had
ended when it began, and each beginning with what the one before has left. -/
theorem linear_history (linear : Linear does initial moments events now) :
    ∃ order : List Thread, order.Nodup ∧ (∀ thread, thread ∈ order ↔ moments thread ≠ none) ∧
      order.Pairwise (fun first second => ¬ Precedes events second first) ∧
      Replays (fun thread before after => does thread before after ∧
        ∃ seen, moments thread = some ⟨seen, before, after⟩) initial order now := by
  obtain ⟨order, count, succession, _, all⟩ := linear.order
  obtain ⟨bounded, sorted⟩ := succession_sorted succession
  refine ⟨order, succession_nodup succession, all, ?_,
    succession_replays succession fun thread moment own => (linear.timed thread moment own).1⟩
  refine sorted.imp_of_mem ?_
  intro first second member also shorter backwards
  obtain ⟨early, own, _⟩ := bounded first member
  obtain ⟨late, other, _⟩ := bounded second also
  have ahead := shorter early late own other
  have behind := moment_earlier linear backwards other own
  omega

/-- Operations on something shared, in an order. Nothing comes before an operation that had ended
when it began; all that must be there are; each finds what the one before has left. -/
structure History {Abstract : Type} (events : List (Event Thread Reply)) (on uses : Thread → Prop)
    (takes : Thread → Abstract → Abstract → Prop) (first last : Abstract) (order : List Thread) : Prop where
  once : order.Nodup
  own : ∀ thread ∈ order, on thread
  all : ∀ thread, uses thread → thread ∈ order
  timely : order.Pairwise fun first second => ¬ Precedes events second first
  replays : Replays takes first order last

/-- The operations that had a moment, seen as what the contents stand for. -/
theorem linear_serves {Abstract : Type} {on uses : Thread → Prop}
    {takes : Thread → Abstract → Abstract → Prop} {shown : Abstract → Content} {first : Abstract}
    (linear : Linear does initial moments events now) (begins : initial = shown first)
    (own : ∀ thread moment, moments thread = some moment → on thread)
    (all : ∀ thread, uses thread → moments thread ≠ none)
    (refines : ∀ thread moment model, moments thread = some moment → moment.before = shown model →
      ∃ next, moment.after = shown next ∧ takes thread model next) :
    ∃ order last, History events on uses takes first last order ∧ now = shown last := by
  obtain ⟨order, once, members, timely, replays⟩ := linear_history linear
  obtain ⟨last, final, history⟩ := replays_refine replays
    (fun thread model after step => by
      obtain ⟨_, seen, marked⟩ := step
      exact refines thread ⟨seen, shown model, after⟩ model marked rfl) begins
  refine ⟨order, last, ⟨once, ?_, ?_, timely, history⟩, final⟩
  · intro thread member
    obtain ⟨moment, marked⟩ := Option.ne_none_iff_exists'.mp ((members thread).mp member)
    exact own thread moment marked
  · exact fun thread used => (members thread).mpr (all thread used)

theorem replays_append {does : Thread → Content → Content → Prop} {front back : List Thread}
    {before after : Content} (replays : Replays does before (front ++ back) after) :
    ∃ middle, Replays does before front middle ∧ Replays does middle back after := by
  induction front generalizing before with
  | nil => exact ⟨before, .nil before, replays⟩
  | cons thread front ih =>
      cases replays with
      | cons first later =>
          obtain ⟨middle, own, rest⟩ := ih later
          exact ⟨middle, .cons first own, rest⟩

/-- Operations that change nothing. -/
theorem replays_still {does : Thread → Content → Content → Prop} {order : List Thread}
    {before after : Content} (replays : Replays does before order after)
    (still : ∀ thread ∈ order, ∀ found left, does thread found left → left = found) : after = before := by
  induction replays with
  | nil content => rfl
  | cons first later ih =>
      rw [ih fun thread member => still thread (List.mem_cons_of_mem _ member)]
      exact still _ List.mem_cons_self _ _ first

section Standing
variable {Abstract : Type} {on uses : Thread → Prop} {takes : Thread → Abstract → Abstract → Prop}
  {first last : Abstract} {writer reader : Thread}

/-- What an operation has left stays to the end where all others that change anything had ended
when it began. -/
theorem history_stands (history : History events on uses takes first last order) (wrote : writer ∈ order)
    (alone : ∀ other ∈ order, other ≠ writer → Precedes events other writer ∨
      ∀ before after, takes other before after → after = before) :
    ∃ before, takes writer before last := by
  obtain ⟨front, back, rfl⟩ := List.append_of_mem wrote
  have fresh := (List.nodup_cons.mp (List.nodup_append.mp history.once).2.1).1
  have timely := (List.pairwise_cons.mp (List.pairwise_append.mp history.timely).2.1).1
  obtain ⟨before, _, replays⟩ := replays_append history.replays
  cases replays with
  | cons own later =>
      have same := replays_still later fun other member => by
        have different : other ≠ writer := by
          rintro rfl
          exact fresh member
        exact (alone other (by simp [member]) different).resolve_left (timely other member)
      exact ⟨before, same ▸ own⟩

/-- An operation takes what an earlier one has left where all others that change anything had
ended when that one began, or begin when this one has ended. -/
theorem history_read (history : History events on uses takes first last order) (wrote : writer ∈ order)
    (read : reader ∈ order) (different : reader ≠ writer) (earlier : Precedes events writer reader)
    (alone : ∀ other ∈ order, other ≠ writer → Precedes events other writer ∨ Precedes events reader other ∨
      ∀ before after, takes other before after → after = before) :
    ∃ before middle after, takes writer before middle ∧ takes reader middle after := by
  obtain ⟨front, back, rfl⟩ := List.append_of_mem wrote
  have fresh := (List.nodup_cons.mp (List.nodup_append.mp history.once).2.1).1
  obtain ⟨_, tail, across⟩ := List.pairwise_append.mp history.timely
  have timely := (List.pairwise_cons.mp tail).1
  -- The reader is behind the writer, since the writer had ended when it began.
  have behind : reader ∈ back := by
    rcases List.mem_append.mp read with before | after
    · exact absurd earlier (across reader before writer List.mem_cons_self)
    · exact (List.mem_cons.mp after).resolve_left different
  obtain ⟨before, _, replays⟩ := replays_append history.replays
  cases replays with
  | @cons _ middle _ _ _ own later =>
      obtain ⟨between, rest, rfl⟩ := List.append_of_mem behind
      have untimely := (List.pairwise_append.mp (List.pairwise_cons.mp tail).2).2.2
      obtain ⟨found, calm, ends⟩ := replays_append later
      have same := replays_still calm fun other member => by
        have apart : other ≠ writer := by
          rintro rfl
          exact fresh (by simp [member])
        rcases alone other (by simp [member]) apart with before | after | still
        · exact absurd before (timely other (by simp [member]))
        · exact absurd after (untimely other member reader List.mem_cons_self)
        · exact still
      subst same
      cases ends with
      | cons takes _ => exact ⟨before, _, _, own, takes⟩

end Standing

end Histories
end Program
