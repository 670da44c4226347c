import Ferrobucket.Lib.Steps
/-! Who changed a path last. A file that others only rename to or unlink is, at any time,
what the last of these left; the events of a run say who that was. -/
namespace Posix
open Text Program

variable {Thread : Type}

/-- What a thread has done to a path: put a file there, or left nothing there. -/
inductive Touch (Thread : Type) where
  | installed (thread : Thread)
  | removed (thread : Thread)

def Touch.thread : Touch Thread → Thread
  | .installed thread => thread
  | .removed thread => thread

/-- The effect of one event on a path; unlinking what is not there leaves nothing there too. -/
def touch (path : PathBuf) : Event Thread Reply → Option (Touch Thread)
  | ⟨thread, .rename _ target, .ok ()⟩ => if target = path then some (.installed thread) else none
  | ⟨thread, .unlink target, .ok ()⟩ => if target = path then some (.removed thread) else none
  | ⟨thread, .unlink target, .error .ENOENT⟩ =>
      if target = path then some (.removed thread) else none
  | _ => none

/-- The last of the events that had an effect on the path. -/
def lastTouch (path : PathBuf) (events : List (Event Thread Reply)) : Option (Touch Thread) :=
  events.foldl (fun last event => (touch path event).or last) none

/-- The path of a temporary file. -/
def PathBuf.Temporary (path : PathBuf) : Prop :=
  ∃ dir name, isTempName name = true ∧ path = PathBuf.join dir name

/-- An event that has no effect on files with names of their own. -/
def Silent (event : Event Thread Reply) : Prop :=
  ∀ path, touch path event ≠ none → path.Temporary

/-- An entry is what the last touch says: what was there before, what its thread wrote, or
nothing, and the thread is one that removes it. -/
def Accounts (before : Option FS.Entry) (wrote : Thread → Bytes → Prop) (removes : Thread → Prop) :
    Option (Touch Thread) → Option FS.Entry → Prop
  | none, now => now = before
  | some (.installed thread), now => ∃ content, wrote thread content ∧ now = some (.file content)
  | some (.removed thread), now => removes thread ∧ now = none

/-- One more touch goes on from what the touches before have left. -/
theorem accounts_next {before now after : Option FS.Entry} {wrote : Thread → Bytes → Prop}
    {removes : Thread → Prop} {last touched : Option (Touch Thread)}
    (accounts : Accounts before wrote removes last now) (step : Accounts now wrote removes touched after) :
    Accounts before wrote removes (touched.or last) after := by
  cases touched with
  | none =>
      obtain rfl := step
      exact accounts
  | some found => cases found <;> exact step

section Trace
variable {path : PathBuf} {event : Event Thread Reply} {past later : List (Event Thread Reply)}

@[simp] theorem lastTouch_nil : lastTouch path ([] : List (Event Thread Reply)) = none := rfl

theorem lastTouch_snoc : lastTouch path (past ++ [event]) = (touch path event).or (lastTouch path past) := by
  simp [lastTouch]

theorem lastTouch_installed {thread : Thread} {source : PathBuf} :
    lastTouch path (past ++ [⟨thread, .rename source path, .ok ()⟩]) = some (.installed thread) := by
  rw [lastTouch_snoc]
  have touched : touch path (⟨thread, .rename source path, .ok ()⟩ : Event Thread Reply) =
      some (.installed thread) := if_pos rfl
  rw [touched, Option.some_or]

theorem lastTouch_silent (silent : Silent event) (lasting : ¬ path.Temporary) :
    lastTouch path (past ++ [event]) = lastTouch path past := by
  have untouched : touch path event = none := by
    by_contra touched
    exact lasting (silent path touched)
  rw [lastTouch_snoc, untouched, Option.none_or]

/-- More events do not undo that the path was touched. -/
theorem lastTouch_append (touched : lastTouch path past ≠ none) :
    lastTouch path (past ++ later) ≠ none := by
  induction later using List.reverseRecOn with
  | nil => simpa using touched
  | append_singleton later event ih =>
      rw [← List.append_assoc, lastTouch_snoc]
      cases touch path event with
      | none => simpa using ih
      | some found => simp

theorem touched_later {seen : List (Event Thread Reply)} (touched : lastTouch path seen ≠ none)
    (before : seen <+: past) : lastTouch path past ≠ none := by
  obtain ⟨rest, rfl⟩ := before
  exact lastTouch_append touched

/-- The last touch is one of the events. -/
theorem lastTouch_mem {found : Touch Thread} (last : lastTouch path past = some found) :
    ∃ event ∈ past, touch path event = some found := by
  induction past using List.reverseRecOn with
  | nil => cases last
  | append_singleton past event ih =>
      rw [lastTouch_snoc] at last
      cases touched : touch path event with
      | none =>
          rw [touched, Option.none_or] at last
          obtain ⟨other, member, same⟩ := ih last
          exact ⟨other, List.mem_append_left _ member, same⟩
      | some own =>
          rw [touched, Option.some_or] at last
          exact ⟨event, by simp, touched.trans last⟩

theorem touch_thread {found : Touch Thread} (touched : touch path event = some found) :
    found.thread = event.thread := by
  obtain ⟨thread, command, reply⟩ := event
  unfold touch at touched
  split at touched
  · split_ifs at touched
    cases touched
    simp_all [Touch.thread]
  · split_ifs at touched
    cases touched
    simp_all [Touch.thread]
  · split_ifs at touched
    cases touched
    simp_all [Touch.thread]
  · cases touched

/-- What was installed was renamed there. -/
theorem touch_installed {thread : Thread} (touched : touch path event = some (.installed thread)) :
    ∃ source, event = ⟨thread, .rename source path, .ok ()⟩ := by
  have same := touch_thread touched
  obtain ⟨other, command, reply⟩ := event
  simp only [Touch.thread] at same
  subst same
  unfold touch at touched
  split at touched
  · next source target heq =>
      split_ifs at touched with equal
      cases heq
      subst equal
      exact ⟨source, rfl⟩
  · split_ifs at touched
    cases touched
  · split_ifs at touched
    cases touched
  · cases touched

/-- Calls that only look are silent. -/
theorem silent_quiet {thread : Thread} {call : Call} {reply : Reply call} (quiet : call.quiet = true) :
    Silent (⟨thread, call, reply⟩ : Event Thread Reply) := by
  intro path touched
  cases call with
  | rename _ _ | unlink _ => cases quiet
  | _ => exact absurd rfl touched

end Trace
end Posix
