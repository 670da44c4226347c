import Ferrobucket.Lib.Linear
import Ferrobucket.Lib.Sharing
/-! Files that are registers. Threads put them in place whole and remove them whole, each thread
coming to each file at most once; so the content of every file is what the operations on it, one
after the other, have made of what was there in the beginning. -/
namespace Posix
open Text Program

/-- When a thread has come to a file, and what it has found and left there. -/
abbrev Marks (Thread File : Type) := File → Option (Moment Thread Reply (Option FS.Entry))

/-- Every file has what the operations on it have made of its first content. -/
structure Cells {Thread File : Type} (place : File → Path) (proper : File → Prop)
    (does : Thread → File → Option FS.Entry → Option FS.Entry → Prop) (start : FS)
    (stages : Thread → Marks Thread File) (past : List (Event Thread Reply)) (s : FS) : Prop where
  linear : ∀ file, proper file → Linear (fun thread => does thread file) (start.look (place file))
    (fun thread => stages thread file) past (s.look (place file))

section Cells
variable {Thread File : Type} {place : File → Path} {proper : File → Prop}
  {does : Thread → File → Option FS.Entry → Option FS.Entry → Prop} {start s after : FS}
  {stages : Thread → Marks Thread File} {past : List (Event Thread Reply)}

theorem cells_start : Cells place proper does start (fun (_ : Thread) _ => none) [] start :=
  ⟨fun _ _ => linear_start⟩

/-- A step that is on none of the files. -/
theorem cells_quiet (cells : Cells place proper does start stages past s) (event : Event Thread Reply) :
    Cells place proper does start stages (past ++ [event]) s :=
  ⟨fun file good => linear_quiet (cells.linear file good) event⟩

theorem cells_hidden (cells : Cells place proper does start stages past s)
    (same : ∀ file, proper file → after.look (place file) = s.look (place file)) :
    Cells place proper does start stages past after := by
  refine ⟨fun file good => ?_⟩
  rw [same file good]
  exact cells.linear file good

variable [DecidableEq Thread] [DecidableEq File] {thread : Thread} {stage : Marks Thread File}
  {event : Event Thread Reply} {file : File} {entry : Option FS.Entry}

/-- The step in which a thread comes to a file. -/
theorem cells_next (cells : Cells place proper does start (Function.update stages thread stage) past s)
    (good : proper file) (fresh : stage file = none) (own : event.thread = thread)
    (legal : does thread file (s.look (place file)) entry) (here : after.look (place file) = entry)
    (apart : ∀ other, proper other → other ≠ file → after.look (place other) = s.look (place other)) :
    Cells place proper does start
      (Function.update stages thread (Function.update stage file
        (some ⟨past ++ [event], s.look (place file), entry⟩))) (past ++ [event]) after := by
  refine ⟨fun other also => ?_⟩
  have former := cells.linear other also
  by_cases this : other = file
  · subst this
    have moments : (fun owner => Function.update stages thread (Function.update stage other
          (some ⟨past ++ [event], s.look (place other), entry⟩)) owner other) =
        Function.update (fun owner => Function.update stages thread stage owner other) thread
          (some ⟨past ++ [event], s.look (place other), entry⟩) := by
      funext owner
      by_cases mine : owner = thread
      · subst mine
        simp
      · simp [mine]
    rw [moments, here]
    exact linear_next former event own (by simpa using fresh) legal
  · have moments : (fun owner => Function.update stages thread (Function.update stage file
          (some ⟨past ++ [event], s.look (place file), entry⟩)) owner other) =
        fun owner => Function.update stages thread stage owner other := by
      funext owner
      by_cases mine : owner = thread
      · subst mine
        simp [this]
      · simp [mine]
    rw [moments, apart other also this]
    exact linear_quiet former event

end Cells
end Posix
