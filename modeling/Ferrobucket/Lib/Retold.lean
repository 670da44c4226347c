import Ferrobucket.Lib.Folders
/-! A program told again by another one. The copy reads the state and leaves it as it is, and it
ends as the program would have ended there, under other names. -/
namespace Retold
open Program Folders

variable {Command : Type} {Reply : Command → Type} {Error State Value Copied Result Shown : Type}
  {sem : Semantics Command Reply State} {state : State}

/-- Whatever is sure of the program's outcome is sure of an outcome that the copy has, renamed. -/
def Retells (sem : Semantics Command Reply State) (state : State) (program : Prog Command Reply Error Value)
    (copy : Prog Command Reply Error Copied) (rename : Value → Copied) : Prop :=
  ∀ post, wp sem program post state → wp sem copy (fun outcome after =>
    after = state ∧ ∃ told, outcome = told.map rename ∧ post told state) state

theorem retells_done {value : Value} {copied : Copied} {rename : Value → Copied} (same : rename value = copied) :
    Retells sem state (.done value : Prog Command Reply Error Value) (.done copied) rename := by
  intro post holds
  exact ⟨rfl, .ok value, by rw [← same]; rfl, holds⟩

/-- One after the other; the rest may go by what is known of the first value. -/
theorem retells_bind_known {program : Prog Command Reply Error Value} {copy : Prog Command Reply Error Copied}
    {rename : Value → Copied} {rest : Value → Prog Command Reply Error Result}
    {copyRest : Copied → Prog Command Reply Error Shown} {renameRest : Result → Shown} {known : Value → Prop}
    (first : Retells sem state program copy rename)
    (knows : wp sem program (fun outcome _ => ∀ value, outcome = .ok value → known value) state)
    (later : ∀ value, known value → Retells sem state (rest value) (copyRest (rename value)) renameRest) :
    Retells sem state (program >>= rest) (copy >>= copyRest) renameRest := by
  intro post holds
  rw [wp_bind] at holds ⊢
  have both := wp_mono (wp_and_runs holds) fun outcome after told =>
    And.intro told.1 (wp_runs knows told.2)
  apply wp_mono (first _ both)
  rintro outcome after ⟨rfl, told, rfl, ends, facts⟩
  cases told with
  | error e => exact ⟨rfl, .error e, rfl, ends⟩
  | ok value => exact later value (facts value rfl) post ends

theorem retells_bind {program : Prog Command Reply Error Value} {copy : Prog Command Reply Error Copied}
    {rename : Value → Copied} {rest : Value → Prog Command Reply Error Result}
    {copyRest : Copied → Prog Command Reply Error Shown} {renameRest : Result → Shown}
    (first : Retells sem state program copy rename)
    (later : ∀ value, Retells sem state (rest value) (copyRest (rename value)) renameRest) :
    Retells sem state (program >>= rest) (copy >>= copyRest) renameRest := by
  intro post holds
  rw [wp_bind] at holds ⊢
  apply wp_mono (first _ holds)
  rintro outcome after ⟨rfl, told, rfl, ends⟩
  cases told with
  | error e => exact ⟨rfl, .error e, rfl, ends⟩
  | ok value => exact later value post ends

/-- What is made of the program's value may as well be made by the copy's names. -/
theorem retells_mapped {program : Prog Command Reply Error Value} {copy : Prog Command Reply Error Copied}
    {make : Value → Result} {rename : Result → Copied}
    (first : Retells sem state program copy fun value => rename (make value)) :
    Retells sem state (program >>= fun value => pure (make value)) copy rename := by
  intro post holds
  rw [wp_bind] at holds
  apply wp_mono (first _ holds)
  rintro outcome after ⟨rfl, told, rfl, ends⟩
  cases told with
  | error e => exact ⟨rfl, .error e, rfl, ends⟩
  | ok value => exact ⟨rfl, .ok (make value), rfl, ends⟩

/-! ### Walks -/

section Walks
variable {Symbol Sign : Type}

/-- A folder under its address, with what leads to its names and to its labels. -/
def address (place link : List Symbol → List Sign) (folder : Folder Symbol) : Folder Sign :=
  ⟨place folder.pfx, folder.keys.map link, folder.labels.map place⟩

/-- What a lister answers, under other names. -/
def relabel (place link : List Symbol → List Sign) (level : Option (List (List Symbol) × List (List Symbol))) :
    Option (List (List Sign) × List (List Sign)) :=
  level.map fun found => (found.1.map link, found.2.map place)

variable {list : Lister Command Reply Error Symbol} {copy : Lister Command Reply Error Sign}
  {place link : List Symbol → List Sign}

theorem retells_walkEach {visit : List Symbol → Prog Command Reply Error (Option (List (Folder Symbol)))}
    {again : List Sign → Prog Command Reply Error (Option (List (Folder Sign)))}
    (visits : ∀ label, Retells sem state (visit label) (again (place label))
      (Option.map (List.map (address place link)))) (labels : List (List Symbol)) :
    Retells sem state (walkEach visit labels) (walkEach again (labels.map place))
      (Option.map (List.map (address place link))) := by
  induction labels with
  | nil => exact retells_done rfl
  | cons label rest ih =>
      rw [List.map_cons]
      unfold walkEach
      apply retells_bind (visits label)
      intro found
      cases found with
      | none => exact retells_done rfl
      | some folders =>
          apply retells_bind ih
          intro later
          cases later with
          | none => exact retells_done rfl
          | some others =>
              apply retells_done
              rw [Option.map_some, Option.map_some, List.map_append]
              rfl

/-- Where each level is told again, so is the whole walk. -/
theorem retells_walk (lists : ∀ pfx, Retells sem state (list pfx) (copy (place pfx)) (relabel place link))
    (depth : Nat) (pfx : List Symbol) :
    Retells sem state (walk list depth pfx) (walk copy depth (place pfx))
      (Option.map (List.map (address place link))) := by
  induction depth generalizing pfx with
  | zero => exact retells_done rfl
  | succ depth ih =>
      unfold walk
      apply retells_bind (lists pfx)
      intro level
      cases level with
      | none => exact retells_done rfl
      | some found =>
          apply retells_bind (retells_walkEach ih found.2)
          intro below
          cases below with
          | none => exact retells_done rfl
          | some folders => exact retells_done rfl

end Walks

end Retold
