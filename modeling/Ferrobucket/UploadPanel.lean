import Ferrobucket.Lib.Traced
import Ferrobucket.UploadZone
/-! The panel of `UploadIsland`, from upload_zone.rs and upload_panel.rs: its entries, the counter of
uploads that are not over yet and the reload of the page, with the replies of the browser in any
order. -/
namespace Ferrobucket
open Text Program

namespace UploadIsland

/-! ### The panel -/

structure File where
  name : Str
  content : Bytes

/-- A file in the panel, with what is left of its upload. -/
structure FileEntry where
  id : Nat
  name : Str
  status : UploadStatus
  part : Nat × Nat
  task : Task (Option UploadStatus)

structure Panel where
  entries : List FileEntry
  pending : Nat
  anyDone : Bool
  nextId : Nat
  reloaded : Bool

def Panel.initial : Panel := ⟨[], 0, false, 1, false⟩

inductive PanelEvent where
  | dropped (files : List File)
  | replied (id : Nat) (command : Browser) (reply : BrowserReply command)
  | cleared
  | effect

section Island
variable (bucket pfx : Str)

/-- The size is cast to `u32`, which saturates. -/
def startTask (file : File) : Task (Option UploadStatus) :=
  if min file.content.length (2 ^ 32 - 1) ≤ partSizeBytes then
    uploadSmallFile file.content bucket (key pfx file.name)
  else do
    let status ← uploadMultipart file.content.length bucket (key pfx file.name)
    pure (some status)

def newEntry (panel : Panel) (file : File) : FileEntry :=
  ⟨panel.nextId, file.name, .inProgress, (0, 0), startTask bucket pfx file⟩

def addFile (panel : Panel) (file : File) : Panel :=
  { panel with
    pending := panel.pending + 1
    nextId := panel.nextId + 1
    entries := panel.entries ++ [newEntry bucket pfx panel file] }

def processFiles (panel : Panel) (files : List File) : Panel := files.foldl (addFile bucket pfx) panel

/-- The status that the end of a task sets. -/
def settles : Task (Option UploadStatus) → Option UploadStatus
  | .done result => result
  | _ => none

def FileEntry.resume (entry : FileEntry) (command : Browser) (task : Task (Option UploadStatus)) :
    FileEntry :=
  { entry with
    task := task
    part := match command with
      | .setPart part total => (part, total)
      | _ => entry.part
    status := (settles task).getD entry.status }

/-- An entry goes on with a reply; if its upload settles with it, the counters follow. -/
def Panel.resume (panel : Panel) (front back : List FileEntry) (entry : FileEntry) (command : Browser)
    (task : Task (Option UploadStatus)) : Panel :=
  { panel with
    entries := front ++ entry.resume command task :: back
    pending := if (settles task).isSome then panel.pending - 1 else panel.pending
    anyDone := panel.anyDone || settles task = some .done }

/-- The button that clears finished uploads. -/
def Panel.clear (panel : Panel) : Panel :=
  { panel with entries := panel.entries.filter fun entry => entry.status = .inProgress }

/-- The effect on the two signals. -/
def Panel.react (panel : Panel) : Panel :=
  { panel with reloaded := panel.reloaded || (panel.pending = 0 && panel.anyDone) }

/-- One turn of the event loop. -/
inductive Panel.Step : Panel → PanelEvent → Panel → Prop
  | dropped (panel : Panel) (files : List File) :
      Step panel (.dropped files) (processFiles bucket pfx panel files)
  | replied {panel : Panel} {front back : List FileEntry} {entry : FileEntry} {command : Browser}
      {next : BrowserReply command → Task (Option UploadStatus)} (reply : BrowserReply command)
      (shown : panel.entries = front ++ entry :: back) (waits : entry.task = .call command next) :
      Step panel (.replied entry.id command reply) (panel.resume front back entry command (next reply))
  | cleared (panel : Panel) : Step panel .cleared panel.clear
  | effect (panel : Panel) : Step panel .effect panel.react

/-- What the panel can become from its start, with what has happened. -/
inductive Panel.Run : List PanelEvent → Panel → Prop
  | start : Run [] .initial
  | step {history : List PanelEvent} {panel after : Panel} {event : PanelEvent} (earlier : Run history panel)
      (turn : panel.Step bucket pfx event after) : Run (history ++ [event]) after

/-! ### What the panel should tell -/

/-- The request that stores the object: the only one, or the completion of its parts. -/
inductive StoringRequest (key : Str) : Browser → Prop
  | single (blob : Bytes) : StoringRequest key (.send (url bucket key) blob)
  | complete (uploadId : Str) (body : Option Bytes) :
      StoringRequest key (.fetch (completeUrl bucket key uploadId) body)

def Succeeded : (command : Browser) → BrowserReply command → Prop
  | .send _ _, .response status _ => isSuccess status = true
  | .fetch _ _, .response status _ => isSuccess status = true
  | _, _ => False

def isRequest : Browser → Bool
  | .send _ _ => true
  | .fetch _ _ => true
  | _ => false

def requestOf (id : Nat) : PanelEvent → Option (Program.Answer Browser BrowserReply)
  | .replied other command reply => if other = id ∧ isRequest command = true then some ⟨command, reply⟩ else none
  | _ => none

/-- The last request of an upload that came to an end, with its reply. -/
def lastRequest (history : List PanelEvent) (id : Nat) : Option (Program.Answer Browser BrowserReply) :=
  history.reverse.findSome? (requestOf id)

/-- The server has answered the request that stores the object with success. -/
def Landed (key : Str) (last : Option (Program.Answer Browser BrowserReply)) : Prop :=
  ∃ command reply, last = some ⟨command, reply⟩ ∧ StoringRequest bucket key command ∧
    Succeeded command reply

/-- Nothing of the upload is left to do. -/
def FileEntry.Finished (entry : FileEntry) : Prop := ∃ result, entry.task = .done result

structure Truthful (history : List PanelEvent) (panel : Panel) : Prop where
  counted : panel.pending = panel.entries.countP fun entry => entry.status = .inProgress
  done : ∀ entry ∈ panel.entries, entry.status = .done →
    entry.Finished ∧ Landed bucket (key pfx entry.name) (lastRequest history entry.id)
  error : ∀ entry ∈ panel.entries, entry.Finished → entry.status ≠ .done → entry.status = .error
  terminal : panel.pending = 0 ↔ ∀ entry ∈ panel.entries, entry.Finished
  reload : panel.reloaded = true → ∃ id key, ∃ event ∈ history, Landed bucket key (requestOf id event)

end Island

/-- The reply is one that the upload of a small file tells apart: there is a request, and a response to
it is a success. -/
def ToldApart : (command : Browser) → BrowserReply command → Prop
  | .newXhr, made => made = true
  | .send _ _, .response status _ => isSuccess status = true
  | _, _ => True

def PanelEvent.ToldApart : PanelEvent → Prop
  | .replied _ command reply => UploadIsland.ToldApart command reply
  | _ => True

/-! ### One upload -/

/-- The browser as an upload meets it, with the last request that came to an end. -/
def browser : Semantics Browser BrowserReply (Option (Program.Answer Browser BrowserReply)) :=
  fun command before reply after => ToldApart command reply ∧
    after = if isRequest command = true then some ⟨command, reply⟩ else before

theorem told_apart_some (command : Browser) : ∃ reply, ToldApart command reply := by
  cases command with
  | newXhr => exact ⟨true, rfl⟩
  | send url blob => exact ⟨.failed, trivial⟩
  | slice start stop => exact ⟨none, trivial⟩
  | setPart part total => exact ⟨(), trivial⟩
  | fetch url body => exact ⟨.failed, trivial⟩

section Tasks
variable {Value : Type} {bucket pfx key : Str} {last : Option (Program.Answer Browser BrowserReply)}

theorem wp_browser {command : Browser} {next : BrowserReply command → Task Value}
    {post : Except Empty Value → Option (Program.Answer Browser BrowserReply) → Prop}
    (all : ∀ reply, ToldApart command reply →
      wp browser (next reply) post (if isRequest command = true then some ⟨command, reply⟩ else last)) :
    wp browser (.call command next) post last := by
  constructor
  · obtain ⟨reply, fair⟩ := told_apart_some command
    exact ⟨reply, _, fair, rfl⟩
  · rintro reply after ⟨fair, rfl⟩
    exact all reply fair

/-- Every task comes to an end. -/
theorem wp_ends (task : Task Value) : wp browser task (fun _ _ => True) last := by
  induction task generalizing last with
  | done value => trivial
  | fail error => trivial
  | call command next ih => exact wp_browser fun reply _ => ih reply

/-- A task has settled, with success only if the request that stores the object had it. -/
def Ended (bucket key : Str) (outcome : Except Empty (Option UploadStatus))
    (last : Option (Program.Answer Browser BrowserReply)) : Prop :=
  ∃ status, outcome = .ok (some status) ∧ status ≠ .inProgress ∧ (status = .done → Landed bucket key last)

theorem small_ends (file : Bytes) : wp browser (uploadSmallFile file bucket key) (Ended bucket key) last := by
  apply wp_browser
  rintro made rfl
  apply wp_browser
  intro answer fair
  cases answer with
  | failed => exact ⟨.error, rfl, by decide, fun same => nomatch same⟩
  | response status text =>
      exact ⟨.done, rfl, by decide, fun _ => ⟨_, _, rfl, .single file, fair⟩⟩

theorem complete_ends (uploadId : Str) (partNumbers : List Int32) :
    wp browser (completeParts bucket key uploadId partNumbers)
      (fun outcome last => Ended bucket key (outcome.map some) last) last := by
  apply wp_browser
  intro answer _
  change wp browser (Prog.bind (.done (received answer)) _) _ _
  cases ok : received answer with
  | error e => exact ⟨.error, rfl, by decide, by rintro ⟨⟩⟩
  | ok text =>
      obtain ⟨status, rfl, success⟩ := received_ok ok
      exact ⟨.done, rfl, by decide, fun _ => ⟨_, _, rfl, .complete uploadId _, success⟩⟩

theorem abort_ends (uploadId : Str) :
    wp browser (abortParts bucket key uploadId)
      (fun outcome last => Ended bucket key (outcome.map some) last) last := by
  apply wp_browser
  intro answer _
  exact ⟨.error, rfl, by decide, fun same => nomatch same⟩

theorem multipart_ends (fileSize : Nat) :
    wp browser (uploadMultipart fileSize bucket key)
      (fun outcome last => Ended bucket key (outcome.map some) last) last := by
  apply wp_bind.mpr
  apply wp_mono (wp_ends _)
  intro outcome created _
  cases outcome with
  | error e => cases e
  | ok answer =>
      cases answer with
      | error e => exact ⟨.error, rfl, by decide, fun same => nomatch same⟩
      | ok id =>
          apply wp_bind.mpr
          apply wp_mono (wp_ends _)
          intro outcome uploaded _
          cases outcome with
          | error e => cases e
          | ok parts =>
              cases parts with
              | none => exact abort_ends _
              | some partNumbers => exact complete_ends _ partNumbers

theorem task_ends (file : File) :
    wp browser (startTask bucket pfx file) (Ended bucket (UploadIsland.key pfx file.name)) last := by
  unfold startTask
  split
  · exact small_ends file.content
  · apply wp_bind.mpr
    apply wp_mono (multipart_ends file.content.length)
    intro outcome after ended
    cases outcome with
    | error e => cases e
    | ok status => exact ended

end Tasks

/-! ### The whole panel -/

section Panels
variable {bucket pfx : Str} {history : List PanelEvent} {panel : Panel} {event : PanelEvent}

/-- What is left of the entry's upload ends well, and until then the entry is in progress. -/
structure FileEntry.Sound (bucket pfx : Str) (last : Option (Program.Answer Browser BrowserReply))
    (entry : FileEntry) : Prop where
  ends : wp browser entry.task (Ended bucket (key pfx entry.name)) last
  shown : entry.status = (settles entry.task).getD .inProgress

structure Panel.Kept (bucket pfx : Str) (history : List PanelEvent) (panel : Panel) : Prop where
  counted : panel.pending = panel.entries.countP fun entry => entry.status = .inProgress
  distinct : (panel.entries.map FileEntry.id).Nodup
  issued : ∀ entry ∈ panel.entries, entry.id < panel.nextId
  fresh : ∀ id, panel.nextId ≤ id → lastRequest history id = none
  sound : ∀ entry ∈ panel.entries, entry.Sound bucket pfx (lastRequest history entry.id)
  anyDone : panel.anyDone = true → ∃ id key, ∃ event ∈ history, Landed bucket key (requestOf id event)
  reloaded : panel.reloaded = true → panel.anyDone = true

theorem finished_status {entry : FileEntry} {last : Option (Program.Answer Browser BrowserReply)}
    (sound : entry.Sound bucket pfx last) (finished : entry.Finished) :
    entry.status ≠ .inProgress ∧ (entry.status = .done → Landed bucket (key pfx entry.name) last) := by
  obtain ⟨result, closed⟩ := finished
  have ended := sound.ends
  have shown := sound.shown
  rw [closed] at ended shown
  obtain ⟨status, same, terminal, landed⟩ := ended
  cases same
  rw [shown]
  exact ⟨terminal, landed⟩

theorem finished_iff {entry : FileEntry} {last : Option (Program.Answer Browser BrowserReply)}
    (sound : entry.Sound bucket pfx last) : entry.Finished ↔ entry.status ≠ .inProgress := by
  constructor
  · intro finished
    exact (finished_status sound finished).1
  · intro terminal
    have shown := sound.shown
    cases closed : entry.task with
    | done result => exact ⟨result, closed⟩
    | fail error => cases error
    | call command next =>
        rw [closed] at shown
        exact absurd shown terminal

theorem last_request_next (history : List PanelEvent) (event : PanelEvent) (id : Nat) :
    lastRequest (history ++ [event]) id = (requestOf id event).or (lastRequest history id) := by
  unfold lastRequest
  rw [List.reverse_append, List.reverse_singleton, List.singleton_append, List.findSome?_cons]
  cases requestOf id event <;> rfl

/-- A last request is one that has happened. -/
theorem landed_happened {key : Str} {id : Nat} (landed : Landed bucket key (lastRequest history id)) :
    ∃ event ∈ history, Landed bucket key (requestOf id event) := by
  obtain ⟨command, reply, found, storing, succeeded⟩ := landed
  obtain ⟨event, member, same⟩ := List.exists_of_findSome?_eq_some found
  exact ⟨event, List.mem_reverse.mp member, command, reply, same, storing, succeeded⟩

theorem kept_start : Panel.initial.Kept bucket pfx [] where
  counted := rfl
  distinct := List.nodup_nil
  issued _ member := nomatch member
  fresh _ _ := rfl
  sound _ member := nomatch member
  anyDone absent := nomatch absent
  reloaded absent := nomatch absent

/-- An event that is no reply to a request changes nothing that is known of the requests. -/
theorem kept_quiet (kept : panel.Kept bucket pfx history) (quiet : ∀ id, requestOf id event = none) :
    panel.Kept bucket pfx (history ++ [event]) := by
  have same : ∀ id, lastRequest (history ++ [event]) id = lastRequest history id := by
    intro id
    rw [last_request_next, quiet id]
    rfl
  refine ⟨kept.counted, kept.distinct, kept.issued, ?_, ?_, ?_, kept.reloaded⟩
  · intro id later
    rw [same]
    exact kept.fresh id later
  · intro entry member
    rw [same]
    exact kept.sound entry member
  · intro done
    obtain ⟨id, key, found, member, landed⟩ := kept.anyDone done
    exact ⟨id, key, found, List.mem_append_left _ member, landed⟩

theorem kept_add (kept : panel.Kept bucket pfx history) (file : File) :
    (addFile bucket pfx panel file).Kept bucket pfx history := by
  have running : (newEntry bucket pfx panel file).status = .inProgress := rfl
  refine ⟨?_, ?_, ?_, ?_, ?_, kept.anyDone, kept.reloaded⟩
  · simp only [addFile, List.countP_append, List.countP_singleton, running, kept.counted]
    rfl
  · rw [addFile, List.map_append, List.nodup_append]
    refine ⟨kept.distinct, List.nodup_singleton _, ?_⟩
    intro id earlier other own
    obtain ⟨entry, member, rfl⟩ := List.mem_map.mp earlier
    obtain rfl := List.mem_singleton.mp own
    exact (kept.issued entry member).ne
  · intro entry member
    rcases List.mem_append.mp member with earlier | own
    · exact (kept.issued entry earlier).trans (Nat.lt_succ_self _)
    · obtain rfl := List.mem_singleton.mp own
      exact Nat.lt_succ_self _
  · intro id later
    exact kept.fresh id (Nat.le_of_succ_le later)
  · intro entry member
    rcases List.mem_append.mp member with earlier | own
    · exact kept.sound entry earlier
    · obtain rfl := List.mem_singleton.mp own
      refine ⟨task_ends file, ?_⟩
      change UploadStatus.inProgress = (settles (startTask bucket pfx file)).getD .inProgress
      unfold startTask
      split <;> rfl

theorem kept_process (kept : panel.Kept bucket pfx history) (files : List File) :
    (processFiles bucket pfx panel files).Kept bucket pfx history := by
  induction files generalizing panel with
  | nil => exact kept
  | cons file rest ih => exact ih (kept_add kept file)

theorem kept_clear (kept : panel.Kept bucket pfx history) : panel.clear.Kept bucket pfx history := by
  refine ⟨?_, ?_, ?_, kept.fresh, ?_, kept.anyDone, kept.reloaded⟩
  · rw [Panel.clear, List.countP_filter]
    simp only [Bool.and_self]
    exact kept.counted
  · exact kept.distinct.sublist (List.filter_sublist.map _)
  · intro entry member
    exact kept.issued entry (List.mem_of_mem_filter member)
  · intro entry member
    exact kept.sound entry (List.mem_of_mem_filter member)

theorem kept_react (kept : panel.Kept bucket pfx history) : panel.react.Kept bucket pfx history := by
  refine ⟨kept.counted, kept.distinct, kept.issued, kept.fresh, kept.sound, kept.anyDone, ?_⟩
  intro reloaded
  rcases (Bool.or_eq_true _ _).mp reloaded with before | now
  · exact kept.reloaded before
  · exact (Bool.and_eq_true_iff.mp now).2

/-- A reply changes the last request of its own upload only. -/
theorem last_request_other {command : Browser} {reply : BrowserReply command} {id other : Nat}
    (apart : id ≠ other) :
    lastRequest (history ++ [.replied id command reply]) other = lastRequest history other := by
  have nothing : requestOf other (.replied id command reply) = none := if_neg fun both => apart both.1
  rw [last_request_next, nothing]
  rfl

theorem last_request_own {command : Browser} {reply : BrowserReply command} (id : Nat) :
    lastRequest (history ++ [.replied id command reply]) id =
      if isRequest command = true then some ⟨command, reply⟩ else lastRequest history id := by
  rw [last_request_next]
  by_cases request : isRequest command = true
  · rw [if_pos request, requestOf, if_pos ⟨rfl, request⟩]
    rfl
  · rw [if_neg request, requestOf, if_neg fun both => request both.2]
    rfl

section Replied
variable {front back : List FileEntry} {entry : FileEntry} {command : Browser}
  {next : BrowserReply command → Task (Option UploadStatus)} {reply : BrowserReply command}

theorem settles_some {task : Task (Option UploadStatus)} {status : UploadStatus}
    (closed : settles task = some status) : task = .done (some status) := by
  cases task with
  | done result => exact congrArg Prog.done closed
  | fail error => cases error
  | call command next => cases closed

theorem resume_sound (sound : entry.Sound bucket pfx (lastRequest history entry.id))
    (waits : entry.task = .call command next) (fair : ToldApart command reply) :
    (entry.resume command (next reply)).Sound bucket pfx
      (lastRequest (history ++ [.replied entry.id command reply]) entry.id) := by
  obtain ⟨ends, shown⟩ := sound
  rw [waits] at ends shown
  constructor
  · rw [last_request_own]
    exact ends.2 reply _ ⟨fair, rfl⟩
  · change (settles (next reply)).getD entry.status = _
    rw [shown]
    rfl

/-- An upload that settles leaves the ones in progress, and one that goes on stays among them. -/
theorem resume_counted (counted : panel.pending = panel.entries.countP fun entry => entry.status = .inProgress)
    (shown : panel.entries = front ++ entry :: back) (running : entry.status = .inProgress)
    (terminal : ∀ status, settles (next reply) = some status → status ≠ .inProgress) :
    (panel.resume front back entry command (next reply)).pending =
      (panel.resume front back entry command (next reply)).entries.countP
        fun entry => entry.status = .inProgress := by
  rw [shown, List.countP_append, List.countP_cons_of_pos (by rw [running]; rfl)] at counted
  simp only [Panel.resume, List.countP_append]
  cases closed : settles (next reply) with
  | none =>
      have still : (entry.resume command (next reply)).status = .inProgress := by
        change (settles (next reply)).getD entry.status = _
        rw [closed]
        exact running
      rw [List.countP_cons_of_pos (by rw [still]; rfl)]
      exact counted
  | some status =>
      have gone : (entry.resume command (next reply)).status ≠ .inProgress := by
        change (settles (next reply)).getD entry.status ≠ _
        rw [closed]
        exact terminal status closed
      rw [List.countP_cons_of_neg (by simpa using gone)]
      simp only [Option.isSome_some, if_true]
      omega

theorem kept_replied (kept : panel.Kept bucket pfx history) (shown : panel.entries = front ++ entry :: back)
    (waits : entry.task = .call command next) (fair : ToldApart command reply) :
    (panel.resume front back entry command (next reply)).Kept bucket pfx
      (history ++ [.replied entry.id command reply]) := by
  have own : entry ∈ panel.entries := by
    rw [shown]
    exact List.mem_append_right _ List.mem_cons_self
  have sound := resume_sound (kept.sound entry own) waits fair
  have running : entry.status = .inProgress := by
    have status := (kept.sound entry own).shown
    rw [waits] at status
    exact status
  have ids : (panel.resume front back entry command (next reply)).entries.map FileEntry.id =
      panel.entries.map FileEntry.id := by
    rw [shown]
    simp only [Panel.resume, List.map_append, List.map_cons]
    rfl
  have settled : ∀ status, settles (next reply) = some status → status ≠ .inProgress ∧
      (status = .done → Landed bucket (key pfx entry.name)
        (lastRequest (history ++ [.replied entry.id command reply]) entry.id)) := by
    intro status closed
    have ends : wp browser (next reply) (Ended bucket (key pfx entry.name)) _ := sound.ends
    rw [settles_some closed] at ends
    obtain ⟨found, same, terminal, landed⟩ := ends
    cases same
    exact ⟨terminal, landed⟩
  -- An entry of the new panel is the one that got the reply, or an old one of another upload.
  have members : ∀ other ∈ (panel.resume front back entry command (next reply)).entries,
      other = entry.resume command (next reply) ∨ (other ∈ panel.entries ∧ entry.id ≠ other.id) := by
    intro other member
    have distinct := kept.distinct
    rw [shown, List.map_append, List.map_cons, List.nodup_middle, List.nodup_cons] at distinct
    have aside : other ∈ front ++ back → other ∈ panel.entries ∧ entry.id ≠ other.id := by
      intro inside
      constructor
      · rw [shown]
        rcases List.mem_append.mp inside with before | behind
        · exact List.mem_append_left _ before
        · exact List.mem_append_right _ (List.mem_cons_of_mem _ behind)
      · intro same
        apply distinct.1
        rw [same, ← List.map_append]
        exact List.mem_map_of_mem inside
    rcases List.mem_append.mp member with before | behind
    · exact Or.inr (aside (List.mem_append_left _ before))
    · rcases List.mem_cons.mp behind with same | later
      · exact Or.inl same
      · exact Or.inr (aside (List.mem_append_right _ later))
  refine ⟨?_, ?_, ?_, ?_, ?_, ?_, ?_⟩
  · apply resume_counted kept.counted shown running
    exact fun status closed => (settled status closed).1
  · rw [ids]
    exact kept.distinct
  · intro other member
    rcases members other member with rfl | ⟨before, _⟩
    · exact kept.issued entry own
    · exact kept.issued other before
  · intro id later
    have apart : entry.id ≠ id := (lt_of_lt_of_le (kept.issued entry own) later).ne
    rw [last_request_other apart]
    exact kept.fresh id later
  · intro other member
    rcases members other member with rfl | ⟨before, apart⟩
    · exact sound
    · rw [last_request_other apart]
      exact kept.sound other before
  · intro done
    rcases (Bool.or_eq_true _ _).mp done with earlier | now
    · obtain ⟨id, key, found, member, landed⟩ := kept.anyDone earlier
      exact ⟨id, key, found, List.mem_append_left _ member, landed⟩
    · obtain ⟨found, member, landed⟩ := landed_happened ((settled .done (decide_eq_true_eq.mp now)).2 rfl)
      exact ⟨entry.id, key pfx entry.name, found, member, landed⟩
  · intro reloaded
    exact (Bool.or_eq_true _ _).mpr (Or.inl (kept.reloaded reloaded))

end Replied

/-- One turn keeps what is known of the panel. -/
theorem kept_step {after : Panel} (kept : panel.Kept bucket pfx history)
    (turn : panel.Step bucket pfx event after) (fair : event.ToldApart) :
    after.Kept bucket pfx (history ++ [event]) := by
  cases turn with
  | dropped files => exact kept_quiet (kept_process kept files) fun _ => rfl
  | replied reply shown waits => exact kept_replied kept shown waits fair
  | cleared => exact kept_quiet (kept_clear kept) fun _ => rfl
  | effect => exact kept_quiet (kept_react kept) fun _ => rfl

theorem kept_run (run : Panel.Run bucket pfx history panel) (fair : ∀ event ∈ history, event.ToldApart) :
    panel.Kept bucket pfx history := by
  induction run with
  | start => exact kept_start
  | step earlier turn ih =>
      have before := ih fun event member => fair event (List.mem_append_left _ member)
      exact kept_step before turn (fair _ (List.mem_append_right _ List.mem_cons_self))

theorem kept_truthful (kept : panel.Kept bucket pfx history) : Truthful bucket pfx history panel := by
  have finished : ∀ entry ∈ panel.entries, entry.Finished ↔ entry.status ≠ .inProgress :=
    fun entry member => finished_iff (kept.sound entry member)
  refine ⟨kept.counted, ?_, ?_, ?_, fun reloaded => kept.anyDone (kept.reloaded reloaded)⟩
  · intro entry member done
    have closed : entry.Finished := (finished entry member).mpr (by rw [done]; decide)
    exact ⟨closed, (finished_status (kept.sound entry member) closed).2 done⟩
  · intro entry member closed other
    have terminal := (finished entry member).mp closed
    cases status : entry.status with
    | inProgress => exact absurd status terminal
    | done => exact absurd status other
    | error => rfl
  · rw [kept.counted, List.countP_eq_zero]
    refine forall₂_congr fun entry member => ?_
    rw [finished entry member]
    simp

end Panels

/-- If every small upload gets its request and no response to it but a success, the panel tells the
truth at all times: whatever files are dropped and in whatever order their requests end. -/
theorem panel_truthful {bucket pfx : Str} {history : List PanelEvent} {panel : Panel}
    (run : Panel.Run bucket pfx history panel) (fair : ∀ event ∈ history, event.ToldApart) :
    Truthful bucket pfx history panel :=
  kept_truthful (kept_run run fair)

/-! ### One empty file -/

namespace Reference

def bucket : Str := "photos".toList

def file : File := ⟨"a".toList, []⟩

/-- The file is dropped, and its request gets a response with the status. -/
def history (status : Nat) : List PanelEvent :=
  [.dropped [file], .replied 1 .newXhr true, .replied 1 (.send (url bucket file.name) []) (.response status none),
    .effect]

def dropped : Panel := processFiles bucket [] .initial [file]

/-- The entry when its request is under way. -/
def sending : FileEntry :=
  (newEntry bucket [] .initial file).resume .newXhr
    (send (url bucket file.name) [] >>= fun answer => pure (some (loaded answer)))

def reloading : Panel :=
  ⟨[⟨1, file.name, .done, (0, 0), .done (some .done)⟩], 0, true, 2, true⟩

/-- Whatever the status, the entry is done and the page reloads. -/
theorem response_reloads (status : Nat) : Panel.Run bucket [] (history status) reloading := by
  have first : Panel.Run bucket [] [.dropped [file]] dropped := Panel.Run.start.step (.dropped _ _)
  have shown : dropped.entries = [] ++ newEntry bucket [] .initial file :: [] := rfl
  have second : Panel.Run bucket [] [.dropped [file], .replied 1 .newXhr true]
      { dropped with entries := [sending] } := first.step (.replied true shown rfl)
  have shown' : [sending] = [] ++ sending :: [] := rfl
  exact (second.step (.replied (Reached.response status none) shown' rfl)).step (.effect _)

end Reference

theorem panel_truthful_photo :
    Truthful Reference.bucket [] (Reference.history 200) Reference.reloading := by
  apply panel_truthful (Reference.response_reloads 200)
  intro event member
  simp only [Reference.history, List.mem_cons, List.not_mem_nil, or_false] at member
  rcases member with rfl | rfl | rfl | rfl
  · trivial
  · rfl
  · rfl
  · trivial

/-- A small file that the server refuses is shown as done, and the page reloads. -/
theorem panel_shows_refused_done :
    Panel.Run Reference.bucket [] (Reference.history 400) Reference.reloading ∧
      Reference.reloading.reloaded = true ∧
      ¬ Truthful Reference.bucket [] (Reference.history 400) Reference.reloading := by
  refine ⟨Reference.response_reloads 400, rfl, ?_⟩
  intro truthful
  obtain ⟨_, command, reply, last, _, succeeded⟩ := truthful.done _ List.mem_cons_self rfl
  cases last
  cases succeeded

end UploadIsland
end Ferrobucket
