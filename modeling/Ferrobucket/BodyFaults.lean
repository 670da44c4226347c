import Ferrobucket.Lib.Traced
import Ferrobucket.Reference
/-! Failures up to the rename of a body or a part. All three write paths fill a temporary file
and rename it, and all three remove it again on every way out; what comes before the temporary
file changes nothing, and what comes after the rename is not reached. -/
namespace Ferrobucket
open Text Posix Program

/-! ### Filling a temporary file -/

/-- A temporary file at `p` with the handle `file`, over the tree of `s`. -/
structure TempFile (s : FS) (p : Path) (file : Handle) (after : FS) : Prop where
  named : after.node p = some (.file file)
  staged : ∃ content, Staged s p content after

/-- The calls that a file is filled with. -/
def FillsWith (file : Handle) : Call → Prop
  | .write handle _ => handle = file
  | .flush _ => True
  | .open _ => True
  | .read _ => True
  | _ => False

/-- A program that writes to its file and reads others, and gives up as soon as a call fails. -/
def Careful {Value : Type} (file : Handle) : Op Value → Prop
  | .done _ => True
  | .fail _ => True
  | .call call next =>
      FillsWith file call ∧ ∀ answer, Careful file (next answer) ∧
        (failed ⟨call, answer⟩ = true → ∃ e, next answer = .fail e)

section Filling
variable {s mid after : FS} {p : Path} {file : Handle} {Value : Type} {events : List Answered}

theorem temp_file_new (absent : s.node p = none) : TempFile s p s.nextInode (s.newFile p) where
  named := by simp
  staged := ⟨[], staged_newFile (FS.look_none.mpr absent)⟩

theorem temp_file_write (staging : TempFile s p file mid) (chunk : Bytes) :
    TempFile s p file (mid.write file chunk) := by
  obtain ⟨named, content, staged⟩ := staging
  constructor
  · simpa [FS.write] using named
  · refine ⟨mid.data file ++ chunk, staged.absent, ?_, staged.becomes.limit, staged.becomes.issued⟩
    rw [FS.write, FS.look_setData _ named, staged.becomes.look, Function.update_idem]

theorem temp_file_step {call : Call} {answer : Reply call}
    (own : FillsWith file call) (staging : TempFile s p file mid) (step : unreliable call mid answer after) :
    TempFile s p file after := by
  cases broke : failed ⟨call, answer⟩ with
  | true =>
      rw [failed_same step broke]
      exact staging
  | false =>
      rcases step with ⟨choice, performed⟩ | ⟨injected, _⟩
      · cases call with
        | write handle chunk =>
            obtain rfl : handle = file := own
            simp only [Call.perform, Option.some.injEq, Prod.mk.injEq] at performed
            rw [← performed.2]
            exact temp_file_write staging chunk
        | flush handle | «open» path | read handle =>
            simp only [Call.perform, Option.some.injEq, Prod.mk.injEq] at performed
            rw [← performed.2]
            exact staging
        | mkdir path | «exists» path | isDir path | readDir path | readTree path | creat path
        | unlink path | rmdir path | uuid | now | tempfileIn dir | rename source target =>
            exact own.elim
      · rw [broke] at injected
        cases injected

theorem careful_fills {program : Op Value} (careful : Careful file program)
    {outcome : Except StorageError Value} (staging : TempFile s p file mid)
    (run : Traced unreliable program mid events outcome after) :
    TempFile s p file after ∧ (outcome.isOk = true → ∀ event ∈ events, failed event = false) := by
  induction program generalizing mid events with
  | done value =>
      obtain ⟨rfl, rfl, rfl⟩ := traced_done run
      exact ⟨staging, fun _ event member => nomatch member⟩
  | fail error =>
      obtain ⟨rfl, rfl, rfl⟩ := traced_fail run
      exact ⟨staging, fun fine => nomatch fine⟩
  | call call next ih =>
      obtain ⟨answer, last, rest, rfl, step, later⟩ := traced_call run
      obtain ⟨own, all⟩ := careful
      obtain ⟨still, gives⟩ := all answer
      have next := temp_file_step own staging step
      cases broke : failed ⟨call, answer⟩ with
      | true =>
          obtain ⟨e, stops⟩ := gives broke
          rw [stops] at later
          obtain ⟨rfl, rfl, rfl⟩ := traced_fail later
          exact ⟨next, fun fine => nomatch fine⟩
      | false =>
          obtain ⟨filled, fine⟩ := ih answer still next later
          refine ⟨filled, fun ok event member => ?_⟩
          rcases List.mem_cons.mp member with rfl | inside
          · exact broke
          · exact fine ok event inside

theorem stream_careful (body : Body) (hasher : EtagHasher) (bytesWritten : Nat) :
    Careful file (streamToFile file body hasher bytesWritten) := by
  induction body generalizing hasher bytesWritten with
  | nil =>
      refine ⟨trivial, fun answer => ?_⟩
      cases answer with
      | ok _ => exact ⟨trivial, fun broke => nomatch broke⟩
      | error e => exact ⟨trivial, fun _ => ⟨_, rfl⟩⟩
  | cons piece rest ih =>
      cases piece with
      | error e => exact trivial
      | ok chunk =>
          refine ⟨rfl, fun answer => ?_⟩
          cases answer with
          | ok _ => exact ⟨ih _ _, fun broke => nomatch broke⟩
          | error e => exact ⟨trivial, fun _ => ⟨_, rfl⟩⟩

theorem assemble_careful (dir : PathBuf) (parts : List Int) (hasher : EtagHasher) (bytesWritten : Nat) :
    Careful file (assembleParts dir file parts hasher bytesWritten) := by
  induction parts generalizing hasher bytesWritten with
  | nil =>
      refine ⟨trivial, fun answer => ?_⟩
      cases answer with
      | ok _ => exact ⟨trivial, fun broke => nomatch broke⟩
      | error e => exact ⟨trivial, fun _ => ⟨_, rfl⟩⟩
  | cons number rest ih =>
      -- The part is opened, read and copied.
      refine ⟨trivial, fun opened => ?_⟩
      cases opened with
      | error e => exact ⟨trivial, fun _ => ⟨_, rfl⟩⟩
      | ok part =>
          refine ⟨⟨trivial, fun content => ?_⟩, fun broke => nomatch broke⟩
          cases content with
          | error e => exact ⟨trivial, fun _ => ⟨_, rfl⟩⟩
          | ok chunk =>
              refine ⟨⟨rfl, fun written => ?_⟩, fun broke => nomatch broke⟩
              cases written with
              | error e => exact ⟨trivial, fun _ => ⟨_, rfl⟩⟩
              | ok _ => exact ⟨ih _ _, fun broke => nomatch broke⟩

/-- A stream that fails never fills a file. -/
theorem stream_breaks {body : Body} (breaks : failure body ≠ none) {hasher : EtagHasher}
    {bytesWritten : Nat} {value : EtagHasher × Nat} :
    ¬ Traced unreliable (streamToFile file body hasher bytesWritten) mid events (.ok value) after := by
  induction body generalizing hasher bytesWritten mid events with
  | nil => exact absurd rfl breaks
  | cons piece rest ih =>
      intro run
      cases piece with
      | error e =>
          obtain ⟨_, same, _⟩ := traced_fail run
          cases same
      | ok chunk =>
          obtain ⟨answer, last, tail, rfl, _, later⟩ := traced_call run
          cases answer with
          | ok _ => exact ih breaks later
          | error e =>
              obtain ⟨_, same, _⟩ := traced_fail later
              cases same

end Filling
/-! ### Installing it -/

theorem becomes_same (s : FS) : Becomes s s.look s := ⟨rfl, rfl, rfl⟩

section Installing
variable {s after : FS} {events : List Answered} {Value Result : Type}

/-- A call that is not meant to fail in the window answers as it does without faults. -/
theorem reliable {call : Call} {answer : Reply call} (step : unreliable call s answer after)
    (fine : failed ⟨call, answer⟩ = false) : ∃ choice, call.perform choice s = some (answer, after) := by
  rcases step with performed | ⟨broke, _⟩
  · exact performed
  · rw [fine] at broke
    cases broke

theorem unreliable_temp {dir tmpPath : PathBuf} {file : Handle}
    (step : unreliable (.tempfileIn dir) s (.ok (tmpPath, file)) after) :
    ∃ found, s.locate tmpPath = .ok found ∧ TempFile s found file after := by
  obtain ⟨choice, performed⟩ := reliable step rfl
  simp only [Call.perform, FS.tempfileIn] at performed
  split_ifs at performed
  split at performed
  · cases performed
  · next found located =>
      split at performed
      · cases performed
      · next absent =>
          cases performed
          exact ⟨found, located, temp_file_new absent⟩

/-- Removing the temporary file brings the tree back. -/
theorem temp_removed {mid : FS} {tmpPath : PathBuf} {found : Path} {file : Handle}
    (located : s.locate tmpPath = .ok found) (staging : TempFile s found file mid) {e : StorageError}
    {outcome : Except StorageError Value}
    (run : Traced unreliable (.call (.unlink tmpPath) fun _ => .fail e : Op Value) mid events outcome
      after) : outcome = .error e ∧ Becomes s s.look after := by
  obtain ⟨answer, last, rest, rfl, step, later⟩ := traced_call run
  obtain ⟨rfl, rfl, rfl⟩ := traced_fail later
  obtain ⟨choice, performed⟩ := reliable step rfl
  obtain ⟨content, staged⟩ := staging.staged
  have removed := FS.unlink_file (staged_locate staged located) (staged_file staged)
  simp only [Call.perform, removed, Option.some.injEq, Prod.mk.injEq] at performed
  rw [← performed.2]
  exact ⟨rfl, staged_drop staged⟩

/-- A file is installed without any failure, or the tree is as it was. -/
theorem install_traced {dir target : PathBuf} {fill : Handle → Op Value}
    (careful : ∀ file, Careful file (fill file)) {outcome : Except StorageError Value}
    (run : Traced unreliable (installFile dir fill target) s events outcome after) :
    (outcome.isOk = false ∧ Becomes s s.look after) ∨
      ∃ value first rest, outcome = .ok value ∧ events = first :: rest ∧ makesTemp first = true ∧
        (∀ event ∈ events, failed event = false) ∧ (∃ event ∈ events, renames event = true) ∧
        ∃ file before own mid, Traced unreliable (fill file) before own (.ok value) mid := by
  rw [install_steps] at run
  obtain ⟨answer, made, rest, rfl, step, later⟩ := traced_call run
  cases answer with
  | error e =>
      have same := failed_same step rfl
      obtain ⟨rfl, rfl, rfl⟩ := traced_fail later
      exact .inl ⟨rfl, same ▸ becomes_same s⟩
  | ok tmp =>
      obtain ⟨tmpPath, file⟩ := tmp
      obtain ⟨found, located, staging⟩ := unreliable_temp step
      rcases traced_bind later with ⟨result, mid, own, last, rfl, filled, placed⟩ | ⟨e, _, filled⟩
      · obtain ⟨outcome', same, filled⟩ := traced_attempt filled
        cases same
        obtain ⟨still, fine⟩ := careful_fills (careful file) staging filled
        cases result with
        | error e =>
            obtain ⟨rfl, same⟩ := temp_removed located still placed
            exact .inl ⟨rfl, same⟩
        | ok value =>
            obtain ⟨renamed, moved, tail, rfl, rename, ending⟩ := traced_call placed
            cases renamed with
            | error e =>
                obtain rfl := failed_same rename rfl
                obtain ⟨rfl, same⟩ := temp_removed located still ending
                exact .inl ⟨rfl, same⟩
            | ok _ =>
                obtain ⟨rfl, rfl, rfl⟩ := traced_done ending
                refine .inr ⟨value, _, _, rfl, rfl, rfl, ?_, ?_, file, _, own, mid, filled⟩
                · intro event member
                  simp only [List.mem_cons, List.mem_append, List.not_mem_nil, or_false] at member
                  rcases member with rfl | inside | rfl
                  · rfl
                  · exact fine rfl event inside
                  · rfl
                · exact ⟨⟨.rename tmpPath target, .ok ()⟩, by simp, rfl⟩
      · obtain ⟨_, same, _⟩ := traced_attempt filled
        cases same

/-! ### Whole calls -/

/-- Whenever something in the window fails, or there is other trouble, the call fails and what is
left of it is `kept`. -/
def Traceless (trouble : Prop) (kept : FS → Prop) (s : FS) (program : Op Value) : Prop :=
  ∀ events outcome after, Traced unreliable program s events outcome after →
    trouble ∨ failsInWindow false events = true → outcome.isOk = false ∧ kept after

/-- What comes before the window makes no temporary file. -/
theorem traceless_bind {trouble : Prop} {kept : FS → Prop} {first : Op Value} {rest : Value → Op Result}
    (leads : ∀ events outcome mid, Traced unreliable first s events outcome mid →
      (∀ event ∈ events, makesTemp event = false) ∧
        match outcome with
        | .ok value => Traceless trouble kept mid (rest value)
        | .error _ => kept mid) : Traceless trouble kept s (first >>= rest) := by
  intro events outcome after run broke
  rcases traced_bind run with ⟨value, mid, front, back, rfl, own, later⟩ | ⟨e, rfl, own⟩
  · obtain ⟨plain, traceless⟩ := leads front _ mid own
    rw [fails_past plain] at broke
    exact traceless back outcome after later broke
  · exact ⟨rfl, (leads events _ after own).2⟩

/-- The window, and whatever comes after it. -/
theorem traceless_install {trouble : Prop} {kept : FS → Prop} {dir target : PathBuf}
    {fill : Handle → Op Value} {rest : Value → Op Result} (careful : ∀ file, Careful file (fill file))
    (troubled : trouble → ∀ file before own value mid,
      ¬ Traced unreliable (fill file) before own (.ok value) mid)
    (unchanged : ∀ after, Becomes s s.look after → kept after) :
    Traceless trouble kept s (installFile dir fill target >>= rest) := by
  intro events outcome after run broke
  rcases traced_bind run with ⟨value, mid, front, back, rfl, own, later⟩ | ⟨e, rfl, own⟩
  · rcases install_traced careful own with ⟨stopped, _⟩ |
      ⟨value', first, tail, same, rfl, opened, fine, renamed, file, before, written, last, filled⟩
    · cases stopped
    · rcases broke with bad | broke
      · cases same
        exact absurd filled (troubled bad file before written _ last)
      · have closed : failsInWindow true ((first :: tail) ++ back) = false := fails_closed fine renamed
        rw [List.cons_append, failsInWindow] at broke closed
        simp only [opened, Bool.or_true, if_true] at broke closed
        rw [closed] at broke
        cases broke
  · rcases install_traced careful own with ⟨_, same⟩ | ⟨value', _, _, same, _⟩
    · exact ⟨rfl, unchanged after same⟩
    · cases same

theorem traceless_fail {trouble : Prop} {kept : FS → Prop} (same : kept s) (e : StorageError) :
    Traceless trouble kept s (.fail e : Op Value) := by
  intro events outcome after run _
  obtain ⟨_, rfl, rfl⟩ := traced_fail run
  exact ⟨rfl, same⟩

/-- A test changes nothing, whatever it answers. -/
theorem traceless_exists {trouble : Prop} {kept : FS → Prop} {path : PathBuf} {next : Bool → Op Value}
    (all : ∀ found, Traceless trouble kept s (next found)) :
    Traceless trouble kept s (.call (.exists path) next) := by
  intro events outcome after run broke
  obtain ⟨answer, mid, rest, rfl, step, later⟩ := traced_call run
  obtain ⟨choice, performed⟩ := reliable step rfl
  simp only [Call.perform, Option.some.injEq, Prod.mk.injEq] at performed
  rw [← performed.2] at later
  exact all answer rest outcome after later broke

theorem traceless_lift {trouble : Prop} {kept : FS → Prop} {checked : Except StorageError Value}
    {rest : Value → Op Result} (same : kept s)
    (all : ∀ value, checked = .ok value → Traceless trouble kept s (rest value)) :
    Traceless trouble kept s (lift checked >>= rest) := by
  cases checked with
  | ok value => exact all value rfl
  | error e => exact traceless_fail same e

end Installing

section Calls
variable (crates : Crates) (storage : FsStorage) {s : FS}

theorem put_traceless (bucket key : Str) (body : Body) (contentType : Option Str) :
    Traceless (failure body ≠ none) (Becomes s s.look) s
      (putObject crates storage bucket key body contentType) := by
  have same := becomes_same s
  unfold putObject
  apply traceless_lift same
  intro _ _
  simp only [Prog.send_bind]
  apply traceless_exists
  intro found
  cases found with
  | false => exact traceless_fail same _
  | true =>
      apply traceless_lift same
      intro encodedKey _
      unfold writeObjectBody
      rw [Prog.bind_assoc]
      apply traceless_install (fun file => stream_careful body .new 0) _ (fun _ same => same)
      intro breaks file before own value mid
      exact stream_breaks breaks

theorem part_traceless (bucket uploadId : Str) (partNumber : Int) (body : Body) :
    Traceless (failure body ≠ none) (Becomes s s.look) s
      (uploadPart crates storage bucket uploadId partNumber body) := by
  have same := becomes_same s
  unfold uploadPart
  split
  · exact traceless_fail same _
  · simp only [Prog.send_bind]
    apply traceless_exists
    intro found
    cases found with
    | false => exact traceless_fail same _
    | true =>
        apply traceless_install (fun file => stream_careful body .new 0) _ (fun _ same => same)
        intro breaks file before own value mid
        exact stream_breaks breaks

end Calls

/-! ### What complete does before its window -/

/-- Nothing is different but that some directories are new. -/
def Grown (before after : FS) : Prop :=
  ∀ path, after.look path = before.look path ∨ (before.look path = none ∧ after.look path = some .dir)

section Preparing
variable {s after : FS} {events : List Answered} {Value : Type}

theorem grown_same (s : FS) : Grown s s := fun _ => .inl rfl

theorem grown_trans {mid : FS} (first : Grown s mid) (second : Grown mid after) : Grown s after := by
  intro path
  rcases second path with same | ⟨absent, made⟩
  · rw [same]
    exact first path
  · rcases first path with same | ⟨_, there⟩
    · exact .inr ⟨same ▸ absent, made⟩
    · rw [absent] at there
      cases there

theorem grown_mkdir (s : FS) (path : PathBuf) : Grown s (s.mkdir path).2 := by
  unfold FS.mkdir
  split
  · exact grown_same s
  · next found _ =>
      split
      · exact grown_same s
      · next absent _ =>
          intro other
          by_cases same : other = found
          · subst same
            exact .inr ⟨FS.look_none.mpr absent, by simp⟩
          · exact .inl (by simp [same])
      · exact grown_same s
      · exact grown_same s

/-- The calls of a program are all of one kind. -/
def OnlyCalls {Error : Type} (allowed : Call → Prop) : Prog Call Reply Error Value → Prop
  | .done _ => True
  | .fail _ => True
  | .call call next => allowed call ∧ ∀ answer, OnlyCalls allowed (next answer)

section Kind
variable {Error Failure Result : Type} {allowed : Call → Prop} {program : Prog Call Reply Error Value}

theorem only_bind {rest : Value → Prog Call Reply Error Result} (first : OnlyCalls allowed program)
    (later : ∀ value, OnlyCalls allowed (rest value)) : OnlyCalls allowed (program >>= rest) := by
  induction program with
  | done value => exact later value
  | fail error => exact trivial
  | call call next ih => exact ⟨first.1, fun answer => ih answer (first.2 answer)⟩

theorem only_attempt (own : OnlyCalls allowed program) :
    OnlyCalls allowed (program.attempt : Prog Call Reply Failure (Except Error Value)) := by
  induction program with
  | done value => exact trivial
  | fail error => exact trivial
  | call call next ih => exact ⟨own.1, fun answer => ih answer (own.2 answer)⟩

/-- What each call of the kind keeps, the program keeps. -/
theorem only_traced {related : FS → FS → Prop} (same : ∀ s, related s s)
    (trans : ∀ {s mid after}, related s mid → related mid after → related s after)
    (step : ∀ call s answer after, allowed call → unreliable call s answer after → related s after)
    (own : OnlyCalls allowed program) {outcome : Except Error Value}
    (run : Traced unreliable program s events outcome after) :
    (∀ event ∈ events, allowed event.1) ∧ related s after := by
  induction run with
  | done value state => exact ⟨fun event member => (nomatch member), same state⟩
  | fail error state => exact ⟨fun event member => (nomatch member), same state⟩
  | call performed _ ih =>
      obtain ⟨inside, later⟩ := ih (own.2 _)
      refine ⟨fun event member => ?_, trans (step _ _ _ _ own.1 performed) later⟩
      rcases List.mem_cons.mp member with rfl | member
      · exact own.1
      · exact inside event member

end Kind

/-- The calls of `create_dir_all`. -/
def MakesDirs : Call → Prop
  | .mkdir _ => True
  | .isDir _ => True
  | _ => False

/-- The calls that read a file. -/
def ReadsFile : Call → Prop
  | .open _ => True
  | .read _ => True
  | _ => False

theorem createDir_only (height : Nat) (path : PathBuf) :
    OnlyCalls MakesDirs (createDirUpTo height path) := by
  refine createDirUpTo_rule (fun _ program => OnlyCalls MakesDirs program)
    ?_ ?_ ?_ ?_ ?_ height path
  · exact fun _ => trivial
  · exact fun _ _ => trivial
  · exact fun _ _ goes => ⟨trivial, goes⟩
  · exact fun _ _ goes => ⟨trivial, goes⟩
  · exact fun _ _ _ climbs goes => only_bind climbs fun _ => goes

theorem makes_dirs_step {call : Call} {answer : Reply call} (own : MakesDirs call)
    (step : unreliable call s answer after) : Grown s after := by
  cases call with
  | mkdir path =>
      obtain ⟨choice, performed⟩ := reliable step rfl
      have grown := grown_mkdir s path
      simp only [Call.perform, Option.some.injEq] at performed
      rw [performed] at grown
      exact grown
  | isDir path =>
      obtain ⟨choice, performed⟩ := reliable step rfl
      simp only [Call.perform, Option.some.injEq, Prod.mk.injEq] at performed
      rw [performed.2]
      exact grown_same _
  | «exists» path | readDir path | readTree path | tempfileIn dir | creat path | write handle chunk
  | flush handle | rename source target | unlink path | rmdir path | «open» path | read handle | uuid
  | now => exact own.elim

theorem reads_file_step {call : Call} {answer : Reply call} (own : ReadsFile call)
    (step : unreliable call s answer after) : after = s := by
  cases broke : failed ⟨call, answer⟩ with
  | true => exact failed_same step broke
  | false =>
      obtain ⟨choice, performed⟩ := reliable step broke
      cases call with
      | «open» path | read handle =>
          simp only [Call.perform, Option.some.injEq, Prod.mk.injEq] at performed
          exact performed.2.symm
      | mkdir path | «exists» path | isDir path | readDir path | readTree path | tempfileIn dir
      | creat path | write handle chunk | flush handle | rename source target | unlink path
      | rmdir path | uuid | now => exact own.elim

theorem createDir_traced {path : PathBuf} {outcome : Except StorageError Unit}
    (run : Traced unreliable (ioOp (createDirAll path)) s events outcome after) :
    (∀ event ∈ events, makesTemp event = false) ∧ Grown s after := by
  have own : OnlyCalls MakesDirs (ioOp (createDirAll path)) := by
    apply only_bind (only_attempt (createDir_only _ path))
    intro result
    cases result <;> exact trivial
  obtain ⟨kinds, grown⟩ := only_traced grown_same grown_trans
    (fun _ _ _ _ => makes_dirs_step) own run
  refine ⟨fun event member => ?_, grown⟩
  have kind := kinds event member
  rcases event with ⟨call, answer⟩
  cases call <;> first | rfl | exact kind.elim

/-- A directory that is there already is left alone. -/
theorem createDir_there {path : PathBuf} {found : Path} (located : s.locate path = .ok found)
    (inside : s.look found = some .dir) {outcome : Except StorageError Unit}
    (run : Traced unreliable (ioOp (createDirAll path)) s events outcome after) : after = s := by
  have present : s.look found ≠ none := by simp [inside]
  have refused := FS.mkdir_present located present
  have attempted : ∀ events (outcome : Except StorageError (Except Errno Unit)) after,
      Traced unreliable (createDirAll path).attempt s events outcome after → after = s := by
    intro events outcome after run
    obtain ⟨result, _, run⟩ := traced_attempt run
    unfold createDirAll at run
    rw [createDirUpTo.eq_def] at run
    simp only [Prog.send_bind] at run
    obtain ⟨answer, mid, rest, rfl, step, later⟩ := traced_call run
    obtain ⟨choice, performed⟩ := reliable step rfl
    simp only [Call.perform, refused, Option.some.injEq, Prod.mk.injEq] at performed
    obtain ⟨rfl, rfl⟩ := performed
    obtain ⟨found, last, tail, rfl, step, later⟩ := traced_call later
    obtain ⟨choice, performed⟩ := reliable step rfl
    simp only [Call.perform, Option.some.injEq, Prod.mk.injEq] at performed
    obtain ⟨_, rfl⟩ := performed
    cases found with
    | true => exact (traced_done later).2.2
    | false => exact (traced_fail later).2.2
  rcases traced_bind run with ⟨result, mid, first, second, _, own, later⟩ | ⟨e, _, own⟩
  · obtain rfl := attempted first _ mid own
    cases result with
    | ok _ => exact (traced_done later).2.2
    | error e => exact (traced_fail later).2.2
  · exact attempted events _ after own

theorem readFile_traced {path : PathBuf} {outcome : Except Errno Bytes}
    (run : Traced unreliable (readFile path) s events outcome after) :
    ∀ content, outcome = .ok content → fileContents s path = .ok content := by
  rintro content rfl
  unfold readFile at run
  simp only [Prog.send_bind] at run
  obtain ⟨opened, mid, rest, rfl, step, later⟩ := traced_call run
  cases opened with
  | error e =>
      obtain ⟨_, same, _⟩ := traced_fail later
      cases same
  | ok handle =>
      obtain ⟨choice, performed⟩ := reliable step rfl
      simp only [Call.perform, Option.some.injEq, Prod.mk.injEq] at performed
      obtain ⟨located, rfl⟩ := performed
      obtain ⟨content', last, tail, rfl, step, later⟩ := traced_call later
      cases content' with
      | error e =>
          obtain ⟨_, same, _⟩ := traced_fail later
          cases same
      | ok bytes =>
          obtain ⟨_, same, _⟩ := traced_done later
          cases same
          obtain ⟨choice, performed⟩ := reliable step rfl
          simp only [Call.perform, Option.some.injEq, Prod.mk.injEq, Except.ok.injEq] at performed
          rw [fileContents, located, ← performed.1]
          rfl

/-- The record that an upload's directory holds. -/
def RecordIs (codec : Codec Value) (s : FS) (path : PathBuf) (value : Value) : Prop :=
  ∃ content, fileContents s path = .ok content ∧ codec.decode content = .ok value

theorem readJson_traced {codec : Codec Value} {missing : Str → StorageError} {path : PathBuf}
    {outcome : Except StorageError Value}
    (run : Traced unreliable (readJson codec missing path) s events outcome after) :
    (∀ event ∈ events, makesTemp event = false) ∧ after = s ∧
      ∀ value, outcome = .ok value → RecordIs codec s path value := by
  have reads : OnlyCalls ReadsFile (readFile path) := by
    refine ⟨trivial, fun opened => ?_⟩
    cases opened with
    | error e => exact trivial
    | ok handle =>
        refine ⟨trivial, fun content => ?_⟩
        cases content <;> exact trivial
  have quiet : ∀ {events : List Answered} {outcome : Except Errno Bytes} {after : FS},
      Traced unreliable (readFile path) s events outcome after →
        (∀ event ∈ events, makesTemp event = false) ∧ after = s := by
    intro events outcome after run
    have kept : (∀ event ∈ events, ReadsFile event.1) ∧ s = after :=
      only_traced (fun _ => rfl) Eq.trans
        (fun _ _ _ _ own step => (reads_file_step own step).symm) reads run
    obtain ⟨kinds, rfl⟩ := kept
    refine ⟨fun event member => ?_, rfl⟩
    have kind := kinds event member
    rcases event with ⟨call, answer⟩
    cases call <;> first | rfl | exact kind.elim
  unfold readJson at run
  rcases traced_bind run with ⟨result, mid, first, second, rfl, own, later⟩ | ⟨e, rfl, own⟩
  · obtain ⟨result', same, own⟩ := traced_attempt own
    cases same
    obtain ⟨plain, rfl⟩ := quiet own
    have contents := readFile_traced own
    cases result with
    | error e =>
        have stopped : second = [] ∧ (∃ error, outcome = .error error) ∧ after = mid := by
          cases e <;> (obtain ⟨rfl, rfl, rfl⟩ := traced_fail later; exact ⟨rfl, ⟨_, rfl⟩, rfl⟩)
        obtain ⟨rfl, ⟨error, rfl⟩, rfl⟩ := stopped
        rw [List.append_nil]
        exact ⟨plain, rfl, fun value same => nomatch same⟩
    | ok bytes =>
        cases decoded : codec.decode bytes with
        | ok value =>
            simp only [decoded] at later
            obtain ⟨rfl, rfl, rfl⟩ := traced_done later
            rw [List.append_nil]
            refine ⟨plain, rfl, fun value' same => ?_⟩
            cases same
            exact ⟨bytes, contents bytes rfl, decoded⟩
        | error text =>
            simp only [decoded] at later
            obtain ⟨rfl, rfl, rfl⟩ := traced_fail later
            rw [List.append_nil]
            exact ⟨plain, rfl, fun value same => nomatch same⟩
  · obtain ⟨_, same, _⟩ := traced_attempt own
    cases same

end Preparing

section Completing
variable (crates : Crates) (storage : FsStorage) {s : FS}

/-- Is the bucket of an upload there, with the directory that its objects go to? -/
def UploadBucketExists (s : FS) (uploadId : Str) : Prop :=
  ∀ mpMeta, RecordIs crates.multipartMeta s ((storage.uploadDir uploadId).join multipartJsonName) mpMeta →
    ∃ found, s.locate (storage.objectsDir mpMeta.bucket) = .ok found ∧ s.look found = some .dir

theorem complete_traceless {kept : FS → Prop} (bucket key uploadId : Str) (parts : List Int)
    (start : kept s)
    (prepared : ∀ mpMeta events outcome mid,
      RecordIs crates.multipartMeta s ((storage.uploadDir uploadId).join multipartJsonName) mpMeta →
      Traced unreliable (ioOp (createDirAll (storage.objectsDir mpMeta.bucket))) s events outcome mid →
      kept mid ∧ ∀ after, Becomes mid mid.look after → kept after) :
    Traceless False kept s (completeMultipartUpload crates storage bucket key uploadId parts) := by
  unfold completeMultipartUpload readMultipartMeta
  apply traceless_bind
  intro events outcome mid run
  obtain ⟨plain, rfl, record⟩ := readJson_traced run
  refine ⟨plain, ?_⟩
  cases outcome with
  | error e => exact start
  | ok mpMeta =>
      apply traceless_bind
      intro events outcome last run
      obtain ⟨plain, _⟩ := createDir_traced run
      obtain ⟨keptLast, unchanged⟩ := prepared mpMeta events outcome last (record mpMeta rfl) run
      refine ⟨plain, ?_⟩
      cases outcome with
      | error e => exact keptLast
      | ok _ =>
          apply traceless_lift keptLast
          intro encodedKey _
          exact traceless_install (fun file => assemble_careful _ _ .new 0) (fun bad => bad.elim) unchanged

theorem complete_traceless_grown (bucket key uploadId : Str) (parts : List Int) :
    Traceless False (Grown s) s (completeMultipartUpload crates storage bucket key uploadId parts) := by
  apply complete_traceless crates storage bucket key uploadId parts (grown_same s)
  intro mpMeta events outcome mid _ run
  obtain ⟨_, grown⟩ := createDir_traced run
  refine ⟨grown, fun after same => grown_trans grown fun path => ?_⟩
  rw [same.look]
  exact .inl rfl

theorem complete_traceless_same (bucket key uploadId : Str) (parts : List Int)
    (there : UploadBucketExists crates storage s uploadId) :
    Traceless False (Becomes s s.look) s
      (completeMultipartUpload crates storage bucket key uploadId parts) := by
  apply complete_traceless crates storage bucket key uploadId parts (becomes_same s)
  intro mpMeta events outcome mid record run
  obtain ⟨found, located, inside⟩ := there mpMeta record
  obtain rfl := createDir_there located inside run
  exact ⟨becomes_same mid, fun after same => same⟩

/-- When anything fails between the creation of the temporary file and the rename of the body or
the part, both included, or the body's stream fails, the call fails and the tree is as it was.
That holds for completing an upload too, if the bucket is there; otherwise only directories are
new. -/
theorem failures_leave_no_trace :
    (∀ bucket key body contentType events outcome after,
      Traced unreliable (putObject crates storage bucket key body contentType) s events outcome after →
      failure body ≠ none ∨ failsInWindow false events = true →
      outcome.isOk = false ∧ Becomes s s.look after) ∧
    (∀ bucket uploadId partNumber body events outcome after,
      Traced unreliable (uploadPart crates storage bucket uploadId partNumber body) s events outcome
        after →
      failure body ≠ none ∨ failsInWindow false events = true →
      outcome.isOk = false ∧ Becomes s s.look after) ∧
    ∀ bucket key uploadId parts events outcome after,
      Traced unreliable (completeMultipartUpload crates storage bucket key uploadId parts) s events
        outcome after →
      failsInWindow false events = true →
      outcome.isOk = false ∧ Grown s after ∧
        (UploadBucketExists crates storage s uploadId → Becomes s s.look after) := by
  refine ⟨?_, ?_, ?_⟩
  · intro bucket key body contentType
    exact put_traceless crates storage bucket key body contentType
  · intro bucket uploadId partNumber body
    exact part_traceless crates storage bucket uploadId partNumber body
  · intro bucket key uploadId parts events outcome after run broke
    obtain ⟨stopped, grown⟩ := complete_traceless_grown crates storage bucket key uploadId parts events
      outcome after run (.inr broke)
    refine ⟨stopped, grown, fun there => ?_⟩
    exact (complete_traceless_same crates storage bucket key uploadId parts there events outcome after
      run (.inr broke)).2

end Completing
/-! ### A write that fails -/

namespace Reference

/-- The bucket `photos` without any object. -/
def emptyBucket : FS :=
  ((disk none).mkdirAt (bucket :: storage.dataRoot)).mkdirAt (objectsName :: bucket :: storage.dataRoot)

def tempPath : PathBuf := (storage.objectsDir bucket).join ".tmpAAAAAA".toList

def beingWritten : FS :=
  emptyBucket.newFile (".tmpAAAAAA".toList :: objectsName :: bucket :: storage.dataRoot)

/-- The put looks for the bucket, makes its temporary file and cannot write to it. -/
theorem failed_put : Traced unreliable
    (putObject Crates.reference storage bucket ['a'] [.ok [104]] none) emptyBucket
    [⟨.exists (storage.bucketPath bucket), true⟩,
      ⟨.tempfileIn (storage.objectsDir bucket), .ok (tempPath, 0)⟩, ⟨.write 0 [104], .error Errno.EIO⟩,
      ⟨.unlink tempPath, (beingWritten.unlink tempPath).1⟩]
    (.error (.Io (.os Errno.EIO))) (beingWritten.unlink tempPath).2 := by
  have valid : validateBucketName bucket = .ok () := by decide
  have encoded : encodeKey ['a'] = .ok ['a'] := by decide
  have there : emptyBucket.exists (storage.bucketPath bucket) = true := rfl
  have drawn : emptyBucket.tempfileIn (storage.objectsDir bucket) ".tmpAAAAAA".toList =
      some (.ok (tempPath, 0), beingWritten) := rfl
  unfold putObject
  rw [valid]
  refine .call (.inl ⟨{}, congrArg some (Prod.ext there rfl)⟩) ?_
  rw [encoded]
  refine .call (.inl ⟨{ name := ".tmpAAAAAA".toList }, drawn⟩) ?_
  refine .call (.inr ⟨rfl, rfl⟩) ?_
  exact .call (.inl ⟨{}, rfl⟩) (.fail _ _)

end Reference

theorem failures_leave_no_trace_photos :
    Becomes Reference.emptyBucket Reference.emptyBucket.look
      (Reference.beingWritten.unlink Reference.tempPath).2 :=
  ((failures_leave_no_trace Crates.reference Reference.storage).1 _ _ _ _ _ _ _
    Reference.failed_put (.inr rfl)).2

end Ferrobucket
