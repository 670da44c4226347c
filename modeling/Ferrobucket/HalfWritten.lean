import Ferrobucket.Lib.Stopped
import Ferrobucket.BodyFaults
import Ferrobucket.UploadRefinement
/-! Writes that stop halfway. The answers that a write has been given say how far it is: which
of its temporary files are still among the bodies, and whether the body and the record are in
place. Here is what the shared helpers do to that, and to the tree, when any call may fail. -/
namespace Ferrobucket
open Text Posix Program

/-- How far a write is: what it has left among the bodies, and what it has put in place. -/
structure Headway where
  leftover : List PathBuf
  body : Bool
  record : Bool

section Headway
variable (storage : FsStorage) (bucket encoded : Str)

def Headway.next (progress : Headway) : Answered → Headway
  | ⟨.tempfileIn dir, .ok made⟩ =>
      if dir = storage.objectsDir bucket then { progress with leftover := made.1 :: progress.leftover }
      else progress
  | ⟨.unlink path, .ok ()⟩ => { progress with leftover := progress.leftover.erase path }
  | ⟨.rename source target, .ok ()⟩ =>
      { leftover := progress.leftover.erase source
        body := progress.body || target = storage.objectPath bucket encoded
        record := progress.record || target = storage.metaPath bucket encoded }
  | _ => progress

def headwayOf (events : List Answered) : Headway :=
  events.foldl (Headway.next storage bucket encoded) ⟨[], false, false⟩

theorem headway_snoc (events : List Answered) (event : Answered) :
    headwayOf storage bucket encoded (events ++ [event]) =
      (headwayOf storage bucket encoded events).next storage bucket encoded event := by
  simp [headwayOf]

variable {storage} {bucket} {encoded}

/-- One more answer. -/
theorem headway_after {events : List Answered} {progress : Headway}
    (same : headwayOf storage bucket encoded events = progress) (event : Answered) :
    headwayOf storage bucket encoded (events ++ [event]) = progress.next storage bucket encoded event := by
  rw [headway_snoc, same]

theorem stage_at {events : List Answered} {progress : Headway} {stage : Headway → FS → Prop} {t : FS}
    (same : headwayOf storage bucket encoded events = progress) (here : stage progress t) :
    stage (headwayOf storage bucket encoded events) t := by
  rw [same]
  exact here

end Headway
/-! ### Calls that do not matter -/

section Helpers
variable {storage : FsStorage} {bucket encoded : Str} {Error Value : Type} {s t : FS}
  {stage : Headway → FS → Prop} {progress : Headway} {events : List Answered}

/-- Wherever the program is, the state is at the stage that its answers say. -/
abbrev staysAt (storage : FsStorage) (bucket encoded : Str) (stage : Headway → FS → Prop)
    {Error Value : Type} (program : Prog Call Reply Error Value)
    (post : Except Error Value → List Answered → FS → Prop) (events : List Answered) (t : FS) : Prop :=
  throughout faulty (fun events t => stage (headwayOf storage bucket encoded events) t) program post events t

theorem quiet_headway {call : Call} (quiet : call.quiet = true) (answer : Reply call) :
    progress.next storage bucket encoded ⟨call, answer⟩ = progress := by
  cases call <;> first | rfl | cases quiet

/-- A call that only looks leaves everything as it is. -/
theorem stays_quiet {call : Call} {next : Reply call → Prog Call Reply Error Value}
    {post : Except Error Value → List Answered → FS → Prop} (quiet : call.quiet = true)
    (same : headwayOf storage bucket encoded events = progress) (here : stage progress t)
    (all : ∀ answer later, headwayOf storage bucket encoded later = progress →
      faulty call t answer t → staysAt storage bucket encoded stage (next answer) post later t) :
    staysAt storage bucket encoded stage (.call call next) post events t := by
  refine ⟨stage_at same here, fun answer after step => ?_⟩
  obtain rfl := faulty_quiet quiet step
  exact all answer _ ((headway_after same _).trans (quiet_headway quiet answer)) step

theorem stays_lift {Result : Type} {post : Except StorageError Result → List Answered → FS → Prop}
    {checked : Except StorageError Value} {rest : Value → Op Result}
    (same : headwayOf storage bucket encoded events = progress) (here : stage progress t)
    (refused : ∀ e, post (.error e) events t)
    (all : ∀ value, checked = .ok value → staysAt storage bucket encoded stage (rest value) post events t) :
    staysAt storage bucket encoded stage (lift checked >>= rest) post events t := by
  cases checked with
  | ok value => exact all value rfl
  | error e => exact ⟨stage_at same here, refused e⟩

/-! ### Temporary files -/

theorem fills_headway {file : Handle} {call : Call} (own : FillsWith file call) (answer : Reply call) :
    progress.next storage bucket encoded ⟨call, answer⟩ = progress := by
  cases call <;> first | rfl | exact own.elim

/-- A filling call that fails for no reason of its own is a failing call. -/
theorem fills_unreliable {file : Handle} {call : Call} {answer : Reply call} {after : FS}
    (own : FillsWith file call) (step : faulty call t answer after) : unreliable call t answer after := by
  rcases faulty_step step with good | ⟨⟨e, failing⟩, rfl⟩
  · exact .inl good
  · refine .inr ⟨?_, rfl⟩
    cases call with
    | write handle chunk | flush handle | «open» path | read handle =>
        cases failing
        rfl
    | _ => exact own.elim

/-- Filling a file stays at one stage, and what was filled without an error was filled without
any fault. -/
theorem stays_careful {file : Handle} {place : Path} {program : Op Value} {mid : FS}
    (careful : Careful file program) (same : headwayOf storage bucket encoded events = progress)
    (filling : ∀ mid, TempFile s place file mid → stage progress mid) (staging : TempFile s place file mid) :
    staysAt storage bucket encoded stage program (fun outcome later after =>
      headwayOf storage bucket encoded later = progress ∧ TempFile s place file after ∧
        ∀ value, outcome = .ok value → Runs faultFree program mid (.ok value) after) events mid := by
  induction program generalizing mid events with
  | done value =>
      refine ⟨stage_at same (filling mid staging), same, staging, ?_⟩
      rintro other ⟨⟩
      exact .done value mid
  | fail error => exact ⟨stage_at same (filling mid staging), same, staging, nofun⟩
  | call call next ih =>
      obtain ⟨own, all⟩ := careful
      refine ⟨stage_at same (filling mid staging), fun answer after step => ?_⟩
      have unreliable := fills_unreliable own step
      have still := temp_file_step own staging unreliable
      have stay : headwayOf storage bucket encoded (events ++ [⟨call, answer⟩]) = progress :=
        (headway_after same _).trans (fills_headway own answer)
      obtain ⟨later, gives⟩ := all answer
      cases broke : failed ⟨call, answer⟩ with
      | true =>
          obtain ⟨e, stops⟩ := gives broke
          rw [stops]
          exact ⟨stage_at stay (filling after still), stay, still, nofun⟩
      | false =>
          apply throughout_mono (ih answer later stay still)
          rintro outcome last final _ ⟨at', kept, runs⟩
          refine ⟨at', kept, fun value ok => ?_⟩
          obtain ⟨choice, performed⟩ := reliable unreliable broke
          exact .call ⟨choice, performed⟩ (runs value ok)

/-- A file is removed, or that fails too. -/
theorem stays_removed {tmpPath : PathBuf} {place : Path} {file : Handle} {mid : FS} {e : StorageError}
    {post : Except StorageError Value → List Answered → FS → Prop}
    (located : s.locate tmpPath = .ok place) (staging : TempFile s place file mid)
    (same : headwayOf storage bucket encoded events = progress) (here : stage progress mid)
    (removed : ∀ after, Becomes s s.look after →
      stage (progress.next storage bucket encoded ⟨.unlink tmpPath, .ok ()⟩) after)
    (gives : ∀ e events after, post (.error e) events after) :
    staysAt storage bucket encoded stage (.call (.unlink tmpPath) fun _ => .fail e) post events mid := by
  refine ⟨stage_at same here, fun answer after step => ⟨stage_at (headway_after same _) ?_, gives _ _ _⟩⟩
  obtain ⟨content, staged⟩ := staging.staged
  have unlinked := FS.unlink_file (staged_locate staged located) (staged_file staged)
  rcases faulty_step step with ⟨choice, performed⟩ | ⟨⟨errno, failing⟩, rfl⟩
  · simp only [Call.perform, unlinked, Option.some.injEq, Prod.mk.injEq] at performed
    obtain ⟨rfl, rfl⟩ := performed
    exact removed _ (staged_drop staged)
  · cases failing
    exact here

/-- A file is filled under a temporary name and gets its final name; wherever that stops, the
temporary file is there, or it is gone again, or it is in place. -/
theorem stays_install {dir target : PathBuf} {place : Path} {landing : Except Errno Path}
    {fill : Handle → Op Value} {post : Except StorageError Value → List Answered → FS → Prop}
    (careful : ∀ file, Careful file (fill file))
    (located : ∀ name, isTempName name = true → s.locate (dir.join name) = .ok (name :: place))
    (lands : Lands s target landing)
    (idle : ∀ after, Becomes s s.look after → stage progress after)
    (filling : ∀ name file mid, isTempName name = true → TempFile s (name :: place) file mid →
      stage (progress.next storage bucket encoded ⟨.tempfileIn dir, .ok (dir.join name, file)⟩) mid)
    (undone : ∀ name (file : Handle), (progress.next storage bucket encoded
      ⟨.tempfileIn dir, .ok (dir.join name, file)⟩).next storage bucket encoded
        ⟨.unlink (dir.join name), .ok ()⟩ = progress)
    (gives : ∀ e events after, post (.error e) events after)
    (placed : ∀ name found value mid later, isTempName name = true → landing = .ok found →
      s.look (name :: place) = none → s.look found ≠ some .dir →
      Runs faultFree (fill s.nextInode) (s.newFile (name :: place)) (.ok value) mid →
      TempFile s (name :: place) s.nextInode mid →
      headwayOf storage bucket encoded later = (progress.next storage bucket encoded
        ⟨.tempfileIn dir, .ok (dir.join name, s.nextInode)⟩).next storage bucket encoded
          ⟨.rename (dir.join name) target, .ok ()⟩ →
      stage (headwayOf storage bucket encoded later) (mid.move (name :: place) found) ∧
        post (.ok value) later (mid.move (name :: place) found))
    (same : headwayOf storage bucket encoded events = progress) :
    staysAt storage bucket encoded stage (installFile dir fill target) post events s := by
  rw [install_steps]
  refine ⟨stage_at same (idle s (becomes_same s)), fun answer after step => ?_⟩
  cases answer with
  | error e =>
      have unchanged : after = s := by
        rcases faulty_step step with good | ⟨_, same⟩
        · exact failed_same (.inl good) rfl
        · exact same
      subst unchanged
      exact ⟨stage_at (headway_after same _) (idle after (becomes_same after)), gives _ _ _⟩
  | ok made =>
      have good : faultFree (.tempfileIn dir) s (.ok made) after := by
        rcases faulty_step step with good | ⟨⟨e, failing⟩, _⟩
        · exact good
        · cases failing
      rcases Posix.temp_made good with ⟨_, _, refused, _⟩ | ⟨name, own, temp, there, absent, named, rfl⟩
      · cases refused
      obtain rfl := Except.ok.inj named
      obtain rfl := Except.ok.inj ((located name temp).symm.trans there)
      have staging : TempFile s (name :: place) s.nextInode (s.newFile (name :: place)) :=
        temp_file_new (FS.look_none.mp absent)
      have open' : headwayOf storage bucket encoded
          (events ++ [⟨.tempfileIn dir, .ok (dir.join name, s.nextInode)⟩]) =
            progress.next storage bucket encoded ⟨.tempfileIn dir, .ok (dir.join name, s.nextInode)⟩ :=
        headway_after same _
      apply throughout_bind
      apply throughout_attempt
      apply throughout_mono (stays_careful (careful s.nextInode) open'
        (fun mid staging => filling name s.nextInode mid temp staging) staging)
      rintro outcome later mid _ ⟨stay, still, runs⟩
      have here := filling name s.nextInode mid temp still
      -- Removing the file brings the tree back.
      have removed : ∀ after, Becomes s s.look after → stage ((progress.next storage bucket encoded
          ⟨.tempfileIn dir, .ok (dir.join name, s.nextInode)⟩).next storage bucket encoded
            ⟨.unlink (dir.join name), .ok ()⟩) after := by
        intro after back
        rw [undone name s.nextInode]
        exact idle after back
      obtain ⟨content, staged⟩ := still.staged
      have source := staged_locate staged there
      have arrival := lands mid (staged_kept staged) staged.becomes.limit
      cases outcome with
      | error e => exact stays_removed there still stay here removed gives
      | ok value =>
          refine ⟨stage_at stay here, fun renamed after step => ?_⟩
          cases renamed with
          | error e =>
              have unchanged : after = mid := by
                rcases faulty_step step with good | ⟨_, same⟩
                · exact failed_same (.inl good) rfl
                · exact same
              subst unchanged
              exact stays_removed there still (headway_after stay _) here removed gives
          | ok done =>
              have moved : mid.rename (dir.join name) target = (.ok done, after) := by
                rcases faulty_step step with ⟨choice, performed⟩ | ⟨⟨e, failing⟩, _⟩
                · exact Option.some.inj performed
                · cases failing
              cases landing with
              | error e =>
                  rw [FS.rename_lost source arrival] at moved
                  cases moved
              | ok found =>
                  by_cases directory : s.look found = some .dir
                  · rw [FS.rename_onto_dir source arrival (staged_file staged)
                      (staged_kept staged found directory)] at moved
                    cases moved
                  · have free : mid.look found ≠ some .dir := by
                      by_cases own : found = name :: place
                      · subst own
                        simp [staged_file staged]
                      · rw [staged.becomes.look, Function.update_of_ne own]
                        exact directory
                    rw [FS.rename_file source arrival (staged_file staged) free] at moved
                    cases moved
                    exact placed name found value mid _ temp rfl absent directory (runs value rfl) still
                      (headway_after stay _)

/-! ### Directories -/

/-- The directory of a path and all the directories that it is in are there. -/
def Grounded (t : FS) (path : PathBuf) : Prop :=
  ∀ height, ∃ found, t.locate (PathBuf.parent^[height] path) = .ok found ∧ t.look found = some .dir

theorem grounded_parent {path : PathBuf} (grounded : Grounded t path) : Grounded t path.parent :=
  fun height => grounded (height + 1)

theorem grounded_above {path : PathBuf} {found : Path} (located : t.locate path = .ok found)
    (inside : t.look found = some .dir) (above : Grounded t path.parent) : Grounded t path := by
  intro height
  cases height with
  | zero => exact ⟨found, located, inside⟩
  | succ height => exact above height

theorem grounded_base (tree : t.Tree) {base : Path} (inside : t.look base = some .dir) :
    Grounded t ⟨base, []⟩ := by
  intro height
  induction height generalizing base with
  | zero => exact ⟨base, rfl, inside⟩
  | succ height ih =>
      have upper : t.look base.tail = some .dir := by
        cases base with
        | nil => exact inside
        | cons part upper => exact tree (part :: upper) (List.cons_ne_nil _ _) (by simp [inside])
      exact ih upper

/-- Making a directory that is there changes nothing. -/
theorem faulty_mkdir {path : PathBuf} {found : Path} {answer : Except Errno Unit} {after : FS}
    (located : t.locate path = .ok found) (inside : t.look found = some .dir)
    (step : faulty (.mkdir path) t answer after) : after = t := by
  rcases faulty_step step with ⟨choice, performed⟩ | ⟨_, same⟩
  · have present : t.look found ≠ none := by simp [inside]
    simp only [Call.perform, FS.mkdir_present located present, Option.some.injEq, Prod.mk.injEq] at performed
    exact performed.2.symm
  · exact same

theorem stays_createDirUpTo (height : Nat) {path : PathBuf} (grounded : Grounded t path)
    (same : headwayOf storage bucket encoded events = progress) (here : stage progress t) :
    staysAt storage bucket encoded stage (createDirUpTo height path)
      (fun _ later after => headwayOf storage bucket encoded later = progress ∧ after = t) events t := by
  refine createDirUpTo_rule (fun path program => Grounded t path → ∀ events,
    headwayOf storage bucket encoded events = progress →
    staysAt storage bucket encoded stage program
      (fun _ later after => headwayOf storage bucket encoded later = progress ∧ after = t) events t)
    ?_ ?_ ?_ ?_ ?_ height path grounded events same
  · exact fun _ _ _ stay => ⟨stage_at stay here, stay, rfl⟩
  · exact fun _ _ _ _ stay => ⟨stage_at stay here, stay, rfl⟩
  · intro path next goes grounded events same
    obtain ⟨found, located, inside⟩ := grounded 0
    refine ⟨stage_at same here, fun answer after step => ?_⟩
    obtain rfl := faulty_mkdir located inside step
    exact goes answer grounded _ (headway_after same (⟨.mkdir path, answer⟩ : Answered))
  · intro path next goes grounded events same
    apply stays_quiet rfl same here
    intro answer last stay _
    exact goes answer grounded last stay
  · intro path parents rest climbs goes grounded events same
    apply throughout_bind
    apply throughout_mono (climbs (grounded_parent grounded) events same)
    rintro outcome later after _ ⟨stay, rfl⟩
    cases outcome with
    | error e => exact ⟨stay, rfl⟩
    | ok made => exact goes grounded later stay

/-! ### Removing a tree -/

theorem unlink_leaf {path : PathBuf} {after : FS} {answer : Except Errno Unit} (tree : t.Tree)
    (step : faulty (.unlink path) t answer after) :
    after = t ∨ ∃ found, t.locate path = .ok found ∧ (∀ name, t.look (name :: found) = none) ∧
      after = t.drop found := by
  rcases faulty_step step with ⟨choice, performed⟩ | ⟨_, same⟩
  · simp only [Call.perform, Option.some.injEq] at performed
    have unlinked : (t.unlink path).2 = after := by rw [performed]
    unfold FS.unlink at unlinked
    cases located : t.locateFile path with
    | error e =>
        rw [located] at unlinked
        exact .inl unlinked.symm
    | ok file =>
        obtain ⟨found, inode⟩ := file
        rw [located] at unlinked
        obtain ⟨place, named⟩ := FS.locateFile_found located
        exact .inr ⟨found, place, FS.tree_childless tree (FS.look_file.mpr ⟨inode, named, rfl⟩), unlinked.symm⟩
  · exact .inl same

theorem rmdir_leaf {path : PathBuf} {after : FS} {answer : Except Errno Unit}
    (step : faulty (.rmdir path) t answer after) :
    after = t ∨ ∃ found, t.locate path = .ok found ∧ (∀ name, t.look (name :: found) = none) ∧
      after = t.drop found := by
  rcases faulty_step step with ⟨choice, performed⟩ | ⟨_, same⟩
  · simp only [Call.perform, Option.some.injEq] at performed
    rcases rmdir_cases t path with ⟨found, located, _, empty, removed⟩ | ⟨e, kept⟩
    · rw [removed] at performed
      cases performed
      exact .inr ⟨found, located, empty, rfl⟩
    · rw [kept] at performed
      cases performed
      exact .inl rfl
  · exact .inl same

section Removing
variable {top : Path} (settled : progress.leftover = [])
  (tree : ∀ t, stage progress t → t.Tree)
  (stable : ∀ t found, stage progress t → top <:+ found → (∀ name, t.look (name :: found) = none) →
    stage progress (t.drop found))

include settled in
/-- Nothing is left over, so nothing is removed from that. -/
theorem settled_unlink (path : PathBuf) (answer : Except Errno Unit) :
    progress.next storage bucket encoded ⟨.unlink path, answer⟩ = progress := by
  cases answer with
  | error e => rfl
  | ok done =>
      simp only [Headway.next, settled, List.erase_nil]
      rw [← settled]

/-- An entry that is gone already does not end a removal. -/
theorem stays_gone {rest : IoOp Unit} {ends : Except Errno Unit → List Answered → FS → Prop}
    (goes : staysAt storage bucket encoded stage rest ends events t)
    (fails : ∀ e, staysAt storage bucket encoded stage (throw e : IoOp Unit) ends events t)
    (answer : Except Errno Unit) :
    staysAt storage bucket encoded stage (match answer with
      | .ok () => rest
      | .error .ENOENT => rest
      | .error e => throw e) ends events t := by
  cases answer with
  | ok done => exact goes
  | error e =>
      cases e with
      | ENOENT => exact goes
      | _ => exact fails _

include settled tree stable in
theorem stays_removeFound {entries : List (Path × Bool)} (below : ∀ entry ∈ entries, top <:+ entry.1)
    (same : headwayOf storage bucket encoded events = progress) (here : stage progress t) :
    staysAt storage bucket encoded stage (removeFound entries)
      (fun _ later after => headwayOf storage bucket encoded later = progress ∧ stage progress after)
      events t := by
  induction entries generalizing events t with
  | nil => exact ⟨stage_at same here, same, here⟩
  | cons entry rest ih =>
      obtain ⟨path, isDir⟩ := entry
      have own := below _ List.mem_cons_self
      have others := fun entry member => below entry (List.mem_cons_of_mem _ member)
      have dropped : ∀ after, (after = t ∨ ∃ found, t.locate ⟨path, []⟩ = .ok found ∧
          (∀ name, t.look (name :: found) = none) ∧ after = t.drop found) → stage progress after := by
        rintro after (rfl | ⟨found, located, empty, rfl⟩)
        · exact here
        · obtain rfl : path = found := Except.ok.inj located
          exact stable t path here own empty
      cases isDir with
      | true =>
          refine ⟨stage_at same here, fun answer after step => ?_⟩
          have stay := headway_after same (⟨.rmdir ⟨path, []⟩, answer⟩ : Answered)
          have still := dropped after (rmdir_leaf step)
          exact stays_gone (ih others stay still) (fun _ => ⟨stage_at stay still, stay, still⟩) answer
      | false =>
          refine ⟨stage_at same here, fun answer after step => ?_⟩
          have stay := (headway_after same (⟨.unlink ⟨path, []⟩, answer⟩ : Answered)).trans
            (settled_unlink settled _ answer)
          have still := dropped after (unlink_leaf (tree t here) step)
          exact stays_gone (ih others stay still) (fun _ => ⟨stage_at stay still, stay, still⟩) answer

include settled tree stable in
/-- Removing a tree takes away what is in it and nothing else. -/
theorem stays_removeDirAll {path : PathBuf} (leads : ∀ (t : FS) found, t.locate path = .ok found → found = top)
    (same : headwayOf storage bucket encoded events = progress) (here : stage progress t) :
    staysAt storage bucket encoded stage (removeDirAll path)
      (fun _ later after => headwayOf storage bucket encoded later = progress ∧ stage progress after)
      events t := by
  apply stays_quiet rfl same here
  intro answer later stay step
  cases answer with
  | error e => exact ⟨stage_at stay here, stay, here⟩
  | ok entries =>
      have below : ∀ entry ∈ entries, top <:+ entry.1 := by
        rcases faulty_step step with good | ⟨⟨e, failing⟩, _⟩
        · rcases (tree_read good).2 with ⟨_, refused⟩ | ⟨dir, listed, located, answered, inside⟩
          · cases refused
          · obtain rfl := Except.ok.inj answered
            obtain rfl := leads t dir located
            exact inside
        · cases failing
      show throughout _ _ (removeFound entries >>= _) _ _ _
      apply throughout_bind
      apply throughout_mono (stays_removeFound settled tree stable below stay here)
      rintro outcome last after _ ⟨stay, still⟩
      cases outcome with
      | error e => exact ⟨stay, still⟩
      | ok done =>
          refine ⟨stage_at stay still, fun answer final step => ?_⟩
          have stay := headway_after stay (⟨.rmdir path, answer⟩ : Answered)
          have still : stage progress final := by
            rcases rmdir_leaf step with rfl | ⟨found, located, empty, rfl⟩
            · exact still
            · obtain rfl := leads after found located
              exact stable after found still (List.suffix_refl found) empty
          cases answer with
          | ok done => exact ⟨stage_at stay still, stay, still⟩
          | error e => cases e <;> exact ⟨stage_at stay still, stay, still⟩

end Removing
/-! ### Contents -/

/-- Reading a record gives the record or an error. -/
theorem stays_readJson {Record : Type} {codec : Codec Record} {missing : Str → StorageError} {path : PathBuf}
    {value : Record} (held : fileContents t path = .ok (codec.encode value))
    (same : headwayOf storage bucket encoded events = progress) (here : stage progress t) :
    staysAt storage bucket encoded stage (readJson codec missing path) (fun outcome later after =>
      headwayOf storage bucket encoded later = progress ∧ after = t ∧
        ∀ found, outcome = .ok found → found = value) events t := by
  unfold readJson
  apply throughout_bind
  apply throughout_attempt
  have read : staysAt storage bucket encoded stage (readFile path) (fun outcome later after =>
      headwayOf storage bucket encoded later = progress ∧ after = t ∧
        ∀ content, outcome = .ok content → content = codec.encode value) events t := by
    unfold readFile
    apply stays_quiet rfl same here
    intro opened later stay step
    cases opened with
    | error e => exact ⟨stage_at stay here, stay, rfl, by rintro _ ⟨⟩⟩
    | ok handle =>
        apply stays_quiet rfl stay here
        intro answer last stay reads
        cases answer with
        | error e => exact ⟨stage_at stay here, stay, rfl, by rintro _ ⟨⟩⟩
        | ok content =>
            refine ⟨stage_at stay here, stay, rfl, ?_⟩
            rintro _ ⟨⟩
            -- Neither call has failed.
            have found : t.open path = .ok handle := by
              rcases faulty_step step with ⟨choice, performed⟩ | ⟨⟨e, failing⟩, _⟩
              · simp only [Call.perform, Option.some.injEq, Prod.mk.injEq] at performed
                exact performed.1
              · cases failing
            have data : t.data handle = content := by
              rcases faulty_step reads with ⟨choice, performed⟩ | ⟨⟨e, failing⟩, _⟩
              · simp only [Call.perform, Option.some.injEq, Prod.mk.injEq, Except.ok.injEq] at performed
                exact performed.1
              · cases failing
            rw [fileContents, found] at held
            exact data.symm.trans (Except.ok.inj held)
  apply throughout_mono read
  rintro outcome later after _ ⟨stay, rfl, whole⟩
  cases outcome with
  | error e => cases e <;> exact ⟨stage_at stay here, stay, rfl, by rintro _ ⟨⟩⟩
  | ok content =>
      obtain rfl := whole content rfl
      simp only [Codec.decode_encode]
      refine ⟨stage_at stay here, stay, rfl, ?_⟩
      rintro found ⟨⟩
      rfl

theorem json_careful {Record : Type} (codec : Codec Record) (value : Record) (file : Handle) :
    Careful file (do
      io (← Sys.write file (codec.encode value))
      io (← Sys.flush file) : Op Unit) := by
  refine ⟨rfl, fun written => ?_⟩
  cases written with
  | error e => exact ⟨trivial, fun _ => ⟨_, rfl⟩⟩
  | ok _ =>
      refine ⟨⟨trivial, fun flushed => ?_⟩, fun broke => nomatch broke⟩
      cases flushed with
      | error e => exact ⟨trivial, fun _ => ⟨_, rfl⟩⟩
      | ok _ => exact ⟨trivial, fun broke => nomatch broke⟩

/-- What a record that was written without a fault is. -/
theorem json_filled {Record : Type} {codec : Codec Record} {value : Record} {p : Path} {mid : FS}
    {outcome : Except StorageError Unit} (absent : s.look p = none)
    (run : Runs faultFree (do
      io (← Sys.write s.nextInode (codec.encode value))
      io (← Sys.flush s.nextInode) : Op Unit) (s.newFile p) outcome mid) :
    Staged s p (codec.encode value) mid := by
  have written : wp faultFree (do
      io (← Sys.write s.nextInode (codec.encode value))
      io (← Sys.flush s.nextInode) : Op Unit)
      (fun _ after => Staged s p (codec.encode value) after) (s.newFile p) := by
    simp only [Prog.send_bind, wp_write, io, Prog.done_bind, wp_flush, wp_done]
    have staged := staged_write (codec.encode value) (staged_newFile absent)
      (by simp : (s.newFile p).node p = some (.file s.nextInode))
    rwa [List.nil_append] at staged
  exact wp_runs written run

end Helpers
end Ferrobucket
