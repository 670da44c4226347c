import Ferrobucket.Lib.Ownership
import Ferrobucket.Lib.Trace
/-! Programs of threads that share a file system, kept one call at a time. What is to
be shown is stated about the stages that the threads are in, what has happened and the
files that have a name of their own; each rule leaves only what its call does to those. -/
namespace Posix
open Text Program

/-- The stage that a thread is in and what it holds. -/
structure Ghost (Stage : Type) where
  stage : Stage
  held : Held

section Sharing
variable {Thread Stage : Type} [DecidableEq Thread] {terms : Terms}
  {Extra : (Thread → Stage) → List (Event Thread Reply) → FS → Prop}

/-- What does not depend on temporary files, nor on what happens to them. -/
structure Robust (terms : Terms)
    (Extra : (Thread → Stage) → List (Event Thread Reply) → FS → Prop) : Prop where
  hidden : ∀ stages past (s after : FS),
    (∀ path, ¬ IsTemp terms.staging path → after.look path = s.look path) →
    Extra stages past s → Extra stages past after
  carries : ∀ stages past event s, Silent event → Extra stages past s → Extra stages (past ++ [event]) s

/-- All threads keep out of each other's files, and what is to be shown holds. -/
structure Sharing (terms : Terms) (Extra : (Thread → Stage) → List (Event Thread Reply) → FS → Prop)
    (ghosts : Thread → Ghost Stage) (past : List (Event Thread Reply)) (s : FS) : Prop where
  apart : Apart terms (fun thread => (ghosts thread).held) s
  extra : Extra (fun thread => (ghosts thread).stage) past s

/-- The stages of all threads when one of them is in this stage. -/
abbrev stagesWith (world : (Thread → Ghost Stage) × List (Event Thread Reply)) (thread : Thread)
    (stage : Stage) : Thread → Stage :=
  Function.update (fun other => (world.1 other).stage) thread stage

/-- The same, seen by one thread among the others. -/
structure Here (terms : Terms) (Extra : (Thread → Stage) → List (Event Thread Reply) → FS → Prop)
    (thread : Thread) (world : (Thread → Ghost Stage) × List (Event Thread Reply))
    (ghost : Ghost Stage) (s : FS) : Prop where
  apart : Apart terms (Function.update (fun other => (world.1 other).held) thread ghost.held) s
  extra : Extra (stagesWith world thread ghost.stage) world.2 s

theorem among_here (thread : Thread) :
    among (Sharing terms Extra) thread = Here terms Extra thread := by
  funext world ghost s
  have held : (fun other => (Function.update world.1 thread ghost other).held) =
      Function.update (fun other => (world.1 other).held) thread ghost.held := by
    funext other
    by_cases same : other = thread
    · subst same
      simp
    · simp [same]
  have stage : (fun other => (Function.update world.1 thread ghost other).stage) =
      stagesWith world thread ghost.stage := by
    funext other
    by_cases same : other = thread
    · subst same
      simp [stagesWith]
    · simp [stagesWith, same]
  apply propext
  constructor
  · rintro ⟨apart, extra⟩
    exact ⟨held ▸ apart, stage ▸ extra⟩
  · rintro ⟨apart, extra⟩
    exact ⟨held ▸ apart, stage ▸ extra⟩

variable (terms) (Extra) in
/-- A program of one thread kept from one ghost. -/
abbrev Keeps {Error Value : Type} (thread : Thread) (program : Prog Call Reply Error Value)
    (post : Ghost Stage → Except Error Value → Prop) (ghost : Ghost Stage) : Prop :=
  tracks faultFree (recorded thread) (Here terms Extra thread) program post ghost

/-- Threads that are kept one by one run together. -/
theorem pool_keeps {Error Value : Type} {post : Thread → Ghost Stage → Except Error Value → Prop}
    {pool last : Thread → Prog Call Reply Error Value} {ghosts : Thread → Ghost Stage}
    {past events : List (Event Thread Reply)} {s t : FS}
    (kept : ∀ thread, Keeps terms Extra thread (pool thread) (post thread) (ghosts thread))
    (start : Sharing terms Extra ghosts past s)
    (run : Interleaves (fun _ => faultFree) pool s events last t) :
    ∃ ghosts', Sharing terms Extra ghosts' (past ++ events) t ∧
      ∀ thread, Keeps terms Extra thread (last thread) (post thread) (ghosts' thread) := by
  have tracked : ∀ thread, tracks faultFree (recorded thread)
      (among (Sharing terms Extra) thread) (pool thread) (post thread) (ghosts thread) := by
    intro thread
    rw [among_here]
    exact kept thread
  obtain ⟨ghosts', final, still⟩ := pool_tracks tracked start run
  refine ⟨ghosts', final, fun thread => ?_⟩
  have here := still thread
  rwa [among_here] at here

/-! ### One call at a time -/

section Rules
variable {thread : Thread} {stage : Stage} {held : Held} {Error Value : Type}
  {post : Ghost Stage → Except Error Value → Prop}

/-- A call that only looks, with what it can see. -/
theorem keeps_look {call : Call} {next : Reply call → Prog Call Reply Error Value}
    (robust : Robust terms Extra) (quiet : call.quiet = true)
    (all : ∀ world s reply, Here terms Extra thread world ⟨stage, held⟩ s →
      faultFree call s reply s → Keeps terms Extra thread (next reply) post ⟨stage, held⟩) :
    Keeps terms Extra thread (.call call next) post ⟨stage, held⟩ := by
  intro world s reply after here step
  obtain rfl := quiet_same quiet step
  exact ⟨⟨stage, held⟩, ⟨here.apart, robust.carries _ _ _ _ (silent_quiet quiet) here.extra⟩,
    all world _ reply here step⟩

/-- What a thread holds is no matter for a call that only looks. -/
theorem here_released {world : (Thread → Ghost Stage) × List (Event Thread Reply)} {s : FS}
    (here : Here terms Extra thread world ⟨stage, held⟩ s) (released : ∀ path, ¬ held.At path) :
    Here terms Extra thread world ⟨stage, .nothing⟩ s :=
  ⟨apart_close here.apart released, here.extra⟩

/-- The directory is there, so a name in it is located. -/
theorem here_locate {world : (Thread → Ghost Stage) × List (Event Thread Reply)} {s : FS}
    {ghost : Ghost Stage} {path : PathBuf} {dir : Path} {name : Str}
    (here : Here terms Extra thread world ghost s) (reaches : Reaches terms.nameMax path dir)
    (inside : s.look dir = some .dir) (good : isName name = true)
    (short : exceeds terms.nameMax name = false) : s.locate (path.join name) = .ok (name :: dir) := by
  apply FS.locate_name (reaches.there s here.apart.tree here.apart.limit inside) inside good
  rw [FS.tooLong, here.apart.limit]
  exact short

/-- A temporary file is made, if its directory is there. -/
theorem keeps_tempfile {path : PathBuf} {dir : Path}
    {next : Except Errno (PathBuf × Handle) → Prog Call Reply Error Value} (robust : Robust terms Extra)
    (reaches : Reaches terms.nameMax path dir) (staging : terms.staging dir)
    (made : ∀ file : Temp, file.place.tail = dir → Keeps terms Extra thread
      (next (.ok (file.name, file.inode))) post ⟨stage, .writing file []⟩)
    (lost : ∀ world s name e, Here terms Extra thread world ⟨stage, .nothing⟩ s →
      s.look dir ≠ some .dir → isTempName name = true → s.locate (path.join name) = .error e →
      Keeps terms Extra thread (next (.error e)) post ⟨stage, .nothing⟩) :
    Keeps terms Extra thread (.call (.tempfileIn path) next) post ⟨stage, .nothing⟩ := by
  intro world s reply after here step
  have silent : Silent (⟨thread, .tempfileIn path, reply⟩ : Event Thread Reply) :=
    fun _ touched => absurd rfl touched
  have carried := robust.carries _ _ _ _ silent here.extra
  rcases temp_made step with ⟨e, name, rfl, rfl, temp, failed⟩ | ⟨name, place, temp, located, absent, rfl, rfl⟩
  · refine ⟨⟨stage, .nothing⟩, ⟨here.apart, carried⟩, lost world _ name e here ?_ temp failed⟩
    -- In a directory that is there the name could be resolved.
    intro inside
    rw [here_locate here reaches inside (temp_is_name temp) (terms.short name temp)] at failed
    cases failed
  · obtain ⟨rfl, inside, _⟩ := located_in reaches (temp_is_name temp) located
    refine ⟨⟨stage, .writing ⟨path.join name, name :: dir, s.nextInode⟩ []⟩,
      ⟨apart_stage here.apart reaches temp staging inside absent, ?_⟩,
      made ⟨path.join name, name :: dir, s.nextInode⟩ rfl⟩
    apply robust.hidden _ _ s _ _ carried
    intro other lasting
    have different : other ≠ name :: dir := by
      rintro rfl
      exact lasting ⟨name, dir, rfl, temp, staging⟩
    rw [FS.look_newFile, Function.update_of_ne different]

theorem keeps_write {file : Temp} {content chunk : Bytes}
    {next : Except Errno Unit → Prog Call Reply Error Value} (robust : Robust terms Extra)
    (rest : Keeps terms Extra thread (next (.ok ())) post ⟨stage, .writing file (content ++ chunk)⟩) :
    Keeps terms Extra thread (.call (.write file.inode chunk) next) post
      ⟨stage, .writing file content⟩ := by
  apply tracks_exec
  intro world s here
  obtain ⟨_, _, named, _⟩ := own_sound here.apart
  have temp := own_temp here.apart
  refine ⟨.ok (), _, fun _ => rfl, ⟨stage, .writing file (content ++ chunk)⟩,
    ⟨apart_write here.apart chunk, ?_⟩, rest⟩
  apply robust.hidden _ _ s _ _
    (robust.carries _ _ _ _ (fun _ touched => absurd rfl touched) here.extra)
  intro other lasting
  have different : other ≠ file.place := by
    rintro rfl
    exact lasting temp
  rw [FS.write, FS.look_setData s named, Function.update_of_ne different]

/-- Why a path cannot be renamed to. -/
def Refuses (s : FS) (target : PathBuf) (e : Errno) : Prop :=
  s.locate target = .error e ∨
    e = .EISDIR ∧ ∃ place, s.locate target = .ok place ∧ s.look place = some .dir

/-- The temporary file gets its final name. -/
theorem keeps_rename {file : Temp} {content : Bytes} {target : PathBuf}
    {next : Except Errno Unit → Prog Call Reply Error Value} (robust : Robust terms Extra)
    (renamed : ∀ world s place, Here terms Extra thread world ⟨stage, .writing file content⟩ s →
      s.locate target = .ok place → s.look place ≠ some .dir →
      ∃ stage', s.look place.tail = some .dir ∧ ¬ IsTemp terms.staging place ∧ ¬ terms.rough place ∧
        Extra (stagesWith world thread stage')
          (world.2 ++ [⟨thread, .rename file.name target, .ok ()⟩]) (s.move file.place place) ∧
        Keeps terms Extra thread (next (.ok ())) post ⟨stage', .nothing⟩)
    (refused : ∀ world s e, Here terms Extra thread world ⟨stage, .writing file content⟩ s →
      Refuses s target e →
        Keeps terms Extra thread (next (.error e)) post ⟨stage, .writing file content⟩) :
    Keeps terms Extra thread (.call (.rename file.name target) next) post
      ⟨stage, .writing file content⟩ := by
  apply tracks_exec
  intro world s here
  have source := own_locate here.apart
  have written := own_look here.apart
  have stuck : ∀ e, s.rename file.name target = (.error e, s) → Refuses s target e →
      ∃ answer after, (∀ choice, Call.perform (.rename file.name target) choice s = some (answer, after)) ∧
        ∃ ghost', Here terms Extra thread (recorded thread world (.rename file.name target) answer)
            ghost' after ∧ Keeps terms Extra thread (next answer) post ghost' := by
    intro e failed why
    have silent : Silent (⟨thread, .rename file.name target, .error e⟩ : Event Thread Reply) :=
      fun _ touched => absurd rfl touched
    exact ⟨.error e, s, fun _ => congrArg some failed, ⟨stage, .writing file content⟩,
      ⟨here.apart, robust.carries _ _ _ _ silent here.extra⟩, refused world s e here why⟩
  cases arrival : s.locate target with
  | error e => exact stuck e (FS.rename_lost source arrival) (.inl arrival)
  | ok place =>
      by_cases directory : s.look place = some .dir
      · exact stuck .EISDIR (FS.rename_onto_dir source arrival written directory)
          (.inr ⟨rfl, place, arrival, directory⟩)
      · obtain ⟨stage', inside, lasting, plain, extra, rest⟩ := renamed world s place here arrival directory
        have moved := FS.rename_file source arrival written directory
        exact ⟨.ok (), _, fun _ => congrArg some moved, ⟨stage', .nothing⟩,
          ⟨apart_publish here.apart inside directory lasting plain, extra⟩, rest⟩

/-- The temporary file is given up. -/
theorem keeps_discard {file : Temp} {content : Bytes}
    {next : Except Errno Unit → Prog Call Reply Error Value} (robust : Robust terms Extra)
    (rest : Keeps terms Extra thread (next (.ok ())) post ⟨stage, .nothing⟩) :
    Keeps terms Extra thread (.call (.unlink file.name) next) post
      ⟨stage, .writing file content⟩ := by
  apply tracks_exec
  intro world s here
  have removed := FS.unlink_file (own_locate here.apart) (own_look here.apart)
  have temp := own_temp here.apart
  refine ⟨.ok (), _, fun _ => congrArg some removed, ⟨stage, .nothing⟩,
    ⟨apart_discard here.apart, ?_⟩, rest⟩
  have silent : Silent (⟨thread, .unlink file.name, .ok ()⟩ : Event Thread Reply) := by
    intro path touched
    obtain ⟨⟨dir, _, name, _, isTemp, _, named, _⟩, _⟩ := own_sound here.apart
    have same : file.name = path := by
      by_contra other
      exact touched (if_neg other)
    exact ⟨dir, name, isTemp, same.symm.trans named⟩
  apply robust.hidden _ _ s _ _ (robust.carries _ _ _ _ silent here.extra)
  intro other lasting
  have different : other ≠ file.place := by
    rintro rfl
    exact lasting temp
  rw [FS.look_drop, Function.update_of_ne different]

/-- Why there is no file at a path. -/
def NoFile (s : FS) (path : PathBuf) (e : Errno) : Prop :=
  s.locate path = .error e ∨ ∃ place, s.locate path = .ok place ∧
    (s.look place = none ∧ e = .ENOENT ∨ s.look place = some .dir ∧ e = .EISDIR)

/-- What opening a path answers. -/
theorem open_cases (s : FS) (path : PathBuf) :
    (∃ place content inode, s.locate path = .ok place ∧ s.node place = some (.file inode) ∧
      s.data inode = content ∧ s.open path = .ok inode) ∨
    ∃ e, NoFile s path e ∧ s.open path = .error e := by
  cases arrival : s.locate path with
  | error e => exact .inr ⟨e, .inl arrival, FS.open_lost arrival⟩
  | ok place =>
      cases seen : s.look place with
      | none => exact .inr ⟨.ENOENT, .inr ⟨place, arrival, .inl ⟨seen, rfl⟩⟩, FS.open_absent arrival seen⟩
      | some entry =>
          cases entry with
          | dir => exact .inr ⟨.EISDIR, .inr ⟨place, arrival, .inr ⟨seen, rfl⟩⟩, FS.open_dir arrival seen⟩
          | file content =>
              obtain ⟨inode, named, held⟩ := FS.look_file.mp seen
              exact .inl ⟨place, content, inode, rfl, named, held, FS.open_file arrival named⟩

/-- A file is opened for reading. -/
theorem keeps_open {path : PathBuf} {next : Except Errno Handle → Prog Call Reply Error Value}
    (opened : ∀ world s place content inode, Here terms Extra thread world ⟨stage, .nothing⟩ s →
      s.locate path = .ok place → s.look place = some (.file content) →
      ∃ stage', ¬ IsTemp terms.staging place ∧ ¬ terms.rough place ∧
        Extra (stagesWith world thread stage') (world.2 ++ [⟨thread, .open path, .ok inode⟩]) s ∧
        Keeps terms Extra thread (next (.ok inode)) post ⟨stage', .reading inode content⟩)
    (lost : ∀ world s e, Here terms Extra thread world ⟨stage, .nothing⟩ s → NoFile s path e →
      ∃ stage', Extra (stagesWith world thread stage') (world.2 ++ [⟨thread, .open path, .error e⟩]) s ∧
        Keeps terms Extra thread (next (.error e)) post ⟨stage', .nothing⟩) :
    Keeps terms Extra thread (.call (.open path) next) post ⟨stage, .nothing⟩ := by
  apply tracks_exec
  intro world s here
  rcases open_cases s path with ⟨place, content, inode, arrival, named, held, answered⟩ | ⟨e, why, answered⟩
  · have seen : s.look place = some (.file content) := FS.look_file.mpr ⟨inode, named, held⟩
    obtain ⟨stage', lasting, plain, extra, rest⟩ := opened world s place content inode here arrival seen
    subst held
    exact ⟨.ok inode, s, fun _ => congrArg (fun found => some (found, s)) answered,
      ⟨stage', .reading inode (s.data inode)⟩, ⟨apart_open here.apart named lasting plain, extra⟩, rest⟩
  · obtain ⟨stage', extra, rest⟩ := lost world s e here why
    exact ⟨.error e, s, fun _ => congrArg (fun found => some (found, s)) answered, ⟨stage', .nothing⟩,
      ⟨here.apart, extra⟩, rest⟩

/-- What is open keeps its content. -/
theorem keeps_read {inode : Handle} {content : Bytes}
    {next : Except Errno Bytes → Prog Call Reply Error Value} (robust : Robust terms Extra)
    (rest : Keeps terms Extra thread (next (.ok content)) post ⟨stage, .reading inode content⟩) :
    Keeps terms Extra thread (.call (.read inode) next) post ⟨stage, .reading inode content⟩ := by
  apply tracks_exec
  intro world s here
  have sound := here.apart.sound thread
  rw [Function.update_self] at sound
  refine ⟨.ok content, s, fun _ => ?_, ⟨stage, .reading inode content⟩,
    ⟨here.apart, robust.carries _ _ _ _ (silent_quiet rfl) here.extra⟩, rest⟩
  simp only [Call.perform, sound.same]

/-- A file is opened while the temporary file is written. -/
theorem keeps_copy {file : Temp} {content : Bytes} {path : PathBuf}
    {next : Except Errno Handle → Prog Call Reply Error Value} (robust : Robust terms Extra)
    (opened : ∀ world s place chunk, Here terms Extra thread world ⟨stage, .writing file content⟩ s →
      s.locate path = .ok place → s.look place = some (.file chunk) →
      ¬ IsTemp terms.staging place ∧ ¬ terms.rough place ∧ ∀ inode,
        Keeps terms Extra thread (next (.ok inode)) post ⟨stage, .copying file content inode chunk⟩)
    (lost : ∀ world s e, Here terms Extra thread world ⟨stage, .writing file content⟩ s →
      NoFile s path e → Keeps terms Extra thread (next (.error e)) post ⟨stage, .writing file content⟩) :
    Keeps terms Extra thread (.call (.open path) next) post ⟨stage, .writing file content⟩ := by
  apply tracks_exec
  intro world s here
  have carried : ∀ answer : Except Errno Handle,
      Extra (stagesWith world thread stage) (world.2 ++ [⟨thread, .open path, answer⟩]) s :=
    fun answer => robust.carries _ _ _ _ (silent_quiet rfl) here.extra
  rcases open_cases s path with ⟨place, content', inode, arrival, named, held, answered⟩ | ⟨e, why, answered⟩
  · have seen : s.look place = some (.file content') := FS.look_file.mpr ⟨inode, named, held⟩
    obtain ⟨lasting, plain, rest⟩ := opened world s place content' here arrival seen
    subst held
    exact ⟨.ok inode, s, fun _ => congrArg (fun found => some (found, s)) answered,
      ⟨stage, .copying file content inode (s.data inode)⟩,
      ⟨apart_copy here.apart named lasting plain, carried _⟩, rest inode⟩
  · exact ⟨.error e, s, fun _ => congrArg (fun found => some (found, s)) answered,
      ⟨stage, .writing file content⟩, ⟨here.apart, carried _⟩, lost world s e here why⟩

/-- What was opened is read, and closed with that. -/
theorem keeps_copied {file : Temp} {content chunk : Bytes} {inode : Handle}
    {next : Except Errno Bytes → Prog Call Reply Error Value} (robust : Robust terms Extra)
    (rest : Keeps terms Extra thread (next (.ok chunk)) post ⟨stage, .writing file content⟩) :
    Keeps terms Extra thread (.call (.read inode) next) post
      ⟨stage, .copying file content inode chunk⟩ := by
  apply tracks_exec
  intro world s here
  have sound := here.apart.sound thread
  rw [Function.update_self] at sound
  refine ⟨.ok chunk, s, fun _ => ?_, ⟨stage, .writing file content⟩,
    ⟨apart_copied here.apart, robust.carries _ _ _ _ (silent_quiet rfl) here.extra⟩, rest⟩
  simp only [Call.perform, sound.2.same]

/-- A file is closed after reading. -/
theorem keeps_close {program : Prog Call Reply Error Value} {inode : Handle} {content : Bytes}
    (rest : Keeps terms Extra thread program post ⟨stage, .nothing⟩)
    (ended : ∀ outcome, post ⟨stage, .nothing⟩ outcome → post ⟨stage, .reading inode content⟩ outcome) :
    Keeps terms Extra thread program post ⟨stage, .reading inode content⟩ := by
  cases program with
  | done value => exact ended _ rest
  | fail error => exact ended _ rest
  | call command next =>
      intro world s reply after here step
      exact rest world s reply after (here_released here fun _ => not_false) step

/-- A file that has a name of its own is unlinked. -/
theorem keeps_unlink {path : PathBuf} {next : Except Errno Unit → Prog Call Reply Error Value}
    (removed : ∀ world s place content, Here terms Extra thread world ⟨stage, .nothing⟩ s →
      s.locate path = .ok place → s.look place = some (.file content) →
      ∃ stage', ¬ IsTemp terms.staging place ∧
        Extra (stagesWith world thread stage') (world.2 ++ [⟨thread, .unlink path, .ok ()⟩])
          (s.drop place) ∧
        Keeps terms Extra thread (next (.ok ())) post ⟨stage', .nothing⟩)
    (refused : ∀ world s e, Here terms Extra thread world ⟨stage, .nothing⟩ s → NoFile s path e →
      ∃ stage', Extra (stagesWith world thread stage') (world.2 ++ [⟨thread, .unlink path, .error e⟩]) s ∧
        Keeps terms Extra thread (next (.error e)) post ⟨stage', .nothing⟩) :
    Keeps terms Extra thread (.call (.unlink path) next) post ⟨stage, .nothing⟩ := by
  apply tracks_exec
  intro world s here
  have failed : ∀ e, s.unlink path = (.error e, s) → NoFile s path e →
      ∃ answer after, (∀ choice, Call.perform (.unlink path) choice s = some (answer, after)) ∧
        ∃ ghost', Here terms Extra thread (recorded thread world (.unlink path) answer) ghost' after ∧
          Keeps terms Extra thread (next answer) post ghost' := by
    intro e answered why
    obtain ⟨stage', extra, rest⟩ := refused world s e here why
    exact ⟨.error e, s, fun _ => congrArg some answered, ⟨stage', .nothing⟩, ⟨here.apart, extra⟩, rest⟩
  cases arrival : s.locate path with
  | error e => exact failed e (FS.unlink_lost arrival) (.inl arrival)
  | ok place =>
      cases seen : s.look place with
      | none => exact failed .ENOENT (FS.unlink_absent arrival seen) (.inr ⟨place, arrival, .inl ⟨seen, rfl⟩⟩)
      | some entry =>
          cases entry with
          | dir => exact failed .EISDIR (FS.unlink_dir arrival seen) (.inr ⟨place, arrival, .inr ⟨seen, rfl⟩⟩)
          | file content =>
              obtain ⟨stage', lasting, extra, rest⟩ := removed world s place content here arrival seen
              have answered := FS.unlink_file arrival seen
              exact ⟨.ok (), _, fun _ => congrArg some answered, ⟨stage', .nothing⟩,
                ⟨apart_drop here.apart (FS.tree_childless here.apart.tree seen) lasting, extra⟩, rest⟩

/-- A directory is made where there was nothing, or nothing happens. -/
theorem keeps_mkdir {path : PathBuf} {next : Except Errno Unit → Prog Call Reply Error Value}
    (robust : Robust terms Extra)
    (made : ∀ world s found, Here terms Extra thread world ⟨stage, .nothing⟩ s →
      s.locate path = .ok found → s.look found = none → s.look found.tail = some .dir →
      ¬ IsTemp terms.staging found ∧
        Extra (stagesWith world thread stage) (world.2 ++ [⟨thread, .mkdir path, .ok ()⟩])
          (s.mkdirAt found) ∧
        Keeps terms Extra thread (next (.ok ())) post ⟨stage, .nothing⟩)
    (refused : ∀ e, Keeps terms Extra thread (next (.error e)) post ⟨stage, .nothing⟩) :
    Keeps terms Extra thread (.call (.mkdir path) next) post ⟨stage, .nothing⟩ := by
  apply tracks_exec
  intro world s here
  have failed : ∀ e, s.mkdir path = (.error e, s) →
      ∃ answer after, (∀ choice, Call.perform (.mkdir path) choice s = some (answer, after)) ∧
        ∃ ghost', Here terms Extra thread (recorded thread world (.mkdir path) answer) ghost' after ∧
          Keeps terms Extra thread (next answer) post ghost' := by
    intro e answered
    have carried := robust.carries _ _ (⟨thread, .mkdir path, .error e⟩ : Event Thread Reply) _
      (fun _ touched => absurd rfl touched) here.extra
    exact ⟨.error e, s, fun _ => congrArg some answered, ⟨stage, .nothing⟩, ⟨here.apart, carried⟩,
      refused e⟩
  cases arrival : s.locate path with
  | error e => exact failed e (FS.mkdir_lost arrival)
  | ok found =>
      by_cases present : s.look found = none
      · by_cases inside : s.look found.tail = some .dir
        · obtain ⟨lasting, extra, rest⟩ := made world s found here arrival present inside
          exact ⟨.ok (), _, fun _ => congrArg some (FS.mkdir_new arrival present inside),
            ⟨stage, .nothing⟩, ⟨apart_mkdir here.apart present inside lasting, extra⟩, rest⟩
        · obtain ⟨e, answered⟩ := FS.mkdir_orphan arrival present inside
          exact failed e answered
      · exact failed .EEXIST (FS.mkdir_present arrival present)

/-- An empty directory is removed, or nothing happens. -/
theorem keeps_rmdir {path : PathBuf} {next : Except Errno Unit → Prog Call Reply Error Value}
    (robust : Robust terms Extra)
    (removed : ∀ world s found, Here terms Extra thread world ⟨stage, .nothing⟩ s →
      s.locate path = .ok found → s.look found = some .dir → (∀ name, s.look (name :: found) = none) →
      ¬ IsTemp terms.staging found ∧
        Extra (stagesWith world thread stage) (world.2 ++ [⟨thread, .rmdir path, .ok ()⟩]) (s.drop found) ∧
        Keeps terms Extra thread (next (.ok ())) post ⟨stage, .nothing⟩)
    (refused : ∀ e, Keeps terms Extra thread (next (.error e)) post ⟨stage, .nothing⟩) :
    Keeps terms Extra thread (.call (.rmdir path) next) post ⟨stage, .nothing⟩ := by
  apply tracks_exec
  intro world s here
  rcases rmdir_cases s path with ⟨found, located, inside, empty, answered⟩ | ⟨e, answered⟩
  · obtain ⟨lasting, extra, rest⟩ := removed world s found here located inside empty
    exact ⟨.ok (), _, fun _ => congrArg some answered, ⟨stage, .nothing⟩,
      ⟨apart_drop here.apart empty lasting, extra⟩, rest⟩
  · have carried := robust.carries _ _ (⟨thread, .rmdir path, .error e⟩ : Event Thread Reply) _
      (fun _ touched => absurd rfl touched) here.extra
    exact ⟨.error e, s, fun _ => congrArg some answered, ⟨stage, .nothing⟩, ⟨here.apart, carried⟩,
      refused e⟩

/-! ### Rough files -/

/-- What does not depend on the rough files. -/
def Blind (terms : Terms) (Extra : (Thread → Stage) → List (Event Thread Reply) → FS → Prop) : Prop :=
  ∀ stages past (s after : FS), (∀ path, ¬ terms.rough path → after.look path = s.look path) →
    Extra stages past s → Extra stages past after

/-- A rough file is made or emptied. -/
theorem keeps_creat {path : PathBuf} {next : Except Errno Handle → Prog Call Reply Error Value}
    (robust : Robust terms Extra) (blind : Blind terms Extra)
    (coarse : ∀ (s : FS) found, s.locate path = .ok found → terms.rough found ∧ found ≠ [])
    (opened : ∀ inode, Keeps terms Extra thread (next (.ok inode)) post ⟨stage, .jotting inode⟩)
    (refused : ∀ e, Keeps terms Extra thread (next (.error e)) post ⟨stage, .nothing⟩) :
    Keeps terms Extra thread (.call (.creat path) next) post ⟨stage, .nothing⟩ := by
  apply tracks_exec
  intro world s here
  have carried : ∀ answer : Except Errno Handle,
      Extra (stagesWith world thread stage) (world.2 ++ [⟨thread, .creat path, answer⟩]) s := by
    intro answer
    exact robust.carries _ _ _ _ (fun _ touched => absurd rfl touched) here.extra
  rcases creat_cases s path with ⟨found, inode, located, named, answered⟩ |
    ⟨found, located, absent, inside, answered⟩ | ⟨e, answered⟩
  · obtain ⟨rough, _⟩ := coarse s found located
    have only : ∀ other, s.node other = some (.file inode) → terms.rough other := by
      intro other also
      rwa [s.unlinked other found inode also named]
    have untrusted : ∀ other, other ≠ thread → ¬ (world.1 other).held.Trusts inode := by
      intro other different trusted
      have sound := here.apart.sound other
      rw [Function.update_of_ne different] at sound
      exact rough_untrusted sound named rough trusted
    refine ⟨.ok inode, _, fun _ => congrArg some answered, ⟨stage, .jotting inode⟩,
      ⟨apart_jot [] here.apart (fun _ => not_false) (s.fresh _ _ named) only untrusted, ?_⟩, opened inode⟩
    apply blind _ _ s _ _ (carried _)
    intro other smooth
    have different : other ≠ found := by
      rintro rfl
      exact smooth rough
    rw [FS.look_setData s named, Function.update_of_ne different]
  · obtain ⟨rough, below⟩ := coarse s found located
    refine ⟨.ok s.nextInode, _, fun _ => congrArg some answered, ⟨stage, .jotting s.nextInode⟩,
      ⟨apart_create here.apart rough absent inside below, ?_⟩, opened _⟩
    apply blind _ _ s _ _ (carried _)
    intro other smooth
    have different : other ≠ found := by
      rintro rfl
      exact smooth rough
    rw [FS.look_newFile, Function.update_of_ne different]
  · exact ⟨.error e, s, fun _ => congrArg some answered, ⟨stage, .nothing⟩, ⟨here.apart, carried _⟩,
      refused e⟩

theorem keeps_jot {inode : Handle} {chunk : Bytes}
    {next : Except Errno Unit → Prog Call Reply Error Value} (robust : Robust terms Extra)
    (blind : Blind terms Extra)
    (rest : Keeps terms Extra thread (next (.ok ())) post ⟨stage, .nothing⟩) :
    Keeps terms Extra thread (.call (.write inode chunk) next) post ⟨stage, .jotting inode⟩ := by
  apply tracks_exec
  intro world s here
  obtain ⟨below, coarse⟩ : inode < s.nextInode ∧ ∀ path, s.node path = some (.file inode) → terms.rough path := by
    have sound := here.apart.sound thread
    rwa [Function.update_self] at sound
  have untrusted : ∀ other, other ≠ thread → ¬ (world.1 other).held.Trusts inode := by
    intro other different trusted
    have apart := here.apart.apart thread other inode
    simp only [Function.update_self, Function.update_of_ne different] at apart
    exact different (apart rfl trusted).symm
  have written := apart_jot (s.data inode ++ chunk) here.apart (fun _ => not_false) below coarse untrusted
  refine ⟨.ok (), _, fun _ => rfl, ⟨stage, .nothing⟩, ⟨apart_close written fun _ => not_false, ?_⟩, rest⟩
  have carried := robust.carries _ _ (⟨thread, .write inode chunk, .ok ()⟩ : Event Thread Reply) _
    (fun _ touched => absurd rfl touched) here.extra
  apply blind _ _ s _ _ carried
  intro other smooth
  unfold FS.write FS.look
  rw [FS.node_setData]
  cases named : s.node other with
  | none => rfl
  | some node =>
      cases node with
      | dir => rfl
      | file number =>
          have different : number ≠ inode := by
            rintro rfl
            exact smooth (coarse other named)
          simp [different]

end Rules
end Sharing
end Posix
