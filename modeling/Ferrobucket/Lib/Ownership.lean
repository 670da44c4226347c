import Ferrobucket.Lib.Steps
/-! Threads that share a file system and keep out of each other's files. A thread writes
only a file that it has made under a temporary name, until it renames or removes it, so
what has another name never changes but as a whole; a file that is open for reading keeps
its content. In-place writes are allowed on some paths, the rough ones, which nobody
reads in this way. -/
namespace Posix
open Text Program

/-- What a thread holds: nothing, its temporary file with what is written so far, a file open
for reading with its content, both of these, or a file open for writing in place. -/
inductive Held where
  | nothing
  | writing (file : Temp) (content : Bytes)
  | reading (inode : Handle) (content : Bytes)
  | copying (file : Temp) (content : Bytes) (inode : Handle) (chunk : Bytes)
  | jotting (inode : Handle)

namespace Held

/-- The inode that the thread may change. -/
def changes : Held → Option Handle
  | .writing file _ | .copying file _ _ _ => some file.inode
  | .jotting inode => some inode
  | _ => none

/-- The inodes whose content the thread relies on. -/
def Trusts (inode : Handle) : Held → Prop
  | .writing file _ => file.inode = inode
  | .reading own _ => own = inode
  | .copying file _ own _ => file.inode = inode ∨ own = inode
  | _ => False

end Held

/-- A temporary name in one of the directories where temporary files are made. -/
def IsTemp (staging : Path → Prop) (path : Path) : Prop :=
  ∃ name dir, path = name :: dir ∧ isTempName name = true ∧ staging dir

/-- What all threads go by: the directories in which temporary files are made, the rough
paths, and the temporary files that nobody holds, left from before. -/
structure Terms where
  nameMax : Option Nat
  staging : Path → Prop
  rough : Path → Prop
  litter : Path → Option FS.Entry
  short : ∀ name, isTempName name = true → exceeds nameMax name = false
  smooth : ∀ path, IsTemp staging path → ¬ rough path

/-- The path of a directory leads there whenever the directory is there at all, and nowhere
else. -/
structure Reaches (nameMax : Option Nat) (path : PathBuf) (dir : Path) : Prop where
  there : ∀ s : FS, s.Tree → s.nameMax = nameMax → s.look dir = some .dir → s.locate path = .ok dir
  only : ∀ (s : FS) (found : Path), s.locate path = .ok found → found = dir

/-- A temporary file as it was made in a directory. -/
def Temp.Made (terms : Terms) (file : Temp) : Prop :=
  ∃ path dir name, Reaches terms.nameMax path dir ∧ isTempName name = true ∧ terms.staging dir ∧
    file.name = path.join name ∧ file.place = name :: dir

/-- The temporary file is where it was made and has this content. -/
structure Temp.Sound (terms : Terms) (s : FS) (file : Temp) (content : Bytes) : Prop where
  made : file.Made terms
  unclaimed : terms.litter file.place = none
  named : s.node file.place = some (.file file.inode)
  written : s.data file.inode = content

/-- What is open for reading has this content and is not rough. -/
structure Opened (terms : Terms) (s : FS) (inode : Handle) (content : Bytes) : Prop where
  below : inode < s.nextInode
  same : s.data inode = content
  smooth : ∀ path, s.node path = some (.file inode) → ¬ terms.rough path

namespace Held

def Sound (terms : Terms) (s : FS) : Held → Prop
  | .nothing => True
  | .writing file content => file.Sound terms s content
  | .reading inode content => Opened terms s inode content
  | .copying file content inode chunk => file.Sound terms s content ∧ Opened terms s inode chunk
  | .jotting inode => inode < s.nextInode ∧ ∀ path, s.node path = some (.file inode) → terms.rough path

/-- The temporary file of the thread is at this place. -/
def At (path : Path) : Held → Prop
  | .writing file _ | .copying file _ _ _ => file.place = path
  | _ => False

end Held

/-- Nobody changes what another relies on, and every temporary file is somebody's or was
there from the start. -/
structure Apart {Thread : Type} (terms : Terms) (held : Thread → Held) (s : FS) : Prop where
  limit : s.nameMax = terms.nameMax
  tree : s.Tree
  sound : ∀ thread, (held thread).Sound terms s
  apart : ∀ thread other inode, (held thread).changes = some inode →
    (held other).Trusts inode → thread = other
  strays : ∀ path, IsTemp terms.staging path →
    s.look path = terms.litter path ∨ ∃ thread, (held thread).At path

section Naming
variable {terms : Terms} {nameMax : Option Nat} {file : Temp}

theorem made_temp (made : file.Made terms) : IsTemp terms.staging file.place := by
  obtain ⟨_, dir, name, _, temp, staging, _, same⟩ := made
  exact ⟨name, dir, same, temp, staging⟩

/-- What a name in a directory is located at, that its directory is there and that the name
is not too long. -/
theorem located_in {path : PathBuf} {dir found : Path} {name : Str} {s : FS}
    (reaches : Reaches nameMax path dir) (good : isName name = true)
    (located : s.locate (path.join name) = .ok found) :
    found = name :: dir ∧ s.look dir = some .dir ∧ s.tooLong name = false := by
  rw [FS.locate_join path good] at located
  cases upper : s.locate path with
  | error e =>
      rw [upper] at located
      cases located
  | ok place =>
      obtain rfl := reaches.only s place upper
      obtain ⟨nonempty, dot, dots, _⟩ := name_parts good
      simp only [upper, Except.bind, FS.walk, nonempty, dot, dots, or_self, if_false] at located
      split at located
      · cases located
      · cases located
      · next inside =>
          split_ifs at located with long
          exact ⟨(Except.ok.inj located).symm, FS.look_dir.mpr inside, by simpa using long⟩

theorem reaches_join {path : PathBuf} {dir : Path} {name : Str} (reaches : Reaches nameMax path dir)
    (good : isName name = true) (short : exceeds nameMax name = false) :
    Reaches nameMax (path.join name) (name :: dir) where
  there := by
    intro s tree limit inside
    have parent := tree (name :: dir) (List.cons_ne_nil _ _) (by simp [inside])
    have located := reaches.there s tree limit parent
    apply FS.locate_name located parent good
    rw [FS.tooLong, limit]
    exact short
  only := fun s found located => (located_in reaches good located).1

theorem made_locate {s : FS} (tree : s.Tree) (limit : s.nameMax = terms.nameMax)
    (made : file.Made terms) (there : s.look file.place ≠ none) : s.locate file.name = .ok file.place := by
  obtain ⟨path, dir, name, reaches, temp, _, named, placed⟩ := made
  have parent : s.look dir = some .dir := by
    have above := tree file.place (by simp [placed]) there
    rwa [placed] at above
  rw [named, placed]
  apply FS.locate_name (reaches.there s tree limit parent) parent (temp_is_name temp)
  rw [FS.tooLong, limit]
  exact terms.short name temp

end Naming
/-! ### Steps of one thread -/

section Frame
variable {Thread : Type} [DecidableEq Thread] {terms : Terms} {held : Thread → Held}
  {thread : Thread} {old new : Held} {s after : FS}

theorem sound_below {holding : Held} {inode : Handle} (sound : holding.Sound terms s)
    (uses : holding.changes = some inode ∨ holding.Trusts inode) : inode < s.nextInode := by
  cases holding with
  | nothing =>
      rcases uses with changed | trusted
      · cases changed
      · exact absurd trusted not_false
  | writing file content =>
      have own := s.fresh _ _ sound.named
      rcases uses with changed | rfl
      · cases changed
        exact own
      · exact own
  | reading other content =>
      rcases uses with changed | rfl
      · cases changed
      · exact sound.below
  | copying file content other chunk =>
      have own := s.fresh _ _ sound.1.named
      rcases uses with changed | rfl | rfl
      · cases changed
        exact own
      · exact own
      · exact sound.2.below
  | jotting other =>
      rcases uses with changed | trusted
      · cases changed
        exact sound.1
      · exact absurd trusted not_false

/-- The inode of a temporary file has no other name. -/
theorem temp_only {file : Temp} {content : Bytes} {path : Path} (sound : file.Sound terms s content)
    (named : s.node path = some (.file file.inode)) : IsTemp terms.staging path := by
  have temp := made_temp sound.made
  rwa [s.unlinked _ _ _ sound.named named] at temp

/-- A file that has a name of its own and is not rough is changed by nobody. -/
theorem lasting_unchanged {holding : Held} {path : Path} {inode : Nat}
    (sound : holding.Sound terms s) (named : s.node path = some (.file inode))
    (lasting : ¬ IsTemp terms.staging path) (smooth : ¬ terms.rough path) :
    holding.changes ≠ some inode := by
  intro changed
  cases holding with
  | nothing => cases changed
  | reading _ _ => cases changed
  | writing file content =>
      obtain rfl := Option.some.inj changed
      exact lasting (temp_only sound named)
  | copying file content _ _ =>
      obtain rfl := Option.some.inj changed
      exact lasting (temp_only sound.1 named)
  | jotting _ =>
      obtain rfl := Option.some.inj changed
      exact smooth (sound.2 path named)

/-- A rough file is trusted by nobody. -/
theorem rough_untrusted {holding : Held} {path : Path} {inode : Nat}
    (sound : holding.Sound terms s) (named : s.node path = some (.file inode))
    (coarse : terms.rough path) : ¬ holding.Trusts inode := by
  intro trusted
  cases holding with
  | nothing => exact trusted
  | jotting _ => exact trusted
  | writing file content =>
      obtain rfl := trusted
      exact terms.smooth path (temp_only sound named) coarse
  | reading _ _ =>
      obtain rfl := trusted
      exact sound.smooth path named coarse
  | copying file _ _ _ =>
      rcases trusted with rfl | rfl
      · exact terms.smooth path (temp_only sound.1 named) coarse
      · exact sound.2.smooth path named coarse

/-- What a step has to leave alone: temporary files that are not its own, and the content of
every inode that is not its own. -/
structure Spares (terms : Terms) (old new : Held) (s after : FS) : Prop where
  tree : after.Tree
  limit : after.nameMax = s.nameMax
  grows : s.nextInode ≤ after.nextInode
  temps : ∀ path inode, IsTemp terms.staging path → s.node path = some (.file inode) →
    old.changes ≠ some inode → after.node path = some (.file inode)
  elsewhere : ∀ path, IsTemp terms.staging path → ¬ old.At path → ¬ new.At path →
    after.look path = s.look path
  data : ∀ inode, inode < s.nextInode → old.changes ≠ some inode → new.changes ≠ some inode →
    after.data inode = s.data inode
  names : ∀ path inode, inode < s.nextInode → after.node path = some (.file inode) →
    ∃ former, s.node former = some (.file inode) ∧ (terms.rough path ↔ terms.rough former)

section Spared
variable (spares : Spares terms old new s after)
include spares

theorem temp_spared {file : Temp} {content : Bytes} (sound : file.Sound terms s content)
    (own : old.changes ≠ some file.inode ∧ new.changes ≠ some file.inode) :
    file.Sound terms after content := by
  refine ⟨sound.made, sound.unclaimed, spares.temps _ _ (made_temp sound.made) sound.named own.1, ?_⟩
  rw [spares.data _ (s.fresh _ _ sound.named) own.1 own.2, sound.written]

/-- The names of an inode do not turn rough or smooth. -/
theorem names_spared {inode : Nat} {mark : Prop} (below : inode < s.nextInode)
    (marked : ∀ path, s.node path = some (.file inode) → (terms.rough path ↔ mark)) :
    ∀ path, after.node path = some (.file inode) → (terms.rough path ↔ mark) := by
  intro path named
  obtain ⟨former, before, alike⟩ := spares.names path inode below named
  exact alike.trans (marked former before)

theorem opened_spared {inode : Handle} {content : Bytes} (opened : Opened terms s inode content)
    (own : old.changes ≠ some inode ∧ new.changes ≠ some inode) : Opened terms after inode content := by
  refine ⟨lt_of_lt_of_le opened.below spares.grows, ?_, ?_⟩
  · rw [spares.data _ opened.below own.1 own.2, opened.same]
  · have smooth : ∀ path, s.node path = some (.file inode) → (terms.rough path ↔ False) :=
      fun path named => iff_false_intro (opened.smooth path named)
    exact fun path named => (names_spared spares opened.below smooth path named).mp

theorem sound_spared {holding : Held} (sound : holding.Sound terms s)
    (own : ∀ inode, holding.Trusts inode → old.changes ≠ some inode ∧ new.changes ≠ some inode) :
    holding.Sound terms after := by
  cases holding with
  | nothing => trivial
  | writing file content => exact temp_spared spares sound (own _ rfl)
  | reading inode content => exact opened_spared spares sound (own _ rfl)
  | copying file content inode chunk =>
      exact ⟨temp_spared spares sound.1 (own _ (.inl rfl)), opened_spared spares sound.2 (own _ (.inr rfl))⟩
  | jotting inode =>
      obtain ⟨below, coarse⟩ := sound
      have rough : ∀ path, s.node path = some (.file inode) → (terms.rough path ↔ True) :=
        fun path named => iff_true_intro (coarse path named)
      refine ⟨lt_of_lt_of_le below spares.grows, fun path named => ?_⟩
      exact (names_spared spares below rough path named).mpr trivial

end Spared

/-- The step of a thread that spares the others, from what it held to what it holds now. -/
theorem apart_step (apart : Apart terms (Function.update held thread old) s)
    (spares : Spares terms old new s after) (sound : new.Sound terms after)
    (changes : ∀ inode, new.changes = some inode → old.changes = some inode ∨
      ∀ other, other ≠ thread → ¬ (held other).Trusts inode)
    (trusts : ∀ inode, new.Trusts inode → old.Trusts inode ∨
      ∀ other, other ≠ thread → (held other).changes ≠ some inode)
    (settled : ∀ path, old.At path → ¬ new.At path → after.look path = terms.litter path) :
    Apart terms (Function.update held thread new) after := by
  -- Nobody else trusts what the thread changes, before or after, and the other way round.
  have own : ∀ other, other ≠ thread → ∀ inode, (held other).Trusts inode →
      old.changes ≠ some inode ∧ new.changes ≠ some inode := by
    intro other different inode trusted
    have left : old.changes ≠ some inode := by
      intro changed
      apply different
      have same := apart.apart thread other inode
      simp only [Function.update_self, Function.update_of_ne different] at same
      exact (same changed trusted).symm
    refine ⟨left, ?_⟩
    intro changed
    rcases changes inode changed with before | nobody
    · exact left before
    · exact nobody other different trusted
  refine ⟨spares.limit.trans apart.limit, spares.tree, ?_, ?_, ?_⟩
  · intro other
    by_cases same : other = thread
    · subst same
      rwa [Function.update_self]
    · have before := apart.sound other
      rw [Function.update_of_ne same] at before ⊢
      exact sound_spared spares before (own other same)
  · intro first second inode changed trusted
    by_cases left : first = thread <;> by_cases right : second = thread
    · rw [left, right]
    · subst left
      rw [Function.update_self] at changed
      rw [Function.update_of_ne right] at trusted
      exact absurd changed (own second right inode trusted).2
    · subst right
      rw [Function.update_of_ne left] at changed
      rw [Function.update_self] at trusted
      rcases trusts inode trusted with before | nobody
      · have same := apart.apart first second inode
        simp only [Function.update_self, Function.update_of_ne left] at same
        exact same changed before
      · exact absurd changed (nobody first left)
    · have same := apart.apart first second inode
      simp only [Function.update_of_ne left, Function.update_of_ne right] at same changed trusted
      exact same changed trusted
  · intro path temp
    by_cases placed : new.At path
    · exact .inr ⟨thread, by rwa [Function.update_self]⟩
    · by_cases vacated : old.At path
      · exact .inl (settled path vacated placed)
      · rw [spares.elsewhere path temp vacated placed]
        rcases apart.strays path temp with litter | ⟨other, place⟩
        · exact .inl litter
        · by_cases same : other = thread
          · subst same
            rw [Function.update_self] at place
            exact absurd place vacated
          · rw [Function.update_of_ne same] at place
            exact .inr ⟨other, by rwa [Function.update_of_ne same]⟩

theorem spares_same (tree : s.Tree) : Spares terms old new s s where
  tree := tree
  limit := rfl
  grows := le_refl _
  temps := fun _ _ _ named _ => named
  elsewhere := fun _ _ _ _ => rfl
  data := fun _ _ _ _ => rfl
  names := fun path _ _ named => ⟨path, named, Iff.rfl⟩

/-- A file with a name of its own is opened for reading. -/
theorem apart_open {path : Path} {inode : Nat}
    (apart : Apart terms (Function.update held thread .nothing) s)
    (named : s.node path = some (.file inode)) (lasting : ¬ IsTemp terms.staging path)
    (smooth : ¬ terms.rough path) :
    Apart terms (Function.update held thread (.reading inode (s.data inode))) s := by
  apply apart_step apart (spares_same apart.tree)
  · refine ⟨s.fresh _ _ named, rfl, ?_⟩
    intro other also
    rwa [s.unlinked other path inode also named]
  · nofun
  · rintro _ ⟨⟩
    refine .inr fun other different => ?_
    have sound := apart.sound other
    rw [Function.update_of_ne different] at sound
    exact lasting_unchanged sound named lasting smooth
  · nofun

/-- What is open for reading or writing in place is closed. -/
theorem apart_close (apart : Apart terms (Function.update held thread old) s)
    (released : ∀ path, ¬ old.At path) : Apart terms (Function.update held thread .nothing) s :=
  apart_step apart (spares_same apart.tree) trivial nofun nofun
    fun path place => absurd place (released path)

/-- A new temporary file. -/
theorem apart_stage {path : PathBuf} {dir : Path} {name : Str}
    (apart : Apart terms (Function.update held thread .nothing) s)
    (reaches : Reaches terms.nameMax path dir) (temp : isTempName name = true)
    (staging : terms.staging dir) (inside : s.look dir = some .dir)
    (absent : s.look (name :: dir) = none) :
    Apart terms (Function.update held thread (.writing ⟨path.join name, name :: dir, s.nextInode⟩ []))
      (s.newFile (name :: dir)) := by
  have spares : Spares terms .nothing (.writing ⟨path.join name, name :: dir, s.nextInode⟩ []) s
      (s.newFile (name :: dir)) := by
    refine ⟨FS.tree_added apart.tree (FS.look_newFile s _) inside (by simp [absent]), rfl,
      Nat.le_succ _, ?_, ?_, ?_, ?_⟩
    · intro other inode _ named _
      have different : other ≠ name :: dir := by
        rintro rfl
        rw [FS.look_none.mp absent] at named
        cases named
      rw [FS.node_newFile, Function.update_of_ne different]
      exact named
    · intro other _ _ away
      have different : other ≠ name :: dir := fun same => away same.symm
      rw [FS.look_newFile, Function.update_of_ne different]
    · intro inode below _ _
      simp [Nat.ne_of_lt below]
    · intro other inode below named
      refine ⟨other, ?_, Iff.rfl⟩
      rw [FS.node_newFile] at named
      by_cases same : other = name :: dir
      · subst same
        rw [Function.update_self] at named
        cases named
        exact absurd below (lt_irrefl _)
      · rwa [Function.update_of_ne same] at named
  have beyond : ∀ other, other ≠ thread → ∀ inode, (held other).changes = some inode ∨
      (held other).Trusts inode → inode ≠ s.nextInode := by
    intro other different inode uses
    have sound := apart.sound other
    rw [Function.update_of_ne different] at sound
    exact Nat.ne_of_lt (sound_below sound uses)
  have unclaimed : terms.litter (name :: dir) = none := by
    rcases apart.strays (name :: dir) ⟨name, dir, rfl, temp, staging⟩ with litter | ⟨other, place⟩
    · rw [← litter, absent]
    · have sound := apart.sound other
      revert place sound
      generalize Function.update held thread .nothing other = holding
      intro place sound
      cases holding with
      | writing file content =>
          have named := sound.named
          rw [show file.place = name :: dir from place, FS.look_none.mp absent] at named
          cases named
      | copying file content _ _ =>
          have named := sound.1.named
          rw [show file.place = name :: dir from place, FS.look_none.mp absent] at named
          cases named
      | _ => exact absurd place not_false
  apply apart_step apart spares
  · exact ⟨⟨path, dir, name, reaches, temp, staging, rfl, rfl⟩, unclaimed, by simp, by simp⟩
  · rintro _ ⟨⟩
    exact .inr fun other different trusted => beyond other different _ (.inr trusted) rfl
  · rintro _ ⟨⟩
    exact .inr fun other different changed => beyond other different _ (.inl changed) rfl
  · nofun

section Writing
variable {file : Temp} {content : Bytes}
  (apart : Apart terms (Function.update held thread (.writing file content)) s)
include apart

theorem own_sound : (Held.writing file content).Sound terms s := by
  have sound := apart.sound thread
  rwa [Function.update_self] at sound

theorem own_look : s.look file.place = some (.file content) := by
  obtain ⟨_, _, named, same⟩ := own_sound apart
  exact FS.look_file.mpr ⟨file.inode, named, same⟩

theorem own_locate : s.locate file.name = .ok file.place := by
  obtain ⟨made, _⟩ := own_sound apart
  exact made_locate apart.tree apart.limit made (by simp [own_look apart])

theorem own_temp : IsTemp terms.staging file.place := by
  obtain ⟨made, _⟩ := own_sound apart
  exact made_temp made

theorem apart_write (chunk : Bytes) :
    Apart terms (Function.update held thread (.writing file (content ++ chunk)))
      (s.write file.inode chunk) := by
  obtain ⟨made, unclaimed, named, same⟩ := own_sound apart
  have spares : Spares terms (.writing file content) (.writing file (content ++ chunk)) s
      (s.write file.inode chunk) := by
    refine ⟨FS.tree_setData apart.tree, rfl, le_refl _, fun _ _ _ named _ => named, ?_, ?_,
      fun path _ _ named => ⟨path, named, Iff.rfl⟩⟩
    · intro path _ away _
      have different : path ≠ file.place := fun equal => away equal.symm
      rw [FS.write, FS.look_setData s named, Function.update_of_ne different]
    · intro inode _ different _
      have other : inode ≠ file.inode := fun equal => different (congrArg some equal.symm)
      simp [FS.write, other]
  apply apart_step apart spares
  · exact ⟨made, unclaimed, named, by simp [FS.write, same]⟩
  · exact fun inode changed => .inl changed
  · exact fun inode trusted => .inl trusted
  · exact fun path place away => absurd place away

/-- Another file is opened meanwhile. -/
theorem apart_copy {path : Path} {inode : Nat} (named : s.node path = some (.file inode))
    (lasting : ¬ IsTemp terms.staging path) (smooth : ¬ terms.rough path) :
    Apart terms (Function.update held thread (.copying file content inode (s.data inode))) s := by
  have sound := own_sound apart
  apply apart_step apart (spares_same apart.tree)
  · refine ⟨sound, s.fresh _ _ named, rfl, ?_⟩
    intro other also
    rwa [s.unlinked other path inode also named]
  · exact fun inode changed => .inl changed
  · rintro own (rfl | rfl)
    · exact .inl rfl
    · refine .inr fun other different => ?_
      have others := apart.sound other
      rw [Function.update_of_ne different] at others
      exact lasting_unchanged others named lasting smooth
  · exact fun path place away => absurd place away

/-- The file is renamed to its final name. -/
theorem apart_publish {target : Path} (inside : s.look target.tail = some .dir)
    (free : s.look target ≠ some .dir) (lasting : ¬ IsTemp terms.staging target)
    (plain : ¬ terms.rough target) :
    Apart terms (Function.update held thread .nothing) (s.move file.place target) := by
  obtain ⟨made, unclaimed, named, _⟩ := own_sound apart
  have temp := made_temp made
  have different : file.place ≠ target := by
    rintro rfl
    exact lasting temp
  have moved := FS.look_move s target (own_look apart)
  have spares : Spares terms (.writing file content) .nothing s (s.move file.place target) := by
    refine ⟨FS.tree_moved apart.tree (own_look apart) inside free, by simp, by simp,
      ?_, ?_, ?_, ?_⟩
    · intro path inode inStaging before changed
      have atTarget : path ≠ target := fun same => lasting (same ▸ inStaging)
      have atSource : path ≠ file.place := by
        rintro rfl
        rw [named] at before
        cases before
        exact changed rfl
      rw [FS.node_move s named, Function.update_of_ne atTarget, Function.update_of_ne atSource]
      exact before
    · intro path inStaging away _
      have atTarget : path ≠ target := fun same => lasting (same ▸ inStaging)
      have atSource : path ≠ file.place := fun same => away same.symm
      rw [moved, Function.update_of_ne atTarget, Function.update_of_ne atSource]
    · intro inode _ _ _
      simp
    · intro path inode _ after
      rw [FS.node_move s named] at after
      by_cases atTarget : path = target
      · subst atTarget
        rw [Function.update_self] at after
        cases after
        exact ⟨file.place, named, iff_of_false plain (terms.smooth _ temp)⟩
      · rw [Function.update_of_ne atTarget] at after
        by_cases atSource : path = file.place
        · subst atSource
          rw [Function.update_self] at after
          cases after
        · rw [Function.update_of_ne atSource] at after
          exact ⟨path, after, Iff.rfl⟩
  apply apart_step apart spares trivial nofun nofun
  rintro path rfl _
  rw [moved, Function.update_of_ne different, Function.update_self, unclaimed]

end Writing

/-- The other file is closed again. -/
theorem apart_copied {file : Temp} {content chunk : Bytes} {inode : Handle}
    (apart : Apart terms (Function.update held thread (.copying file content inode chunk)) s) :
    Apart terms (Function.update held thread (.writing file content)) s := by
  have sound := apart.sound thread
  rw [Function.update_self] at sound
  have written : (Held.writing file content).Sound terms s := sound.1
  apply apart_step apart (spares_same apart.tree) written
  · exact fun inode changed => .inl changed
  · exact fun inode trusted => .inl (.inl trusted)
  · intro path place away
    exact absurd place away

/-- A file, or a directory with nothing in it, is removed. -/
theorem spares_drop {path : Path} (tree : s.Tree) (empty : ∀ name, s.look (name :: path) = none)
    (own : IsTemp terms.staging path → old.At path ∧
      ∀ inode, s.node path = some (.file inode) → old.changes = some inode) :
    Spares terms old new s (s.drop path) := by
  refine ⟨FS.tree_removed tree (FS.look_drop s path) empty, rfl, le_refl _, ?_, ?_, fun _ _ _ _ => rfl, ?_⟩
  · intro other inode temp named different
    have kept : other ≠ path := by
      rintro rfl
      exact different ((own temp).2 inode named)
    rw [FS.node_drop, Function.update_of_ne kept]
    exact named
  · intro other temp away _
    have kept : other ≠ path := by
      rintro rfl
      exact away (own temp).1
    rw [FS.look_drop, Function.update_of_ne kept]
  · intro other inode _ named
    rw [FS.node_drop] at named
    by_cases same : other = path
    · subst same
      rw [Function.update_self] at named
      cases named
    · rw [Function.update_of_ne same] at named
      exact ⟨other, named, Iff.rfl⟩

theorem apart_discard {file : Temp} {content : Bytes}
    (apart : Apart terms (Function.update held thread (.writing file content)) s) :
    Apart terms (Function.update held thread .nothing) (s.drop file.place) := by
  obtain ⟨_, unclaimed, named, _⟩ := own_sound apart
  have spares : Spares terms (.writing file content) .nothing s (s.drop file.place) := by
    apply spares_drop apart.tree (FS.tree_childless apart.tree (own_look apart))
    refine fun _ => ⟨rfl, ?_⟩
    intro inode also
    rw [named] at also
    cases also
    rfl
  apply apart_step apart spares trivial nofun nofun
  rintro path rfl _
  rw [FS.look_drop, Function.update_self, unclaimed]

/-- What has a name of its own is removed: a file, or an empty directory. -/
theorem apart_drop {path : Path} (apart : Apart terms (Function.update held thread .nothing) s)
    (empty : ∀ name, s.look (name :: path) = none) (lasting : ¬ IsTemp terms.staging path) :
    Apart terms (Function.update held thread .nothing) (s.drop path) :=
  apart_step apart (spares_drop apart.tree empty fun temp => absurd temp lasting) trivial nofun nofun
    nofun

theorem apart_mkdir {path : Path} (apart : Apart terms (Function.update held thread .nothing) s)
    (absent : s.look path = none) (inside : s.look path.tail = some .dir)
    (lasting : ¬ IsTemp terms.staging path) :
    Apart terms (Function.update held thread .nothing) (s.mkdirAt path) := by
  have spares : Spares terms .nothing .nothing s (s.mkdirAt path) := by
    refine ⟨FS.tree_added apart.tree (FS.look_mkdirAt s path) inside (fun _ => rfl), rfl, le_refl _,
      ?_, ?_, fun _ _ _ _ => rfl, ?_⟩
    · intro other inode _ named _
      have different : other ≠ path := by
        rintro rfl
        rw [FS.look_none.mp absent] at named
        cases named
      rw [FS.node_mkdirAt, Function.update_of_ne different]
      exact named
    · intro other temp _ _
      have different : other ≠ path := by
        rintro rfl
        exact lasting temp
      rw [FS.look_mkdirAt, Function.update_of_ne different]
    · intro other inode _ named
      rw [FS.node_mkdirAt] at named
      by_cases same : other = path
      · subst same
        rw [Function.update_self] at named
        cases named
      · rw [Function.update_of_ne same] at named
        exact ⟨other, named, Iff.rfl⟩
  exact apart_step apart spares trivial nofun nofun nofun

/-! ### Writing in place -/

/-- A rough file is made. -/
theorem apart_create {path : Path} (apart : Apart terms (Function.update held thread .nothing) s)
    (coarse : terms.rough path) (absent : s.look path = none) (inside : s.look path.tail = some .dir)
    (below : path ≠ []) :
    Apart terms (Function.update held thread (.jotting s.nextInode)) (s.newFile path) := by
  obtain ⟨name, dir, rfl⟩ := List.exists_cons_of_ne_nil below
  have lasting : ¬ IsTemp terms.staging (name :: dir) := fun temp => terms.smooth _ temp coarse
  have spares : Spares terms .nothing (.jotting s.nextInode) s (s.newFile (name :: dir)) := by
    refine ⟨FS.tree_added apart.tree (FS.look_newFile s _) inside (by simp [absent]), rfl,
      Nat.le_succ _, ?_, ?_, ?_, ?_⟩
    · intro other inode temp named _
      have different : other ≠ name :: dir := by
        rintro rfl
        exact lasting temp
      rw [FS.node_newFile, Function.update_of_ne different]
      exact named
    · intro other temp _ _
      have different : other ≠ name :: dir := by
        rintro rfl
        exact lasting temp
      rw [FS.look_newFile, Function.update_of_ne different]
    · intro inode below _ _
      simp [Nat.ne_of_lt below]
    · intro other inode below named
      refine ⟨other, ?_, Iff.rfl⟩
      rw [FS.node_newFile] at named
      by_cases same : other = name :: dir
      · subst same
        rw [Function.update_self] at named
        cases named
        exact absurd below (lt_irrefl _)
      · rwa [Function.update_of_ne same] at named
  apply apart_step apart spares
  · refine ⟨Nat.lt_succ_self _, ?_⟩
    intro other named
    by_cases same : other = name :: dir
    · subst same
      exact coarse
    · rw [FS.node_newFile, Function.update_of_ne same] at named
      exact absurd (s.fresh _ _ named) (lt_irrefl _)
  · rintro _ ⟨⟩
    refine .inr fun other different trusted => ?_
    have sound := apart.sound other
    rw [Function.update_of_ne different] at sound
    exact absurd (sound_below sound (.inr trusted)) (lt_irrefl _)
  · nofun
  · nofun

/-- The content of a rough file is replaced. -/
theorem apart_jot {inode : Nat} (bytes : Bytes)
    (apart : Apart terms (Function.update held thread old) s) (released : ∀ path, ¬ old.At path)
    (below : inode < s.nextInode)
    (coarse : ∀ path, s.node path = some (.file inode) → terms.rough path)
    (untrusted : ∀ other, other ≠ thread → ¬ (held other).Trusts inode) :
    Apart terms (Function.update held thread (.jotting inode)) (s.setData inode bytes) := by
  have spares : Spares terms old (.jotting inode) s (s.setData inode bytes) := by
    refine ⟨FS.tree_setData apart.tree, rfl, le_refl _, fun _ _ _ named _ => named, ?_, ?_,
      fun path _ _ named => ⟨path, named, Iff.rfl⟩⟩
    · intro other temp _ _
      unfold FS.look
      rw [FS.node_setData]
      cases named : s.node other with
      | none => rfl
      | some node =>
          cases node with
          | dir => rfl
          | file number =>
              have different : number ≠ inode := by
                rintro rfl
                exact terms.smooth other temp (coarse other named)
              simp [different]
    · intro number _ _ different
      have other : number ≠ inode := fun equal => different (congrArg some equal.symm)
      simp [other]
  apply apart_step apart spares
  · exact ⟨below, coarse⟩
  · rintro _ ⟨⟩
    exact .inr untrusted
  · nofun
  · exact fun path place _ => absurd place (released path)

end Frame
end Posix
