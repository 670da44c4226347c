import Mathlib.Logic.Function.Basic
import Ferrobucket.Lib.Look
/-! Files that are made empty and then filled with one write, while others read them. Whoever
reads such a file gets what was to be written, or nothing, and nothing only while somebody is
about to write it. -/
namespace Posix
open Text

/-- What a thread is at with one of these files. -/
inductive Posting where
  | idle
  | reserved (path : Path)
  | filling (path : Path) (inode : Nat)
  | filled (path : Path)
  | reading (path : Path) (inode : Nat)

namespace Posting

/-- The file that a thread is about to fill, or has filled. -/
def target : Posting → Option Path
  | .reserved path | .filling path _ | .filled path => some path
  | .idle | .reading _ _ => none

/-- What the state says of it. A file that is being read is still there, or it was whole when it
lost its name. -/
def Sound (slot : Path → Prop) (Good : Path → Bytes → Prop) (s : FS) : Posting → Prop
  | .idle => True
  | .reserved path => slot path ∧ s.node path = none
  | .filling path inode => slot path ∧ s.node path = some (.file inode) ∧ s.data inode = []
  | .filled path => slot path ∧ ∃ inode, s.node path = some (.file inode)
  | .reading path inode => slot path ∧ inode < s.nextInode ∧ (s.node path = some (.file inode) ∨
      Good path (s.data inode) ∧ ∀ other, s.node other ≠ some (.file inode))

end Posting

/-- The files in these slots are good, or one thread each is filling them. -/
structure Posted {Thread : Type} (slot : Path → Prop) (Good : Path → Bytes → Prop)
    (doing : Thread → Posting) (s : FS) : Prop where
  files : ∀ path, slot path → s.node path ≠ some .dir
  named : ∀ path inode, slot path → s.node path = some (.file inode) →
    Good path (s.data inode) ∨ ∃ thread, doing thread = .filling path inode
  sound : ∀ thread, (doing thread).Sound slot Good s
  alone : ∀ thread other path, (doing thread).target = some path → (doing other).target = some path →
    thread = other

section Steps
variable {Thread : Type} [DecidableEq Thread] {slot : Path → Prop} {Good : Path → Bytes → Prop}
  {doing : Thread → Posting} {s after : FS} {thread : Thread} {path : Path} {inode : Nat} {chunk : Bytes}
  {old new : Posting}

/-- A step of one thread. The others keep what they have, files that it does not touch stay
good, and it does not begin with a file that another one is about to fill. -/
theorem posted_step (posted : Posted slot Good (Function.update doing thread old) s)
    (files : ∀ path, slot path → after.node path ≠ some .dir)
    (named : ∀ path inode, slot path → after.node path = some (.file inode) →
      (s.node path = some (.file inode) ∧ after.data inode = s.data inode ∧ old ≠ .filling path inode) ∨
        Good path (after.data inode) ∨ new = .filling path inode)
    (others : ∀ posting : Posting, posting.Sound slot Good s →
      (∀ path, old.target = some path → posting.target ≠ some path) → posting.Sound slot Good after)
    (own : new.Sound slot Good after)
    (alone : ∀ path, new.target = some path → old.target = some path ∨
      ∀ other, other ≠ thread → (doing other).target ≠ some path) :
    Posted slot Good (Function.update doing thread new) after := by
  have apart : ∀ other, other ≠ thread → ∀ path, old.target = some path → (doing other).target ≠ some path := by
    intro other different path mine theirs
    apply different
    apply posted.alone other thread path
    · rwa [Function.update_of_ne different]
    · rwa [Function.update_self]
  have free : ∀ other, other ≠ thread → ∀ path, new.target = some path → (doing other).target ≠ some path := by
    intro other different path mine
    rcases alone path mine with before | free
    · exact apart other different path before
    · exact free other different
  refine ⟨files, ?_, ?_, ?_⟩
  · intro path inode fits present
    rcases named path inode fits present with ⟨there, same, mine⟩ | good | fills
    · rw [same]
      refine (posted.named path inode fits there).imp_right ?_
      rintro ⟨other, theirs⟩
      have different : other ≠ thread := by
        rintro rfl
        rw [Function.update_self] at theirs
        exact mine theirs
      rw [Function.update_of_ne different] at theirs
      exact ⟨other, by rwa [Function.update_of_ne different]⟩
    · exact .inl good
    · exact .inr ⟨thread, by rwa [Function.update_self]⟩
  · intro other
    by_cases same : other = thread
    · rw [same, Function.update_self]
      exact own
    · have sound := posted.sound other
      rw [Function.update_of_ne same] at sound ⊢
      exact others _ sound (apart other same)
  · intro one other path first second
    by_cases left : one = thread
    · by_cases right : other = thread
      · rw [left, right]
      · rw [left, Function.update_self] at first
        rw [Function.update_of_ne right] at second
        exact absurd second (free other right path first)
    · by_cases right : other = thread
      · rw [right, Function.update_self] at second
        rw [Function.update_of_ne left] at first
        exact absurd first (free one left path second)
      · apply posted.alone one other path
        · rwa [Function.update_of_ne left] at first ⊢
        · rwa [Function.update_of_ne right] at second ⊢

omit [DecidableEq Thread] in
/-- Whoever is to fill a file keeps it where the file is untouched. -/
theorem sound_target {posting : Posting} (sound : posting.Sound slot Good s) (target : posting.target = some path)
    (node : after.node path = s.node path)
    (data : ∀ inode, s.node path = some (.file inode) → after.data inode = s.data inode) :
    posting.Sound slot Good after := by
  cases posting with
  | idle => cases target
  | reading place inode => cases target
  | reserved place =>
      cases target
      exact ⟨sound.1, node.trans sound.2⟩
  | filling place inode =>
      cases target
      exact ⟨sound.1, node.trans sound.2.1, (data inode sound.2.1).trans sound.2.2⟩
  | filled place =>
      cases target
      obtain ⟨fits, inode, there⟩ := sound
      exact ⟨fits, inode, node.trans there⟩

theorem sound_same {posting : Posting} (sound : posting.Sound slot Good s)
    (nodes : ∀ path inode, after.node path = some (.file inode) ↔ s.node path = some (.file inode))
    (slots : ∀ path, slot path → after.node path = s.node path) (data : after.data = s.data)
    (grows : s.nextInode ≤ after.nextInode) : posting.Sound slot Good after := by
  cases posting with
  | idle => trivial
  | reserved path => exact ⟨sound.1, (slots path sound.1).trans sound.2⟩
  | filling path inode => exact ⟨sound.1, (nodes path inode).mpr sound.2.1, data ▸ sound.2.2⟩
  | filled path =>
      obtain ⟨fits, inode, there⟩ := sound
      exact ⟨fits, inode, (nodes path inode).mpr there⟩
  | reading path inode =>
      obtain ⟨fits, below, known⟩ := sound
      refine ⟨fits, Nat.lt_of_lt_of_le below grows, known.imp (nodes path inode).mpr ?_⟩
      rintro ⟨good, nameless⟩
      exact ⟨data ▸ good, fun other => mt (nodes other inode).mp (nameless other)⟩

omit [DecidableEq Thread] in
/-- A step that leaves these files alone. -/
theorem posted_same (posted : Posted slot Good doing s)
    (nodes : ∀ path inode, after.node path = some (.file inode) ↔ s.node path = some (.file inode))
    (slots : ∀ path, slot path → after.node path = s.node path) (data : after.data = s.data)
    (grows : s.nextInode ≤ after.nextInode) : Posted slot Good doing after where
  files := fun path fits => slots path fits ▸ posted.files path fits
  named := fun path inode fits present => data ▸ posted.named path inode fits ((nodes path inode).mp present)
  sound := fun thread => sound_same (posted.sound thread) nodes slots data grows
  alone := posted.alone

omit [DecidableEq Thread] in
/-- A file that nobody is about to fill loses its name. -/
theorem posted_drop (posted : Posted slot Good doing s)
    (free : ∀ thread, (doing thread).target ≠ some path) : Posted slot Good doing (s.drop path) := by
  have other : ∀ {place node}, (s.drop path).node place = some node → place ≠ path ∧ s.node place = some node := by
    intro place node present
    rw [FS.node_drop] at present
    by_cases same : place = path
    · rw [same, Function.update_self] at present
      cases present
    · rw [Function.update_of_ne same] at present
      exact ⟨same, present⟩
  have still : ∀ {place}, place ≠ path → (s.drop path).node place = s.node place := by
    intro place different
    rw [FS.node_drop, Function.update_of_ne different]
  refine ⟨?_, ?_, ?_, posted.alone⟩
  · exact fun place fits present => posted.files place fits (other present).2
  · exact fun place inode fits present => posted.named place inode fits (other present).2
  · intro thread
    have sound := posted.sound thread
    have away : ∀ place, (doing thread).target = some place → place ≠ path := by
      rintro place own rfl
      exact free thread own
    cases own : doing thread with
    | idle => trivial
    | reserved place | filling place _ | filled place =>
        rw [own] at sound away
        exact sound_target sound rfl (still (away place rfl)) fun _ _ => rfl
    | reading place inode =>
        rw [own] at sound
        obtain ⟨fits, below, known⟩ := sound
        refine ⟨fits, below, ?_⟩
        rcases known with there | ⟨good, nameless⟩
        · by_cases same : place = path
          · subst same
            -- The name goes, and with it the only one of the file.
            have nameless : ∀ found, (s.drop place).node found ≠ some (.file inode) := fun found present =>
              (other present).1 (s.unlinked found place inode (other present).2 there)
            refine .inr ⟨?_, nameless⟩
            refine (posted.named place inode fits there).resolve_right ?_
            rintro ⟨filler, fills⟩
            exact free filler (by rw [fills]; rfl)
          · exact .inl ((still same).trans there)
        · exact .inr ⟨good, fun found present => nameless found (other present).2⟩

/-- A slot is reserved that is empty and that nobody is about to fill. -/
theorem posted_reserve (posted : Posted slot Good (Function.update doing thread .idle) s) (fits : slot path)
    (vacant : s.node path = none) (free : ∀ other, other ≠ thread → (doing other).target ≠ some path) :
    Posted slot Good (Function.update doing thread (.reserved path)) s := by
  apply posted_step posted posted.files
  · exact fun place inode _ present => .inl ⟨present, rfl, by rintro ⟨⟩⟩
  · exact fun _ sound _ => sound
  · exact ⟨fits, vacant⟩
  · rintro _ ⟨⟩
    exact .inr free

/-- The file that is reserved is made. -/
theorem posted_create (posted : Posted slot Good (Function.update doing thread (.reserved path)) s) :
    Posted slot Good (Function.update doing thread (.filling path s.nextInode)) (s.newFile path) := by
  have own := posted.sound thread
  rw [Function.update_self] at own
  have older : ∀ {place inode}, s.node place = some (.file inode) → inode ≠ s.nextInode :=
    fun named => Nat.ne_of_lt (s.fresh _ _ named)
  have still : ∀ {place}, place ≠ path → (s.newFile path).node place = s.node place := by
    intro place different
    rw [FS.node_newFile, Function.update_of_ne different]
  have made : (s.newFile path).node path = some (.file s.nextInode) := by
    rw [FS.node_newFile, Function.update_self]
  have data : ∀ {inode}, inode ≠ s.nextInode → (s.newFile path).data inode = s.data inode := by
    intro inode different
    rw [FS.data_newFile, Function.update_of_ne different]
  apply posted_step posted
  · intro place fits present
    by_cases same : place = path
    · rw [same, made] at present
      cases present
    · exact posted.files place fits ((still same).symm.trans present)
  · intro place inode _ present
    by_cases same : place = path
    · subst same
      rw [made, Option.some.injEq, Node.file.injEq] at present
      exact .inr (.inr (by rw [present]))
    · rw [still same] at present
      exact .inl ⟨present, data (older present), by rintro ⟨⟩⟩
  · intro posting sound apart
    have away : ∀ place, posting.target = some place → place ≠ path := by
      rintro place theirs rfl
      exact apart place rfl theirs
    cases posting with
    | idle => trivial
    | reserved place | filling place _ | filled place =>
        exact sound_target sound rfl (still (away place rfl)) fun _ there => data (older there)
    | reading place inode =>
        obtain ⟨fits, below, known⟩ := sound
        have known' : inode ≠ s.nextInode := Nat.ne_of_lt below
        refine ⟨fits, Nat.lt_succ_of_lt below, ?_⟩
        rcases known with there | ⟨good, nameless⟩
        · have different : place ≠ path := by
            rintro rfl
            rw [own.2] at there
            cases there
          exact .inl ((still different).trans there)
        · refine .inr ⟨(data known').symm ▸ good, fun found present => ?_⟩
          by_cases same : found = path
          · rw [same, made, Option.some.injEq, Node.file.injEq] at present
            exact known' present.symm
          · exact nameless found ((still same).symm.trans present)
  · exact ⟨own.1, made, by rw [FS.data_newFile, Function.update_self]⟩
  · rintro _ ⟨⟩
    exact .inl rfl

/-- The file is filled. -/
theorem posted_fill (posted : Posted slot Good (Function.update doing thread (.filling path inode)) s)
    (whole : Good path chunk) :
    Posted slot Good (Function.update doing thread (.filled path)) (s.write inode chunk) := by
  have own := posted.sound thread
  rw [Function.update_self] at own
  obtain ⟨fits, there, empty⟩ := own
  have data : ∀ {other}, other ≠ inode → (s.write inode chunk).data other = s.data other := by
    intro other different
    rw [FS.write, FS.data_setData, Function.update_of_ne different]
  have written : (s.write inode chunk).data inode = chunk := by
    rw [FS.write, FS.data_setData, Function.update_self, empty, List.nil_append]
  have nodes : (s.write inode chunk).node = s.node := FS.node_setData s inode _
  apply posted_step posted (nodes ▸ posted.files)
  · intro place other _ present
    rw [nodes] at present
    by_cases same : other = inode
    · subst same
      obtain rfl := s.unlinked place path other present there
      exact .inr (.inl (written.symm ▸ whole))
    · refine .inl ⟨present, data same, ?_⟩
      rintro ⟨⟩
      exact same rfl
  · intro posting sound apart
    have kept : ∀ place, posting.target = some place → ∀ other, s.node place = some (.file other) →
        (s.write inode chunk).data other = s.data other := by
      intro place own other also
      apply data
      rintro rfl
      obtain rfl := s.unlinked place path other also there
      exact apart place rfl own
    cases posting with
    | idle => trivial
    | reserved place | filling place _ | filled place =>
        exact sound_target sound rfl (congrFun nodes place) (kept place rfl)
    | reading place other =>
        obtain ⟨fits, below, known⟩ := sound
        refine ⟨fits, below, known.imp_right ?_⟩
        rintro ⟨good, nameless⟩
        have different : other ≠ inode := by
          rintro rfl
          exact nameless path there
        exact ⟨(data different).symm ▸ good, nameless⟩
  · exact ⟨fits, inode, nodes ▸ there⟩
  · rintro _ ⟨⟩
    exact .inl rfl

/-- A file is opened for reading. -/
theorem posted_open (posted : Posted slot Good (Function.update doing thread .idle) s) (fits : slot path)
    (there : s.node path = some (.file inode)) :
    Posted slot Good (Function.update doing thread (.reading path inode)) s := by
  apply posted_step posted posted.files
  · exact fun place other _ present => .inl ⟨present, rfl, by rintro ⟨⟩⟩
  · exact fun _ sound _ => sound
  · exact ⟨fits, s.fresh path inode there, .inl there⟩
  · rintro _ ⟨⟩

theorem posted_close (posted : Posted slot Good (Function.update doing thread (.reading path inode)) s) :
    Posted slot Good (Function.update doing thread .idle) s := by
  apply posted_step posted posted.files
  · exact fun place other _ present => .inl ⟨present, rfl, by rintro ⟨⟩⟩
  · exact fun _ sound _ => sound
  · exact trivial
  · rintro _ ⟨⟩

/-- What a reader gets. -/
theorem posted_read (posted : Posted slot Good (Function.update doing thread (.reading path inode)) s) :
    Good path (s.data inode) ∨ s.data inode = [] ∧
      ∃ other, other ≠ thread ∧ doing other = .filling path inode := by
  have own := posted.sound thread
  rw [Function.update_self] at own
  obtain ⟨fits, _, there | ⟨good, _⟩⟩ := own
  · refine (posted.named path inode fits there).imp_right ?_
    rintro ⟨other, fills⟩
    have sound := posted.sound other
    rw [fills] at sound
    have different : other ≠ thread := by
      rintro rfl
      rw [Function.update_self] at fills
      cases fills
    rw [Function.update_of_ne different] at fills
    exact ⟨sound.2.2, other, different, fills⟩
  · exact .inl good

end Steps
end Posix
