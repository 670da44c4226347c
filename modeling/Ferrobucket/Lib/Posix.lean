import Mathlib.Data.Finmap
import Mathlib.Data.Finset.Image
import Ferrobucket.Lib.Text
/-! A POSIX file system without links, as one value that system calls change.
Directory entries are a finite map, file contents live in inodes, and a handle is
an inode: an open file keeps reading what it opened after its name is gone. -/
namespace Posix
open Text

/-- A resolved absolute path, innermost name first; `[]` is the root directory. -/
abbrev Path := List Str

inductive Node where
  | dir
  | file (inode : Nat)
  deriving DecidableEq

inductive Errno where
  | EBUSY
  | EEXIST
  | EINVAL
  | EIO
  | EISDIR
  | ENAMETOOLONG
  | ENOENT
  | ENOTDIR
  | ENOTEMPTY
  deriving DecidableEq

/-- `fresh` keeps new inodes unreferenced and `unlinked` gives an inode one name, so
writing one file never changes another. -/
structure FS where
  nodes : Finmap fun _ : Path => Node
  data : Nat → Bytes
  nextInode : Nat
  nameMax : Option Nat
  issued : List Str
  fresh : ∀ path inode, nodes.lookup path = some (.file inode) → inode < nextInode
  unlinked : ∀ path other inode, nodes.lookup path = some (.file inode) →
    nodes.lookup other = some (.file inode) → path = other

/-- A path as a program builds it: a resolved base and raw parts still to be walked. -/
structure PathBuf where
  base : Path
  rel : List Str
  deriving DecidableEq

/-- `Path::join`: an absolute argument replaces the path. -/
def PathBuf.join (path : PathBuf) (text : Str) : PathBuf :=
  if text.head? = some '/' then ⟨[], text.splitOn '/'⟩
  else ⟨path.base, path.rel ++ text.splitOn '/'⟩

def PathBuf.parent (path : PathBuf) : PathBuf :=
  match path.rel with
  | [] => ⟨path.base.tail, []⟩
  | parts => ⟨path.base, parts.dropLast⟩

/-- The last component that names something, which decides what `rmdir` refuses. -/
def PathBuf.lastPart (path : PathBuf) : Option Str := (path.rel.filter (· ≠ [])).getLast?

def PathBuf.display (path : PathBuf) : Str :=
  (path.base.reverse ++ path.rel).flatMap fun part => '/' :: part

/-- Does a name exceed the limit of the file system, if it has one? -/
def exceeds (nameMax : Option Nat) (name : Str) : Bool :=
  match nameMax with
  | none => false
  | some limit => limit < utf8Len name

namespace FS

def node (s : FS) (path : Path) : Option Node := s.nodes.lookup path

/-- What a path shows to a reader: a directory, or a file with its bytes. -/
inductive Entry where
  | dir
  | file (content : Bytes)
  deriving DecidableEq

def look (s : FS) (path : Path) : Option Entry :=
  match s.node path with
  | none => none
  | some .dir => some .dir
  | some (.file inode) => some (.file (s.data inode))

def children (s : FS) (dir : Path) : Finset Str :=
  (s.nodes.keys.filter fun path => path ≠ [] ∧ path.tail = dir).image fun path => path.headD []

/-- Everything below a directory, itself excluded. -/
def below (s : FS) (dir : Path) : Finset Path :=
  s.nodes.keys.filter fun path => dir <:+ path ∧ path ≠ dir

def tooLong (s : FS) (name : Str) : Bool := exceeds s.nameMax name

/-! The four ways in which a name appears, disappears or moves, and the one way in
which contents change. -/

def mkdirAt (s : FS) (path : Path) : FS where
  nodes := s.nodes.insert path .dir
  data := s.data
  nextInode := s.nextInode
  nameMax := s.nameMax
  issued := s.issued
  fresh := by
    intro other inode present
    by_cases same : other = path
    · subst same
      simp at present
    · rw [Finmap.lookup_insert_of_ne _ same] at present
      exact s.fresh other inode present
  unlinked := by
    intro first second inode named again
    by_cases left : first = path
    · subst left
      simp at named
    · by_cases right : second = path
      · subst right
        simp at again
      · rw [Finmap.lookup_insert_of_ne _ left] at named
        rw [Finmap.lookup_insert_of_ne _ right] at again
        exact s.unlinked first second inode named again

def newFile (s : FS) (path : Path) : FS where
  nodes := s.nodes.insert path (.file s.nextInode)
  data := Function.update s.data s.nextInode []
  nextInode := s.nextInode + 1
  nameMax := s.nameMax
  issued := s.issued
  fresh := by
    intro other inode present
    by_cases same : other = path
    · subst same
      simp at present
      omega
    · rw [Finmap.lookup_insert_of_ne _ same] at present
      exact Nat.lt_succ_of_lt (s.fresh other inode present)
  unlinked := by
    intro first second inode named again
    by_cases left : first = path <;> by_cases right : second = path
    · exact left.trans right.symm
    · subst left
      rw [Finmap.lookup_insert] at named
      rw [Finmap.lookup_insert_of_ne _ right] at again
      have old := s.fresh second inode again
      simp at named
      omega
    · subst right
      rw [Finmap.lookup_insert] at again
      rw [Finmap.lookup_insert_of_ne _ left] at named
      have old := s.fresh first inode named
      simp at again
      omega
    · rw [Finmap.lookup_insert_of_ne _ left] at named
      rw [Finmap.lookup_insert_of_ne _ right] at again
      exact s.unlinked first second inode named again

def drop (s : FS) (path : Path) : FS where
  nodes := s.nodes.erase path
  data := s.data
  nextInode := s.nextInode
  nameMax := s.nameMax
  issued := s.issued
  fresh := by
    intro other inode present
    by_cases same : other = path
    · subst same
      simp at present
    · rw [Finmap.lookup_erase_ne same] at present
      exact s.fresh other inode present
  unlinked := by
    intro first second inode named again
    by_cases left : first = path
    · subst left
      simp at named
    · by_cases right : second = path
      · subst right
        simp at again
      · rw [Finmap.lookup_erase_ne left] at named
        rw [Finmap.lookup_erase_ne right] at again
        exact s.unlinked first second inode named again

/-- Give the file of one path another name, replacing what that name was. -/
def move (s : FS) (source target : Path) : FS :=
  match moved : s.nodes.lookup source with
  | some (.file inode) =>
      { nodes := (s.nodes.erase source).insert target (.file inode)
        data := s.data
        nextInode := s.nextInode
        nameMax := s.nameMax
        issued := s.issued
        fresh := by
          intro other old present
          by_cases same : other = target
          · subst same
            simp at present
            subst present
            exact s.fresh source _ moved
          · rw [Finmap.lookup_insert_of_ne _ same] at present
            exact (s.drop source).fresh other old present
        unlinked := by
          -- Only the source named this inode, and the source is gone.
          have gone : ∀ other, (s.nodes.erase source).lookup other ≠ some (.file inode) := by
            intro other named
            by_cases same : other = source
            · subst same
              simp at named
            · rw [Finmap.lookup_erase_ne same] at named
              exact same (s.unlinked other source inode named moved)
          intro first second old named again
          by_cases left : first = target <;> by_cases right : second = target
          · exact left.trans right.symm
          · subst left
            rw [Finmap.lookup_insert] at named
            rw [Finmap.lookup_insert_of_ne _ right] at again
            cases named
            exact absurd again (gone second)
          · subst right
            rw [Finmap.lookup_insert] at again
            rw [Finmap.lookup_insert_of_ne _ left] at named
            cases again
            exact absurd named (gone first)
          · rw [Finmap.lookup_insert_of_ne _ left] at named
            rw [Finmap.lookup_insert_of_ne _ right] at again
            exact (s.drop source).unlinked first second old named again }
  | _ => s

def setData (s : FS) (inode : Nat) (content : Bytes) : FS :=
  { s with data := Function.update s.data inode content }

/-! ### Resolution -/

def walk (s : FS) : Path → List Str → Except Errno Path
  | here, [] => .ok here
  | here, part :: rest =>
      match s.node here with
      | none => .error .ENOENT
      | some (.file _) => .error .ENOTDIR
      | some .dir =>
          if part = [] ∨ part = ['.'] then s.walk here rest
          else if part = ['.', '.'] then s.walk here.tail rest
          else if s.tooLong part then .error .ENAMETOOLONG
          else s.walk (part :: here) rest

/-- A NUL byte never reaches the kernel: the library refuses such a path first. -/
def locate (s : FS) (path : PathBuf) : Except Errno Path :=
  if path.rel.any (fun part => part.contains '\u0000') then .error .EINVAL
  else s.walk path.base path.rel

/-! ### System calls -/

def mkdir (s : FS) (path : PathBuf) : Except Errno Unit × FS :=
  match s.locate path with
  | .error e => (.error e, s)
  | .ok found =>
      match s.node found, s.node found.tail with
      | some _, _ => (.error .EEXIST, s)
      | none, some .dir => (.ok (), s.mkdirAt found)
      | none, some (.file _) => (.error .ENOTDIR, s)
      | none, none => (.error .ENOENT, s)

def «exists» (s : FS) (path : PathBuf) : Bool :=
  match s.locate path with
  | .error _ => false
  | .ok found => (s.node found).isSome

def isDir (s : FS) (path : PathBuf) : Bool :=
  match s.locate path with
  | .error _ => false
  | .ok found => s.node found = some .dir

/-- A path that must be a directory, for the calls that look inside one. -/
def locateDir (s : FS) (path : PathBuf) : Except Errno Path :=
  match s.locate path with
  | .error e => .error e
  | .ok found =>
      match s.node found with
      | some .dir => .ok found
      | some (.file _) => .error .ENOTDIR
      | none => .error .ENOENT

/-- A path that must be a file; a directory is refused where it is opened. -/
def locateFile (s : FS) (path : PathBuf) : Except Errno (Path × Nat) :=
  match s.locate path with
  | .error e => .error e
  | .ok found =>
      match s.node found with
      | some .dir => .error .EISDIR
      | some (.file inode) => .ok (found, inode)
      | none => .error .ENOENT

def unlink (s : FS) (path : PathBuf) : Except Errno Unit × FS :=
  match s.locateFile path with
  | .error e => (.error e, s)
  | .ok (found, _) => (.ok (), s.drop found)

def rmdir (s : FS) (path : PathBuf) : Except Errno Unit × FS :=
  match s.locateDir path with
  | .error e => (.error e, s)
  | .ok found =>
      if path.lastPart = some ['.'] then (.error .EINVAL, s)
      else if path.lastPart = some ['.', '.'] then (.error .ENOTEMPTY, s)
      else if found = [] then (.error .EBUSY, s)
      else if s.children found = ∅ then (.ok (), s.drop found)
      else (.error .ENOTEMPTY, s)

def «open» (s : FS) (path : PathBuf) : Except Errno Nat :=
  (s.locateFile path).map Prod.snd

/-- Rename of a file. (No directory is ever renamed here; that answers `EINVAL`.) -/
def rename (s : FS) (source target : PathBuf) : Except Errno Unit × FS :=
  match s.locate source, s.locate target with
  | .error e, _ => (.error e, s)
  | .ok _, .error e => (.error e, s)
  | .ok old, .ok new =>
      match s.node old, s.node new with
      | none, _ => (.error .ENOENT, s)
      | some .dir, _ => (.error .EINVAL, s)
      | some (.file _), some .dir => (.error .EISDIR, s)
      | some (.file _), _ => (.ok (), s.move old new)

/-- `open` with `O_CREAT | O_TRUNC`. -/
def creat (s : FS) (path : PathBuf) : Except Errno Nat × FS :=
  match s.locate path with
  | .error e => (.error e, s)
  | .ok found =>
      match s.node found with
      | some .dir => (.error .EISDIR, s)
      | some (.file inode) => (.ok inode, s.setData inode [])
      | none =>
          match s.node found.tail with
          | some .dir => (.ok s.nextInode, s.newFile found)
          | some (.file _) => (.error .ENOTDIR, s)
          | none => (.error .ENOENT, s)

def write (s : FS) (handle : Nat) (chunk : Bytes) : FS :=
  s.setData handle (s.data handle ++ chunk)

end FS
end Posix
