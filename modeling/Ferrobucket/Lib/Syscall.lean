import Ferrobucket.Lib.Posix
import Ferrobucket.Lib.Program
/-! The file system as a machine for programs. What a call may answer beyond its
arguments is drawn from a `Choice`: the name of a temporary file, the order of a
directory listing, the clock, and whether the call fails although it need not. -/
namespace Posix
open Text

/-- An open file. -/
abbrev Handle := Nat

structure DirEntry where
  name : Str
  isDir : Bool
  deriving DecidableEq

inductive Call where
  | mkdir (path : PathBuf)
  | exists (path : PathBuf)
  | isDir (path : PathBuf)
  | readDir (path : PathBuf)
  | readTree (path : PathBuf)
  | tempfileIn (dir : PathBuf)
  | creat (path : PathBuf)
  | write (handle : Handle) (chunk : Bytes)
  | flush (handle : Handle)
  | rename (source target : PathBuf)
  | unlink (path : PathBuf)
  | rmdir (path : PathBuf)
  | open (path : PathBuf)
  | read (handle : Handle)
  | uuid
  | now

@[reducible] def Reply : Call → Type
  | .mkdir _ => Except Errno Unit
  | .exists _ => Bool
  | .isDir _ => Bool
  | .readDir _ => Except Errno (List DirEntry)
  | .readTree _ => Except Errno (List (Path × Bool))
  | .tempfileIn _ => Except Errno (PathBuf × Handle)
  | .creat _ => Except Errno Handle
  | .write _ _ => Except Errno Unit
  | .flush _ => Except Errno Unit
  | .rename _ _ => Except Errno Unit
  | .unlink _ => Except Errno Unit
  | .rmdir _ => Except Errno Unit
  | .open _ => Except Errno Handle
  | .read _ => Except Errno Bytes
  | .uuid => Str
  | .now => Nat

structure Choice where
  name : Str := []
  order : List Str := []
  tree : List Path := []
  time : Nat := 0
  fault : Option Errno := none

def isAsciiAlphanumeric (c : Char) : Bool :=
  ('0' ≤ c && c ≤ '9') || ('A' ≤ c && c ≤ 'Z') || ('a' ≤ c && c ≤ 'z')

/-- Temporary names: `.tmp` and six random ASCII alphanumerics. -/
def isTempName (name : Str) : Bool :=
  name.length = 10 && name.take 4 = ['.', 't', 'm', 'p'] && (name.drop 4).all isAsciiAlphanumeric

/-- The text form of a version 4 UUID: 36 characters, hexadecimal digits and hyphens. -/
def isUuid (name : Str) : Bool :=
  name.length = 36 && name.all fun c => ('0' ≤ c && c ≤ '9') || ('a' ≤ c && c ≤ 'f') || c = '-'

/-- What a call answers when it fails; the two tests answer `false` then. -/
def Call.failing : (call : Call) → Errno → Option (Reply call)
  | .mkdir _, e => some (.error e)
  | .exists _, _ => some false
  | .isDir _, _ => some false
  | .readDir _, e => some (.error e)
  | .readTree _, e => some (.error e)
  | .tempfileIn _, e => some (.error e)
  | .creat _, e => some (.error e)
  | .write _ _, e => some (.error e)
  | .flush _, e => some (.error e)
  | .rename _ _, e => some (.error e)
  | .unlink _, e => some (.error e)
  | .rmdir _, e => some (.error e)
  | .open _, e => some (.error e)
  | .read _, e => some (.error e)
  | .uuid, _ => none
  | .now, _ => none

namespace FS

/-- The entries of a directory in the order the kernel happens to give them. -/
def readDir (s : FS) (path : PathBuf) (order : List Str) : Option (Except Errno (List DirEntry)) :=
  match s.locateDir path with
  | .error e => some (.error e)
  | .ok dir =>
      if (order : Multiset Str) = (s.children dir).val then
        some (.ok (order.map fun name => ⟨name, s.node (name :: dir) = some .dir⟩))
      else none

/-- Everything below a directory, contents before the directory that holds them. -/
def readTree (s : FS) (path : PathBuf) (tree : List Path) :
    Option (Except Errno (List (Path × Bool))) :=
  match s.locateDir path with
  | .error e => some (.error e)
  | .ok dir =>
      if (tree : Multiset Path) = (s.below dir).val ∧ tree.Pairwise (fun first later => ¬ first <:+ later)
      then some (.ok (tree.map fun found => (found, s.node found = some .dir)))
      else none

/-- `tempfile`'s `Builder::tempfile_in` followed by `keep`: a new file under a name
that nothing in the directory has. -/
def tempfileIn (s : FS) (dir : PathBuf) (name : Str) :
    Option (Except Errno (PathBuf × Handle) × FS) :=
  if isTempName name then
    match s.locate (dir.join name) with
    | .error e => some (.error e, s)
    | .ok found =>
        match s.node found with
        | some _ => none
        | none => some (.ok (dir.join name, s.nextInode), s.newFile found)
  else none

end FS

def Call.perform : (call : Call) → Choice → FS → Option (Reply call × FS)
  | .mkdir path, _, s => some (s.mkdir path)
  | .exists path, _, s => some (s.exists path, s)
  | .isDir path, _, s => some (s.isDir path, s)
  | .readDir path, choice, s => (s.readDir path choice.order).map fun answer => (answer, s)
  | .readTree path, choice, s => (s.readTree path choice.tree).map fun answer => (answer, s)
  | .tempfileIn dir, choice, s => s.tempfileIn dir choice.name
  | .creat path, _, s => some (s.creat path)
  | .write handle chunk, _, s => some (.ok (), s.write handle chunk)
  | .flush _, _, s => some (.ok (), s)
  | .rename source target, _, s => some (s.rename source target)
  | .unlink path, _, s => some (s.unlink path)
  | .rmdir path, _, s => some (s.rmdir path)
  | .open path, _, s => some (s.open path, s)
  | .read handle, _, s => some (.ok (s.data handle), s)
  | .uuid, choice, s =>
      if isUuid choice.name ∧ choice.name ∉ s.issued then
        some (choice.name, { s with issued := choice.name :: s.issued })
      else none
  | .now, choice, s => some (choice.time, s)

/-- A call that fails for no reason of its own changes nothing. -/
def Call.exec (call : Call) (choice : Choice) (s : FS) : Option (Reply call × FS) :=
  match choice.fault with
  | none => call.perform choice s
  | some e => (call.failing e).map fun answer => (answer, s)

open Program

/-- The machine without faults: calls fail only for reasons of existence and emptiness. -/
def faultFree : Semantics Call Reply FS := fun call before answer after =>
  ∃ choice, call.perform choice before = some (answer, after)

/-- The machine on which any call may also fail. -/
def faulty : Semantics Call Reply FS := fun call before answer after =>
  ∃ choice, call.exec choice before = some (answer, after)

/-! The calls as programs. -/
namespace Sys
variable {Error : Type}

abbrev mkdir (path : PathBuf) : Prog Call Reply Error (Except Errno Unit) := .send (Call.mkdir path)

abbrev «exists» (path : PathBuf) : Prog Call Reply Error Bool := .send (Call.«exists» path)

abbrev isDir (path : PathBuf) : Prog Call Reply Error Bool := .send (Call.isDir path)

abbrev readDir (path : PathBuf) : Prog Call Reply Error (Except Errno (List DirEntry)) :=
  .send (Call.readDir path)

abbrev readTree (path : PathBuf) : Prog Call Reply Error (Except Errno (List (Path × Bool))) :=
  .send (Call.readTree path)

abbrev tempfileIn (dir : PathBuf) : Prog Call Reply Error (Except Errno (PathBuf × Handle)) :=
  .send (Call.tempfileIn dir)

abbrev creat (path : PathBuf) : Prog Call Reply Error (Except Errno Handle) := .send (Call.creat path)

abbrev write (handle : Handle) (chunk : Bytes) : Prog Call Reply Error (Except Errno Unit) :=
  .send (Call.write handle chunk)

abbrev flush (handle : Handle) : Prog Call Reply Error (Except Errno Unit) := .send (Call.flush handle)

abbrev rename (source target : PathBuf) : Prog Call Reply Error (Except Errno Unit) :=
  .send (Call.rename source target)

abbrev unlink (path : PathBuf) : Prog Call Reply Error (Except Errno Unit) := .send (Call.unlink path)

abbrev rmdir (path : PathBuf) : Prog Call Reply Error (Except Errno Unit) := .send (Call.rmdir path)

abbrev «open» (path : PathBuf) : Prog Call Reply Error (Except Errno Handle) := .send (Call.«open» path)

abbrev read (handle : Handle) : Prog Call Reply Error (Except Errno Bytes) := .send (Call.read handle)

abbrev uuid : Prog Call Reply Error Str := .send Call.uuid

abbrev now : Prog Call Reply Error Nat := .send Call.now

end Sys
end Posix
