import Ferrobucket.Lib.Posix
/-! What a reader sees after each change of the file system, and where the path of a
program leads. Every change moves `look` at one or two paths and nowhere else: an
inode has one name, so writing a file cannot show through another. -/
namespace Posix
open Text

/-- A component that resolution takes as it is. -/
def isName (part : Str) : Bool :=
  part ≠ [] && part ≠ ['.'] && part ≠ ['.', '.'] && !part.contains '/' && !part.contains '\u0000'

theorem name_parts {part : Str} (name : isName part = true) :
    part ≠ [] ∧ part ≠ ['.'] ∧ part ≠ ['.', '.'] ∧ '/' ∉ part ∧ '\u0000' ∉ part := by
  simp only [isName, Bool.and_eq_true, decide_eq_true_eq, Bool.not_eq_true'] at name
  obtain ⟨⟨⟨⟨nonempty, dot⟩, dots⟩, slash⟩, nul⟩ := name
  refine ⟨by simpa using nonempty, by simpa using dot, by simpa using dots, ?_, ?_⟩
  · simpa using slash
  · simpa using nul

theorem is_name {part : Str} (nonempty : part ≠ []) (dots : part.head? ≠ some '.')
    (slash : '/' ∉ part) (nul : '\u0000' ∉ part) : isName part = true := by
  have dot : part ≠ ['.'] := by
    rintro rfl
    exact dots rfl
  have twice : part ≠ ['.', '.'] := by
    rintro rfl
    exact dots rfl
  simp [isName, nonempty, dot, twice, slash, nul]

theorem join_name (path : PathBuf) {part : Str} (slash : '/' ∉ part) :
    path.join part = ⟨path.base, path.rel ++ [part]⟩ := by
  have relative : part.head? ≠ some '/' := by
    intro leading
    exact slash (List.mem_of_mem_head? leading)
  have whole : part.splitOn '/' = [part] := List.splitOn_eq_singleton slash
  simp [PathBuf.join, relative, whole]

theorem parent_join (path : PathBuf) {part : Str} (slash : '/' ∉ part) :
    (path.join part).parent = path := by
  rw [join_name path slash]
  cases path with
  | mk base rel =>
      have whole : ∃ first rest, rel ++ [part] = first :: rest :=
        List.exists_cons_of_ne_nil (by simp)
      obtain ⟨first, rest, split⟩ := whole
      simp only [PathBuf.parent, split]
      rw [← split, List.dropLast_concat]

namespace FS

/-! ### The primitives, seen through `node` and `look` -/

@[simp] theorem node_mkdirAt (s : FS) (path : Path) :
    (s.mkdirAt path).node = Function.update s.node path (some .dir) := by
  funext other
  by_cases same : other = path
  · subst same
    simp [node, mkdirAt]
  · simp [node, mkdirAt, same, Finmap.lookup_insert_of_ne]

@[simp] theorem node_newFile (s : FS) (path : Path) :
    (s.newFile path).node = Function.update s.node path (some (.file s.nextInode)) := by
  funext other
  by_cases same : other = path
  · subst same
    simp [node, newFile]
  · simp [node, newFile, same, Finmap.lookup_insert_of_ne]

@[simp] theorem node_drop (s : FS) (path : Path) :
    (s.drop path).node = Function.update s.node path none := by
  funext other
  by_cases same : other = path
  · subst same
    simp [node, drop]
  · simp [node, drop, same, Finmap.lookup_erase_ne]

theorem node_move (s : FS) {source target : Path} {inode : Nat}
    (named : s.node source = some (.file inode)) :
    (s.move source target).node =
      Function.update (Function.update s.node source none) target (some (.file inode)) := by
  have nodes : (s.move source target).nodes = (s.nodes.erase source).insert target (.file inode) := by
    unfold move
    split
    · next other moved =>
        have same : other = inode := by simpa [node, moved] using named
        subst same
        rfl
    · next absent => exact absurd named (absent inode)
  funext other
  unfold node
  rw [nodes]
  by_cases atTarget : other = target
  · subst atTarget
    simp
  · rw [Finmap.lookup_insert_of_ne _ atTarget, Function.update_of_ne atTarget]
    exact congrFun (node_drop s source) other

/-- A move changes names only. -/
theorem move_rest (s : FS) (source target : Path) :
    (s.move source target).data = s.data ∧ (s.move source target).nameMax = s.nameMax ∧
      (s.move source target).issued = s.issued ∧ (s.move source target).nextInode = s.nextInode := by
  unfold move
  split <;> exact ⟨rfl, rfl, rfl, rfl⟩

@[simp] theorem data_move (s : FS) (source target : Path) : (s.move source target).data = s.data :=
  (move_rest s source target).1

@[simp] theorem limit_move (s : FS) (source target : Path) :
    (s.move source target).nameMax = s.nameMax := (move_rest s source target).2.1

@[simp] theorem issued_move (s : FS) (source target : Path) :
    (s.move source target).issued = s.issued := (move_rest s source target).2.2.1

@[simp] theorem next_move (s : FS) (source target : Path) :
    (s.move source target).nextInode = s.nextInode := (move_rest s source target).2.2.2

@[simp] theorem node_setData (s : FS) (inode : Nat) (content : Bytes) :
    (s.setData inode content).node = s.node := rfl

/-! The parts that a primitive does not touch. -/

@[simp] theorem data_mkdirAt (s : FS) (path : Path) : (s.mkdirAt path).data = s.data := rfl

@[simp] theorem data_newFile (s : FS) (path : Path) :
    (s.newFile path).data = Function.update s.data s.nextInode [] := rfl

@[simp] theorem data_drop (s : FS) (path : Path) : (s.drop path).data = s.data := rfl

@[simp] theorem data_setData (s : FS) (inode : Nat) (content : Bytes) :
    (s.setData inode content).data = Function.update s.data inode content := rfl

@[simp] theorem limit_mkdirAt (s : FS) (path : Path) : (s.mkdirAt path).nameMax = s.nameMax := rfl

@[simp] theorem limit_newFile (s : FS) (path : Path) : (s.newFile path).nameMax = s.nameMax := rfl

@[simp] theorem limit_drop (s : FS) (path : Path) : (s.drop path).nameMax = s.nameMax := rfl

@[simp] theorem limit_setData (s : FS) (inode : Nat) (content : Bytes) :
    (s.setData inode content).nameMax = s.nameMax := rfl

@[simp] theorem issued_mkdirAt (s : FS) (path : Path) : (s.mkdirAt path).issued = s.issued := rfl

@[simp] theorem issued_newFile (s : FS) (path : Path) : (s.newFile path).issued = s.issued := rfl

@[simp] theorem issued_drop (s : FS) (path : Path) : (s.drop path).issued = s.issued := rfl

@[simp] theorem issued_setData (s : FS) (inode : Nat) (content : Bytes) :
    (s.setData inode content).issued = s.issued := rfl

/-- What a reader sees, by what is there. -/
theorem look_node (s : FS) (path : Path) :
    (s.node path = none ∧ s.look path = none) ∨ (s.node path = some .dir ∧ s.look path = some .dir) ∨
      ∃ inode, s.node path = some (.file inode) ∧ s.look path = some (.file (s.data inode)) := by
  unfold look
  cases named : s.node path with
  | none => exact .inl ⟨rfl, rfl⟩
  | some node =>
      cases node with
      | dir => exact .inr (.inl ⟨rfl, rfl⟩)
      | file inode => exact .inr (.inr ⟨inode, rfl, rfl⟩)

theorem look_dir {s : FS} {path : Path} : s.look path = some .dir ↔ s.node path = some .dir := by
  rcases look_node s path with ⟨node, seen⟩ | ⟨node, seen⟩ | ⟨inode, node, seen⟩ <;> simp [node, seen]

theorem look_none {s : FS} {path : Path} : s.look path = none ↔ s.node path = none := by
  rcases look_node s path with ⟨node, seen⟩ | ⟨node, seen⟩ | ⟨inode, node, seen⟩ <;> simp [node, seen]

theorem look_file {s : FS} {path : Path} {content : Bytes} :
    s.look path = some (.file content) ↔
      ∃ inode, s.node path = some (.file inode) ∧ s.data inode = content := by
  rcases look_node s path with ⟨node, seen⟩ | ⟨node, seen⟩ | ⟨inode, node, seen⟩ <;> simp [node, seen]

theorem look_isSome {s : FS} {path : Path} : (s.look path).isSome = (s.node path).isSome := by
  rcases look_node s path with ⟨node, seen⟩ | ⟨node, seen⟩ | ⟨inode, node, seen⟩ <;> simp [node, seen]

@[simp] theorem look_mkdirAt (s : FS) (path : Path) :
    (s.mkdirAt path).look = Function.update s.look path (some .dir) := by
  funext other
  by_cases same : other = path
  · subst same
    simp [look]
  · simp only [look, node_mkdirAt, Function.update_of_ne same]
    rfl

/-- A directory stays one when another is made. -/
theorem mkdirAt_kept {s : FS} {path : Path} (made : Path) (inside : s.look path = some .dir) :
    (s.mkdirAt made).look path = some .dir := by
  rw [look_mkdirAt]
  by_cases same : path = made
  · subst same
    simp
  · rw [Function.update_of_ne same, inside]

/-- The new inode was not referenced, so emptying it shows nowhere else. -/
@[simp] theorem look_newFile (s : FS) (path : Path) :
    (s.newFile path).look = Function.update s.look path (some (.file [])) := by
  funext other
  by_cases same : other = path
  · subst same
    simp [look]
  · simp only [look, node_newFile, Function.update_of_ne same]
    cases named : s.node other with
    | none => rfl
    | some found =>
        cases found with
        | dir => rfl
        | file inode =>
            have old := s.fresh other inode named
            have different : inode ≠ s.nextInode := by omega
            simp [different]

@[simp] theorem look_drop (s : FS) (path : Path) :
    (s.drop path).look = Function.update s.look path none := by
  funext other
  by_cases same : other = path
  · subst same
    simp [look]
  · simp only [look, node_drop, Function.update_of_ne same]
    rfl

theorem look_move (s : FS) {source : Path} (target : Path) {content : Bytes}
    (found : s.look source = some (.file content)) :
    (s.move source target).look =
      Function.update (Function.update s.look source none) target (some (.file content)) := by
  obtain ⟨inode, named, held⟩ := look_file.mp found
  funext other
  by_cases atTarget : other = target
  · subst atTarget
    simp [look, node_move s named, data_move, held]
  · by_cases atSource : other = source
    · subst atSource
      simp [look, node_move s named, atTarget]
    · simp [look, node_move s named, data_move, atTarget, atSource]

/-- Writing to an inode shows at its one name. -/
theorem look_setData (s : FS) {path : Path} {inode : Nat}
    (named : s.node path = some (.file inode)) (content : Bytes) :
    (s.setData inode content).look = Function.update s.look path (some (.file content)) := by
  funext other
  by_cases same : other = path
  · subst same
    simp [look, named]
  · simp only [look, node_setData, Function.update_of_ne same]
    cases also : s.node other with
    | none => rfl
    | some found =>
        cases found with
        | dir => rfl
        | file another =>
            have different : another ≠ inode := by
              rintro rfl
              exact same (s.unlinked other path another also named)
            simp [different]

theorem mem_children {s : FS} {dir : Path} {name : Str} :
    name ∈ s.children dir ↔ s.node (name :: dir) ≠ none := by
  unfold children node
  simp only [Finset.mem_image, Finset.mem_filter, Finmap.mem_keys, Finmap.mem_iff]
  constructor
  · rintro ⟨path, ⟨⟨found, named⟩, nonempty, inside⟩, rfl⟩
    cases path with
    | nil => exact absurd rfl nonempty
    | cons head tail =>
        simp only [List.tail_cons] at inside
        subst inside
        simp [named]
  · intro named
    obtain ⟨found, named⟩ := Option.ne_none_iff_exists'.mp named
    exact ⟨name :: dir, ⟨⟨found, named⟩, by simp, rfl⟩, rfl⟩

theorem children_empty {s : FS} {dir : Path} :
    s.children dir = ∅ ↔ ∀ name, s.look (name :: dir) = none := by
  rw [Finset.eq_empty_iff_forall_notMem]
  simp only [mem_children, not_not, look_none]

theorem mem_below {s : FS} {dir path : Path} :
    path ∈ s.below dir ↔ s.node path ≠ none ∧ dir <:+ path ∧ path ≠ dir := by
  unfold below node
  simp only [Finset.mem_filter, Finmap.mem_keys, Finmap.mem_iff, Option.ne_none_iff_exists']

/-- Everything that is there lies in a directory. -/
def Tree (s : FS) : Prop := ∀ path, path ≠ [] → s.look path ≠ none → s.look path.tail = some .dir

theorem tree_absent {s : FS} (tree : s.Tree) {dir : Path} (absent : s.look dir ≠ some .dir)
    (name : Str) : s.look (name :: dir) = none := by
  by_contra there
  exact absent (tree (name :: dir) (List.cons_ne_nil _ _) there)

theorem tree_childless {s : FS} (tree : s.Tree) {path : Path} {content : Bytes}
    (file : s.look path = some (.file content)) (name : Str) : s.look (name :: path) = none :=
  tree_absent tree (by simp [file]) name

/-- What is added goes into a directory. -/
theorem tree_added {s after : FS} (tree : s.Tree) {path : Path} {entry : Entry}
    (seen : after.look = Function.update s.look path (some entry))
    (inside : s.look path.tail = some .dir) (free : s.look path = some .dir → entry = .dir) :
    after.Tree := by
  have dirs : ∀ dir, s.look dir = some .dir → after.look dir = some .dir := by
    intro dir before
    rw [seen]
    by_cases same : dir = path
    · subst same
      rw [Function.update_self, free before]
    · rw [Function.update_of_ne same, before]
  intro other below there
  apply dirs
  by_cases same : other = path
  · rwa [same]
  · apply tree other below
    rwa [seen, Function.update_of_ne same] at there

/-- What is removed has nothing in it. -/
theorem tree_removed {s after : FS} (tree : s.Tree) {path : Path}
    (seen : after.look = Function.update s.look path none)
    (empty : ∀ name, s.look (name :: path) = none) : after.Tree := by
  intro other below there
  rw [seen] at there ⊢
  by_cases same : other = path
  · subst same
    exact absurd (Function.update_self _ _ _) there
  · rw [Function.update_of_ne same] at there
    have parent : other.tail ≠ path := by
      rintro rfl
      cases other with
      | nil => exact below rfl
      | cons name rest => exact there (empty name)
    rw [Function.update_of_ne parent]
    exact tree other below there

/-- Contents do not make a tree. -/
theorem tree_setData {s : FS} {inode : Nat} {content : Bytes} (tree : s.Tree) :
    (s.setData inode content).Tree := by
  have dirs : ∀ path, s.look path = some .dir → (s.setData inode content).look path = some .dir := by
    intro path inside
    have named : s.node path = some .dir := look_dir.mp inside
    exact look_dir.mpr named
  intro path below there
  apply dirs
  apply tree path below
  intro absent
  have unnamed : s.node path = none := look_none.mp absent
  exact there (look_none.mpr unnamed)

theorem tree_moved {s : FS} (tree : s.Tree) {source target : Path} {content : Bytes}
    (file : s.look source = some (.file content)) (inside : s.look target.tail = some .dir)
    (free : s.look target ≠ some .dir) : (s.move source target).Tree := by
  have dropped : (s.drop source).Tree :=
    tree_removed tree (look_drop s source) (tree_childless tree file)
  have other : target.tail ≠ source := by
    rintro rfl
    rw [file] at inside
    cases inside
  have seen : (s.move source target).look =
      Function.update (s.drop source).look target (some (.file content)) := by
    rw [look_move s target file, look_drop]
  apply tree_added dropped seen
  · rwa [look_drop, Function.update_of_ne other]
  · intro inside
    rw [look_drop] at inside
    by_cases same : target = source
    · subst same
      rw [Function.update_self] at inside
      cases inside
    · rw [Function.update_of_ne same] at inside
      exact absurd inside free

/-! ### Resolution -/

@[simp] theorem walk_nil (s : FS) (here : Path) : s.walk here [] = .ok here := rfl

/-- One step of resolution, by what stands at the place it has come to. -/
theorem walk_cons (s : FS) (here : Path) (part : Str) (rest : List Str) :
    (s.look here = none → s.walk here (part :: rest) = .error .ENOENT) ∧
      (∀ content, s.look here = some (.file content) →
        s.walk here (part :: rest) = .error .ENOTDIR) ∧
      (s.look here = some .dir → s.walk here (part :: rest) =
        if part = [] ∨ part = ['.'] then s.walk here rest
        else if part = ['.', '.'] then s.walk here.tail rest
        else if s.tooLong part then .error .ENAMETOOLONG else s.walk (part :: here) rest) := by
  refine ⟨?_, ?_, ?_⟩
  · intro absent
    rw [walk, look_none.mp absent]
  · intro content file
    obtain ⟨inode, named, _⟩ := look_file.mp file
    rw [walk, named]
  · intro inside
    rw [walk, look_dir.mp inside]

theorem walk_absent {s : FS} {here : Path} (part : Str) (rest : List Str)
    (absent : s.look here = none) : s.walk here (part :: rest) = .error .ENOENT :=
  (walk_cons s here part rest).1 absent

theorem walk_file {s : FS} {here : Path} {content : Bytes} (part : Str) (rest : List Str)
    (file : s.look here = some (.file content)) : s.walk here (part :: rest) = .error .ENOTDIR :=
  (walk_cons s here part rest).2.1 content file

theorem walk_dir {s : FS} {here : Path} (part : Str) (rest : List Str)
    (inside : s.look here = some .dir) : s.walk here (part :: rest) =
      if part = [] ∨ part = ['.'] then s.walk here rest
      else if part = ['.', '.'] then s.walk here.tail rest
      else if s.tooLong part then .error .ENAMETOOLONG else s.walk (part :: here) rest :=
  (walk_cons s here part rest).2.2 inside

theorem walk_name {s : FS} {here : Path} {part : Str} (rest : List Str)
    (inside : s.look here = some .dir) (name : isName part = true)
    (short : s.tooLong part = false) : s.walk here (part :: rest) = s.walk (part :: here) rest := by
  obtain ⟨nonempty, dot, dots, _, _⟩ := name_parts name
  simp [walk_dir part rest inside, nonempty, dot, dots, short]

theorem walk_too_long {s : FS} {here : Path} {part : Str} (rest : List Str)
    (inside : s.look here = some .dir) (name : isName part = true)
    (long : s.tooLong part = true) : s.walk here (part :: rest) = .error .ENAMETOOLONG := by
  obtain ⟨nonempty, dot, dots, _, _⟩ := name_parts name
  simp [walk_dir part rest inside, nonempty, dot, dots, long]

theorem walk_stay {s : FS} {here : Path} (rest : List Str) (inside : s.look here = some .dir) :
    s.walk here ([] :: rest) = s.walk here rest := by
  simp [walk_dir [] rest inside]

theorem walk_append (s : FS) (here : Path) (front back : List Str) :
    s.walk here (front ++ back) = (s.walk here front).bind fun found => s.walk found back := by
  induction front generalizing here with
  | nil => rfl
  | cons part rest ih =>
      rw [List.cons_append]
      cases seen : s.look here with
      | none =>
          rw [walk_absent part rest seen, walk_absent part _ seen]
          rfl
      | some entry =>
          cases entry with
          | file content =>
              rw [walk_file part rest seen, walk_file part _ seen]
              rfl
          | dir =>
              rw [walk_dir part rest seen, walk_dir part _ seen]
              split_ifs
              · exact ih here
              · exact ih here.tail
              · rfl
              · exact ih (part :: here)

/-- Resolution only reads directories, so it survives every change that keeps them. -/
theorem walk_kept {s after : FS} {here found : Path} {parts : List Str}
    (kept : ∀ path, s.look path = some .dir → after.look path = some .dir)
    (limit : after.nameMax = s.nameMax) (walked : s.walk here parts = .ok found) :
    after.walk here parts = .ok found := by
  induction parts generalizing here with
  | nil => exact walked
  | cons part rest ih =>
      cases seen : s.look here with
      | none =>
          rw [walk_absent part rest seen] at walked
          cases walked
      | some entry =>
          cases entry with
          | file content =>
              rw [walk_file part rest seen] at walked
              cases walked
          | dir =>
              have same : after.tooLong part = s.tooLong part := by simp [tooLong, limit]
              rw [walk_dir part rest seen] at walked
              rw [walk_dir part rest (kept here seen), same]
              split_ifs at walked ⊢
              · exact ih walked
              · exact ih walked
              · exact ih walked

theorem locate_kept {s after : FS} {path : PathBuf} {found : Path}
    (kept : ∀ path, s.look path = some .dir → after.look path = some .dir)
    (limit : after.nameMax = s.nameMax) (located : s.locate path = .ok found) :
    after.locate path = .ok found := by
  unfold locate at located ⊢
  split_ifs at located ⊢
  exact walk_kept kept limit located

theorem locate_walk {s : FS} {path : PathBuf}
    (clean : ∀ part ∈ path.rel, '\u0000' ∉ part) : s.locate path = s.walk path.base path.rel := by
  unfold locate
  split
  · next dirty =>
      obtain ⟨part, member, nul⟩ := List.any_eq_true.mp dirty
      exact absurd (by simpa using nul) (clean part member)
  · rfl

/-- Ordinary names only lead further down. -/
theorem walk_names {s : FS} {here found : Path} {parts : List Str}
    (names : ∀ part ∈ parts, isName part = true) (walked : s.walk here parts = .ok found) :
    found = parts.reverse ++ here := by
  induction parts generalizing here with
  | nil => exact (Except.ok.inj walked).symm
  | cons part rest ih =>
      obtain ⟨nonempty, dot, dots, _⟩ := name_parts (names part List.mem_cons_self)
      cases seen : s.look here with
      | none =>
          rw [walk_absent part rest seen] at walked
          cases walked
      | some entry =>
          cases entry with
          | file content =>
              rw [walk_file part rest seen] at walked
              cases walked
          | dir =>
              simp only [walk_dir part rest seen, nonempty, dot, dots, or_self, if_false] at walked
              split_ifs at walked
              rw [ih (fun other member => names other (List.mem_cons_of_mem part member)) walked]
              simp

theorem locate_names {s : FS} {path : PathBuf} {found : Path}
    (names : ∀ part ∈ path.rel, isName part = true) (located : s.locate path = .ok found) :
    found = path.rel.reverse ++ path.base := by
  unfold locate at located
  split_ifs at located
  exact walk_names names located

theorem locate_nul (s : FS) {path : PathBuf} {part : Str} (member : part ∈ path.rel)
    (nul : '\u0000' ∈ part) : s.locate path = .error .EINVAL := by
  unfold locate
  rw [if_pos]
  exact List.any_eq_true.mpr ⟨part, member, List.contains_iff_mem.mpr nul⟩

theorem locate_part {s : FS} (path : PathBuf) {part : Str} (slash : '/' ∉ part)
    (nul : '\u0000' ∉ part) :
    s.locate (path.join part) = (s.locate path).bind fun found => s.walk found [part] := by
  rw [join_name path slash]
  unfold locate
  simp only [List.any_append, List.any_cons, List.any_nil]
  have clean : part.contains '\u0000' = false := by simpa using nul
  simp only [clean, Bool.or_false]
  split
  · rfl
  · exact s.walk_append path.base path.rel [part]

theorem locate_join {s : FS} (path : PathBuf) {name : Str} (good : isName name = true) :
    s.locate (path.join name) = (s.locate path).bind fun found => s.walk found [name] := by
  obtain ⟨_, _, _, slash, nul⟩ := name_parts good
  exact locate_part path slash nul

theorem locate_name {s : FS} {path : PathBuf} {found : Path} {name : Str}
    (located : s.locate path = .ok found) (inside : s.look found = some .dir)
    (good : isName name = true) (short : s.tooLong name = false) :
    s.locate (path.join name) = .ok (name :: found) := by
  rw [locate_join path good, located]
  simp [Except.bind, walk_name [] inside good short]

theorem locate_name_long {s : FS} {path : PathBuf} {found : Path} {name : Str}
    (located : s.locate path = .ok found) (inside : s.look found = some .dir)
    (good : isName name = true) (long : s.tooLong name = true) :
    s.locate (path.join name) = .error .ENAMETOOLONG := by
  rw [locate_join path good, located]
  simp [Except.bind, walk_too_long [] inside good long]

theorem locate_name_absent {s : FS} {path : PathBuf} {found : Path} {name : Str}
    (located : s.locate path = .ok found) (absent : s.look found = none)
    (good : isName name = true) : s.locate (path.join name) = .error .ENOENT := by
  rw [locate_join path good, located]
  exact walk_absent name [] absent

theorem locate_name_file {s : FS} {path : PathBuf} {found : Path} {name : Str} {content : Bytes}
    (located : s.locate path = .ok found) (file : s.look found = some (.file content))
    (good : isName name = true) : s.locate (path.join name) = .error .ENOTDIR := by
  rw [locate_join path good, located]
  exact walk_file name [] file

theorem locate_name_lost {s : FS} {path : PathBuf} {name : Str} {e : Errno}
    (lost : s.locate path = .error e) (good : isName name = true) :
    s.locate (path.join name) = .error e := by
  rw [locate_join path good, lost]
  rfl

section Calls
variable {s : FS} {path : PathBuf} {found : Path} {content : Bytes} {e : Errno}

/-! ### What each call answers where its path leads nowhere -/

theorem mkdir_lost (lost : s.locate path = .error e) : s.mkdir path = (.error e, s) := by
  simp [mkdir, lost]

theorem exists_lost (lost : s.locate path = .error e) : s.exists path = false := by
  simp [«exists», lost]

theorem locateDir_lost (lost : s.locate path = .error e) : s.locateDir path = .error e := by
  simp [locateDir, lost]

theorem unlink_lost (lost : s.locate path = .error e) : s.unlink path = (.error e, s) := by
  simp [unlink, locateFile, lost]

theorem rmdir_lost (lost : s.locateDir path = .error e) : s.rmdir path = (.error e, s) := by
  simp [rmdir, lost]

theorem open_lost (lost : s.locate path = .error e) : s.open path = .error e := by
  simp [«open», locateFile, lost, Except.map]

theorem rename_lost {target : PathBuf} (located : s.locate path = .ok found)
    (lost : s.locate target = .error e) : s.rename path target = (.error e, s) := by
  simp [rename, located, lost]

/-! ### What each call does, once its path is resolved -/

theorem mkdir_new (located : s.locate path = .ok found) (absent : s.look found = none)
    (inside : s.look found.tail = some .dir) : s.mkdir path = (.ok (), s.mkdirAt found) := by
  simp [mkdir, located, look_none.mp absent, look_dir.mp inside]

theorem mkdir_present (located : s.locate path = .ok found) (present : s.look found ≠ none) :
    s.mkdir path = (.error .EEXIST, s) := by
  obtain ⟨node, named⟩ := Option.ne_none_iff_exists'.mp (mt look_none.mpr present)
  simp [mkdir, located, named]

theorem mkdir_orphan (located : s.locate path = .ok found) (absent : s.look found = none)
    (outside : s.look found.tail ≠ some .dir) : ∃ e, s.mkdir path = (.error e, s) := by
  have parent : s.node found.tail ≠ some .dir := fun inside => outside (look_dir.mpr inside)
  unfold mkdir
  simp only [located, look_none.mp absent]
  cases named : s.node found.tail with
  | none => exact ⟨_, rfl⟩
  | some node =>
      cases node with
      | dir => exact absurd named parent
      | file inode => exact ⟨_, rfl⟩

theorem exists_located (located : s.locate path = .ok found) :
    s.exists path = (s.look found).isSome := by
  simp [«exists», located, look_isSome]

theorem isDir_located (located : s.locate path = .ok found) (inside : s.look found = some .dir) :
    s.isDir path = true := by
  simp [isDir, located, look_dir.mp inside]

theorem locateDir_dir (located : s.locate path = .ok found) (inside : s.look found = some .dir) :
    s.locateDir path = .ok found := by
  simp [locateDir, located, look_dir.mp inside]

theorem locateDir_absent (located : s.locate path = .ok found) (absent : s.look found = none) :
    s.locateDir path = .error .ENOENT := by
  simp [locateDir, located, look_none.mp absent]

theorem locateDir_file (located : s.locate path = .ok found)
    (file : s.look found = some (.file content)) : s.locateDir path = .error .ENOTDIR := by
  obtain ⟨inode, named, _⟩ := look_file.mp file
  simp [locateDir, located, named]

theorem locateDir_found (located : s.locateDir path = .ok found) :
    s.locate path = .ok found ∧ s.look found = some .dir := by
  cases resolved : s.locate path with
  | error e =>
      rw [locateDir_lost resolved] at located
      cases located
  | ok place =>
      rcases look_node s place with ⟨_, seen⟩ | ⟨_, seen⟩ | ⟨inode, _, seen⟩
      · rw [locateDir_absent resolved seen] at located
        cases located
      · rw [locateDir_dir resolved seen] at located
        cases located
        exact ⟨rfl, seen⟩
      · rw [locateDir_file resolved seen] at located
        cases located

theorem locateDir_ok (located : s.locateDir path = .ok found) : s.locate path = .ok found :=
  (locateDir_found located).1

theorem locateFile_found {inode : Nat} (located : s.locateFile path = .ok (found, inode)) :
    s.locate path = .ok found ∧ s.node found = some (.file inode) := by
  unfold locateFile at located
  split at located
  · cases located
  · next place here =>
      split at located <;> cases located
      next named => exact ⟨here, named⟩

theorem locateFile_ok {inode : Nat} (located : s.locateFile path = .ok (found, inode)) :
    s.locate path = .ok found := (locateFile_found located).1

theorem unlink_file (located : s.locate path = .ok found)
    (file : s.look found = some (.file content)) : s.unlink path = (.ok (), s.drop found) := by
  obtain ⟨inode, named, _⟩ := look_file.mp file
  simp [unlink, locateFile, located, named]

theorem unlink_absent (located : s.locate path = .ok found) (absent : s.look found = none) :
    s.unlink path = (.error .ENOENT, s) := by
  simp [unlink, locateFile, located, look_none.mp absent]

theorem unlink_dir (located : s.locate path = .ok found) (inside : s.look found = some .dir) :
    s.unlink path = (.error .EISDIR, s) := by
  simp [unlink, locateFile, located, look_dir.mp inside]

theorem rmdir_empty (located : s.locateDir path = .ok found)
    (plain : path.lastPart ≠ some ['.'] ∧ path.lastPart ≠ some ['.', '.']) (below : found ≠ [])
    (empty : ∀ name, s.look (name :: found) = none) : s.rmdir path = (.ok (), s.drop found) := by
  simp [rmdir, located, plain.1, plain.2, below, children_empty.mpr empty]

theorem rmdir_full (located : s.locateDir path = .ok found)
    (plain : path.lastPart ≠ some ['.'] ∧ path.lastPart ≠ some ['.', '.']) (below : found ≠ [])
    (full : ∃ name, s.look (name :: found) ≠ none) :
    s.rmdir path = (.error .ENOTEMPTY, s) := by
  have entries : s.children found ≠ ∅ := by
    intro empty
    obtain ⟨name, present⟩ := full
    exact present (children_empty.mp empty name)
  simp [rmdir, located, plain.1, plain.2, below, entries]

theorem open_file {inode : Nat} (located : s.locate path = .ok found)
    (named : s.node found = some (.file inode)) : s.open path = .ok inode := by
  simp [«open», locateFile, located, named, Except.map]

theorem open_absent (located : s.locate path = .ok found) (absent : s.look found = none) :
    s.open path = .error .ENOENT := by
  simp [«open», locateFile, located, look_none.mp absent, Except.map]

theorem open_dir (located : s.locate path = .ok found) (directory : s.look found = some .dir) :
    s.open path = .error .EISDIR := by
  simp [«open», locateFile, located, look_dir.mp directory, Except.map]

theorem rename_file {target : PathBuf} {new : Path} (located : s.locate path = .ok found)
    (placed : s.locate target = .ok new) (file : s.look found = some (.file content))
    (free : s.look new ≠ some .dir) : s.rename path target = (.ok (), s.move found new) := by
  obtain ⟨inode, named, _⟩ := look_file.mp file
  have other : s.node new ≠ some .dir := mt look_dir.mpr free
  simp only [rename, located, placed, named]

theorem rename_onto_dir {target : PathBuf} {new : Path} (located : s.locate path = .ok found)
    (placed : s.locate target = .ok new) (file : s.look found = some (.file content))
    (inside : s.look new = some .dir) : s.rename path target = (.error .EISDIR, s) := by
  obtain ⟨inode, named, _⟩ := look_file.mp file
  simp [rename, located, placed, named, look_dir.mp inside]

theorem creat_new (located : s.locate path = .ok found) (absent : s.look found = none)
    (inside : s.look found.tail = some .dir) :
    s.creat path = (.ok s.nextInode, s.newFile found) := by
  simp [creat, located, look_none.mp absent, look_dir.mp inside]

end Calls

end FS
end Posix
