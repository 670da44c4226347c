import Mathlib.Data.List.Nodup
import Ferrobucket.Lib.Lexical
import Ferrobucket.Lib.Program
/-! Folders made of flat names. A delimiter cuts a name at its first occurrence, then the
rest at its first occurrence, and so on; what stands before the last cut is the folder of the
name. A walk that lists one level at a time and goes down every label meets each name in its
folder, once. -/
namespace Folders
open Lexical Program

variable {Symbol : Type} [DecidableEq Symbol]

/-- The text up to and including the last delimiter, found by cutting at the first ones. -/
def folderOf (pattern text : List Symbol) : List Symbol :=
  match _found : upTo pattern text with
  | none => []
  | some segment =>
      if _empty : segment = [] then []
      else segment ++ folderOf pattern (text.drop segment.length)
termination_by text.length
decreasing_by
  have begins := (upTo_begins _found).length_le
  have positive := List.length_pos_iff.mpr _empty
  rw [List.length_drop]
  omega

theorem folder_none {pattern text : List Symbol} (apart : ¬ pattern <:+: text) :
    folderOf pattern text = [] := by
  have nothing := (upTo_none_iff pattern text).mpr apart
  unfold folderOf
  split
  · rfl
  · next segment found =>
      rw [nothing] at found
      cases found

omit [DecidableEq Symbol] in
/-- What a first occurrence ends is not empty, because it ends with the pattern. -/
theorem segment_nonempty {pattern text segment : List Symbol} (proper : pattern ≠ [])
    (first : UpToFirst pattern text segment) : segment ≠ [] := by
  rintro rfl
  exact proper (List.suffix_nil.mp first.ends)

theorem folder_cut {pattern segment rest : List Symbol} (proper : pattern ≠ [])
    (first : UpToFirst pattern (segment ++ rest) segment) :
    folderOf pattern (segment ++ rest) = segment ++ folderOf pattern rest := by
  have cut := (upTo_iff pattern (segment ++ rest) segment).mpr first
  have some := segment_nonempty proper first
  rw [folderOf]
  split
  · next nothing =>
      rw [cut] at nothing
      cases nothing
  · next other found =>
      rw [cut] at found
      obtain rfl := Option.some.inj found
      rw [dif_neg some, List.drop_left]

/-! ### One level -/

/-- What a listing below a prefix shows: names without a further delimiter, and the labels of
the others. -/
structure Level (stored : List Symbol → Prop) (pattern pfx : List Symbol)
    (keys labels : List (List Symbol)) : Prop where
  listed : ∀ key, key ∈ keys ↔ stored key ∧ ∃ rest, key = pfx ++ rest ∧ ¬ pattern <:+: rest
  labelled : ∀ label, label ∈ labels ↔ ∃ key, stored key ∧ ∃ rest segment, key = pfx ++ rest ∧
    UpToFirst pattern rest segment ∧ label = pfx ++ segment
  once : keys.Nodup
  distinct : labels.Nodup

/-- A folder as it is seen on the way. -/
structure Folder (Symbol : Type) where
  pfx : List Symbol
  keys : List (List Symbol)
  labels : List (List Symbol)

/-- The folders below a prefix: each stored name with the prefix once, in its folder. -/
structure Walked (stored : List Symbol → Prop) (pattern pfx : List Symbol)
    (folders : List (Folder Symbol)) : Prop where
  met : ∀ key, key ∈ folders.flatMap Folder.keys ↔ stored key ∧ pfx <+: key
  once : (folders.flatMap Folder.keys).Nodup
  placed : ∀ folder ∈ folders, ∀ key ∈ folder.keys, ∃ rest, key = pfx ++ rest ∧
    folder.pfx = pfx ++ folderOf pattern rest
  filled : ∀ folder ∈ folders, folder.pfx = pfx ∨ folder.keys ≠ [] ∨ folder.labels ≠ []
  inhabited : (∃ key, stored key ∧ pfx <+: key) →
    ∀ folder ∈ folders, folder.keys ≠ [] ∨ folder.labels ≠ []

section Levels
variable {stored : List Symbol → Prop} {pattern pfx : List Symbol} {keys labels : List (List Symbol)}

/-- Two labels above one name are the same label. -/
theorem label_unique {first second key : List Symbol} (level : Level stored pattern pfx keys labels)
    (one : first ∈ labels) (two : second ∈ labels) (below : first <+: key) (again : second <+: key) :
    first = second := by
  obtain ⟨_, _, rest, segment, _, cut, rfl⟩ := (level.labelled first).mp one
  obtain ⟨_, _, other, portion, _, part, rfl⟩ := (level.labelled second).mp two
  obtain ⟨behind, rfl⟩ := below
  rw [List.append_assoc] at again
  have inside : portion <+: segment ++ behind := (List.prefix_append_right_inj pfx).mp again
  have here := upTo_of_prefix ((upTo_iff pattern rest segment).mpr cut) (List.prefix_append segment behind)
  have there := upTo_of_prefix ((upTo_iff pattern other portion).mpr part) inside
  rw [here] at there
  rw [Option.some.inj there]

omit [DecidableEq Symbol] in
/-- A name that is listed on a level is below none of its labels. -/
theorem key_not_below {key label : List Symbol} (level : Level stored pattern pfx keys labels)
    (listed : key ∈ keys) (among : label ∈ labels) : ¬ label <+: key := by
  intro below
  obtain ⟨_, rest, rfl, apart⟩ := (level.listed key).mp listed
  obtain ⟨_, _, other, segment, _, cut, rfl⟩ := (level.labelled label).mp among
  have inside : segment <+: rest := (List.prefix_append_right_inj pfx).mp below
  exact apart (cut.ends.isInfix.trans inside.isInfix)

/-- A stored name is on the level or below one of its labels. -/
theorem listed_or_below {rest : List Symbol} (level : Level stored pattern pfx keys labels)
    (there : stored (pfx ++ rest)) :
    (pfx ++ rest ∈ keys ∧ ¬ pattern <:+: rest) ∨
      ∃ segment behind, rest = segment ++ behind ∧ UpToFirst pattern rest segment ∧
        pfx ++ segment ∈ labels := by
  by_cases contained : pattern <:+: rest
  · right
    cases found : upTo pattern rest with
    | none => exact absurd contained ((upTo_none_iff pattern rest).mp found)
    | some segment =>
        have cut := (upTo_iff pattern rest segment).mp found
        obtain ⟨behind, whole⟩ := cut.starts
        exact ⟨segment, behind, whole.symm, cut,
          (level.labelled _).mpr ⟨_, there, rest, segment, rfl, cut, rfl⟩⟩
  · exact .inl ⟨(level.listed _).mpr ⟨there, rest, rfl, contained⟩, contained⟩

omit [DecidableEq Symbol] in
/-- Something is stored below a label. -/
theorem label_inhabited {label : List Symbol} (level : Level stored pattern pfx keys labels)
    (among : label ∈ labels) : ∃ key, stored key ∧ label <+: key := by
  obtain ⟨_, there, rest, segment, rfl, cut, rfl⟩ := (level.labelled label).mp among
  exact ⟨_, there, (List.prefix_append_right_inj pfx).mpr cut.starts⟩

/-- The walks below the labels of a level, together. -/
structure WalkedEach (stored : List Symbol → Prop) (pattern : List Symbol) (labels : List (List Symbol))
    (folders : List (Folder Symbol)) : Prop where
  met : ∀ key, key ∈ folders.flatMap Folder.keys ↔ stored key ∧ ∃ label ∈ labels, label <+: key
  once : (folders.flatMap Folder.keys).Nodup
  placed : ∀ folder ∈ folders, ∀ key ∈ folder.keys, ∃ label ∈ labels, ∃ rest, key = label ++ rest ∧
    folder.pfx = label ++ folderOf pattern rest
  filled : ∀ folder ∈ folders, folder.keys ≠ [] ∨ folder.labels ≠ []

theorem walked_none : WalkedEach stored pattern [] [] :=
  ⟨by simp, List.nodup_nil, by simp, by simp⟩

theorem walked_cons {label : List Symbol} {rest : List (List Symbol)} {first later : List (Folder Symbol)}
    (walked : Walked stored pattern label first) (others : WalkedEach stored pattern rest later)
    (reached : ∃ key, stored key ∧ label <+: key)
    (apart : ∀ other ∈ rest, ∀ key, label <+: key → ¬ other <+: key) :
    WalkedEach stored pattern (label :: rest) (first ++ later) := by
  constructor
  · intro key
    rw [List.flatMap_append, List.mem_append, walked.met, others.met]
    simp only [List.mem_cons, exists_eq_or_imp]
    tauto
  · rw [List.flatMap_append]
    refine List.nodup_append'.mpr ⟨walked.once, others.once, ?_⟩
    intro key here there
    obtain ⟨_, begins⟩ := (walked.met key).mp here
    obtain ⟨_, other, member, again⟩ := (others.met key).mp there
    exact apart other member key begins again
  · intro folder member key inside
    rcases List.mem_append.mp member with here | there
    · exact ⟨label, List.mem_cons_self, walked.placed folder here key inside⟩
    · obtain ⟨other, among, place⟩ := others.placed folder there key inside
      exact ⟨other, List.mem_cons_of_mem label among, place⟩
  · intro folder member
    rcases List.mem_append.mp member with here | there
    · exact walked.inhabited reached folder here
    · exact others.filled folder there

/-- A level with the walks below its labels is the walk below its prefix. -/
theorem walked_level {folders : List (Folder Symbol)} (proper : pattern ≠ [])
    (level : Level stored pattern pfx keys labels) (below : WalkedEach stored pattern labels folders) :
    Walked stored pattern pfx (⟨pfx, keys, labels⟩ :: folders) := by
  constructor
  · intro key
    rw [List.flatMap_cons, List.mem_append, below.met, level.listed]
    constructor
    · rintro (⟨there, rest, rfl, _⟩ | ⟨there, label, among, begins⟩)
      · exact ⟨there, List.prefix_append pfx rest⟩
      · obtain ⟨_, _, rest, segment, _, cut, rfl⟩ := (level.labelled label).mp among
        exact ⟨there, (List.prefix_append pfx segment).trans begins⟩
    · rintro ⟨there, rest, rfl⟩
      rcases listed_or_below level there with ⟨_, apart⟩ | ⟨segment, behind, rfl, _, among⟩
      · exact .inl ⟨there, rest, rfl, apart⟩
      · refine .inr ⟨there, _, among, ?_⟩
        rw [← List.append_assoc]
        exact List.prefix_append _ behind
  · rw [List.flatMap_cons]
    refine List.nodup_append'.mpr ⟨level.once, below.once, ?_⟩
    intro key here there
    obtain ⟨_, label, among, begins⟩ := (below.met key).mp there
    exact key_not_below level here among begins
  · intro folder member key inside
    rcases List.mem_cons.mp member with rfl | there
    · obtain ⟨_, rest, rfl, apart⟩ := (level.listed key).mp inside
      exact ⟨rest, rfl, by rw [folder_none apart, List.append_nil]⟩
    · obtain ⟨label, among, rest, rfl, place⟩ := below.placed folder there key inside
      obtain ⟨_, _, other, segment, _, cut, rfl⟩ := (level.labelled label).mp among
      refine ⟨segment ++ rest, List.append_assoc _ _ _, ?_⟩
      have found := upTo_of_prefix ((upTo_iff pattern other segment).mpr cut)
        (List.prefix_append segment rest)
      rw [place, folder_cut proper ((upTo_iff _ _ _).mp found), List.append_assoc]
  · intro folder member
    rcases List.mem_cons.mp member with rfl | there
    · exact .inl rfl
    · exact .inr (below.filled folder there)
  · rintro ⟨key, there, rest, rfl⟩ folder member
    rcases List.mem_cons.mp member with rfl | inside
    · rcases listed_or_below level there with ⟨listed, _⟩ | ⟨_, _, _, _, among⟩
      · exact .inl (List.ne_nil_of_mem listed)
      · exact .inr (List.ne_nil_of_mem among)
    · exact below.filled folder inside

end Levels

/-! ### The walk -/

section Walk
variable {Command : Type} {Reply : Command → Type} {Error State : Type}

/-- A lister answers with the names and the labels below a prefix, if it comes to an end. -/
abbrev Lister (Command : Type) (Reply : Command → Type) (Error Symbol : Type) :=
  List Symbol → Prog Command Reply Error (Option (List (List Symbol) × List (List Symbol)))

/-- Visit the labels one after the other. -/
def walkEach (visit : List Symbol → Prog Command Reply Error (Option (List (Folder Symbol)))) :
    List (List Symbol) → Prog Command Reply Error (Option (List (Folder Symbol)))
  | [] => pure (some [])
  | label :: rest => do
      match ← visit label with
      | none => pure none
      | some folders =>
          let later ← walkEach visit rest
          pure (later.map fun others => folders ++ others)

/-- List below a prefix, then walk below each label, at most `depth` levels down. -/
def walk (list : Lister Command Reply Error Symbol) :
    Nat → List Symbol → Prog Command Reply Error (Option (List (Folder Symbol)))
  | 0, _ => pure none
  | depth + 1, pfx => do
      match ← list pfx with
      | none => pure none
      | some (keys, labels) =>
          let below ← walkEach (walk list depth) labels
          pure (below.map fun folders => ⟨pfx, keys, labels⟩ :: folders)

variable {sem : Semantics Command Reply State} {stored : List Symbol → Prop} {pattern : List Symbol}
  {list : Lister Command Reply Error Symbol} {state : State}

theorem wp_walkEach {visit : List Symbol → Prog Command Reply Error (Option (List (Folder Symbol)))}
    {labels : List (List Symbol)}
    (visits : ∀ label ∈ labels, wp sem (visit label) (fun outcome after => after = state ∧
      ∃ folders, outcome = .ok (some folders) ∧ Walked stored pattern label folders) state)
    (reached : ∀ label ∈ labels, ∃ key, stored key ∧ label <+: key) (distinct : labels.Nodup)
    (unique : ∀ first ∈ labels, ∀ second ∈ labels, ∀ key, first <+: key → second <+: key →
      first = second) :
    wp sem (walkEach visit labels) (fun outcome after => after = state ∧
      ∃ folders, outcome = .ok (some folders) ∧ WalkedEach stored pattern labels folders) state := by
  induction labels with
  | nil => exact ⟨rfl, [], rfl, walked_none⟩
  | cons label rest ih =>
      obtain ⟨absent, others⟩ := List.nodup_cons.mp distinct
      have later := ih (fun other member => visits other (List.mem_cons_of_mem label member))
        (fun other member => reached other (List.mem_cons_of_mem label member)) others
        (fun first one second two => unique first (List.mem_cons_of_mem label one) second
          (List.mem_cons_of_mem label two))
      unfold walkEach
      rw [wp_bind]
      apply wp_mono (visits label List.mem_cons_self)
      rintro outcome after ⟨same, folders, rfl, walked⟩
      subst after
      simp only []
      rw [wp_bind]
      apply wp_mono later
      rintro outcome after ⟨same, more, rfl, each⟩
      subst after
      refine ⟨rfl, _, rfl, walked_cons walked each (reached label List.mem_cons_self) ?_⟩
      intro other member key below again
      have equal := unique label List.mem_cons_self other (List.mem_cons_of_mem label member) key below again
      exact absurd (equal ▸ member) absent

/-- Where every level is listed rightly and no name is longer than `longest`, the walk ends and
meets every name in its folder. -/
theorem wp_walk (proper : pattern ≠ [])
    (lists : ∀ pfx, wp sem (list pfx) (fun outcome after => after = state ∧
      ∃ keys labels, outcome = .ok (some (keys, labels)) ∧ Level stored pattern pfx keys labels) state)
    {longest : Nat} (bounded : ∀ key, stored key → key.length ≤ longest) (depth : Nat)
    (pfx : List Symbol) (deep : longest < pfx.length + depth) (short : pfx.length ≤ longest) :
    wp sem (walk list depth pfx) (fun outcome after => after = state ∧
      ∃ folders, outcome = .ok (some folders) ∧ Walked stored pattern pfx folders) state := by
  induction depth generalizing pfx with
  | zero => omega
  | succ depth ih =>
      unfold walk
      rw [wp_bind]
      apply wp_mono (lists pfx)
      rintro outcome after ⟨same, keys, labels, rfl, level⟩
      subst after
      simp only []
      rw [wp_bind]
      -- Each label is longer than the prefix and no longer than a stored name.
      have visits : ∀ label ∈ labels, wp sem (walk list depth label) (fun outcome after =>
          after = state ∧ ∃ folders, outcome = .ok (some folders) ∧
            Walked stored pattern label folders) state := by
        intro label among
        obtain ⟨key, there, below⟩ := label_inhabited level among
        obtain ⟨_, _, _, segment, _, cut, rfl⟩ := (level.labelled label).mp among
        have positive := List.length_pos_iff.mpr (segment_nonempty proper cut)
        have fits := below.length_le.trans (bounded key there)
        apply ih _ _ fits
        rw [List.length_append]
        omega
      have each := wp_walkEach visits (fun label => label_inhabited level) level.distinct
        (fun first one second two key => label_unique level one two)
      apply wp_mono each
      rintro outcome after ⟨same, folders, rfl, below⟩
      exact ⟨same, _, rfl, walked_level proper level below⟩

end Walk
end Folders
