import Mathlib.Data.List.Nodup
import Mathlib.Order.Lattice
/-! Sorted keys, some of which belong to a class. A key without a class is an entry of
its own; a run of keys of one class is one entry. Each entry knows the last key it
stands for, and this is enough to take up the grouping after any entry. -/
namespace Grouping

variable {Key Class : Type}

inductive Entry (Key Class : Type) where
  | single (key : Key)
  | group (label : Class) (last : Key)

def Entry.last : Entry Key Class → Key
  | .single key => key
  | .group _ last => last

def Entry.label : Entry Key Class → Option Class
  | .single _ => none
  | .group label _ => some label

/-- The key that is an entry of its own. -/
def Entry.alone : Entry Key Class → Option Key
  | .single key => some key
  | .group _ _ => none

@[simp] theorem alone_single (key : Key) :
    (Entry.single key : Entry Key Class).alone = some key := rfl

@[simp] theorem alone_group (label : Class) (last : Key) :
    (Entry.group label last).alone = none := rfl

@[simp] theorem label_single (key : Key) : (Entry.single key : Entry Key Class).label = none := rfl

@[simp] theorem label_group (label : Class) (last : Key) :
    (Entry.group label last).label = some label := rfl

/-- An entry is either a key alone or a group. -/
theorem alone_label_length (chunk : List (Entry Key Class)) :
    (chunk.filterMap Entry.alone).length + (chunk.filterMap Entry.label).length = chunk.length := by
  induction chunk with
  | nil => rfl
  | cons entry rest ih =>
      cases entry with
      | single key =>
          simp only [List.filterMap_cons, alone_single, label_single, List.length_cons]
          omega
      | group label last =>
          simp only [List.filterMap_cons, alone_group, label_group, List.length_cons]
          omega

variable [DecidableEq Class]

/-- Put a key of a class before the entries of the keys after it. -/
def prepend (label : Class) (key : Key) : List (Entry Key Class) → List (Entry Key Class)
  | .group other last :: rest =>
      if other = label then .group other last :: rest else .group label key :: .group other last :: rest
  | entries => .group label key :: entries

def entries (classOf : Key → Option Class) : List Key → List (Entry Key Class)
  | [] => []
  | key :: rest =>
      match classOf key with
      | none => .single key :: entries classOf rest
      | some label => prepend label key (entries classOf rest)

theorem prepend_cases (label : Class) (key : Key) (later : List (Entry Key Class)) :
    prepend label key later = .group label key :: later ∨
      (∃ last rest, later = .group label last :: rest ∧ prepend label key later = later) := by
  cases later with
  | nil => exact .inl rfl
  | cons entry rest =>
      cases entry with
      | single other => exact .inl rfl
      | group other last =>
          by_cases same : other = label
          · subst same
            exact .inr ⟨last, rest, rfl, by simp [prepend]⟩
          · exact .inl (by simp [prepend, same])

variable {classOf : Key → Option Class}

theorem entries_single {key : Key} (rest : List Key) (label : classOf key = none) :
    entries classOf (key :: rest) = .single key :: entries classOf rest := by
  simp [entries, label]

theorem entries_group {key : Key} {c : Class} (rest : List Key) (label : classOf key = some c) :
    entries classOf (key :: rest) = prepend c key (entries classOf rest) := by
  simp [entries, label]

theorem last_mem {keys : List Key} {entry : Entry Key Class} (member : entry ∈ entries classOf keys) :
    entry.last ∈ keys := by
  induction keys with
  | nil => cases member
  | cons key rest ih =>
      cases label : classOf key with
      | none =>
          rw [entries_single rest label] at member
          rcases List.mem_cons.mp member with rfl | later
          · exact List.mem_cons_self
          · exact List.mem_cons_of_mem key (ih later)
      | some c =>
          rw [entries_group rest label] at member
          rcases prepend_cases c key (entries classOf rest) with fresh | ⟨_, _, _, same⟩
          · rw [fresh] at member
            rcases List.mem_cons.mp member with rfl | later
            · exact List.mem_cons_self
            · exact List.mem_cons_of_mem key (ih later)
          · rw [same] at member
            exact List.mem_cons_of_mem key (ih member)

theorem entries_length (keys : List Key) : (entries classOf keys).length ≤ keys.length := by
  induction keys with
  | nil => exact le_rfl
  | cons key rest ih =>
      cases label : classOf key with
      | none =>
          rw [entries_single rest label]
          simpa using ih
      | some c =>
          rw [entries_group rest label]
          rcases prepend_cases c key (entries classOf rest) with fresh | ⟨_, _, _, same⟩
          · simpa [fresh] using ih
          · simpa [same] using Nat.le_succ_of_le ih

/-- The keys that are entries of their own, in order. -/
theorem singles (keys : List Key) :
    (entries classOf keys).filterMap Entry.alone = keys.filter fun key => (classOf key).isNone := by
  induction keys with
  | nil => rfl
  | cons key rest ih =>
      cases label : classOf key with
      | none =>
          rw [entries_single rest label]
          simp [label, ih]
      | some c =>
          rw [entries_group rest label]
          rcases prepend_cases c key (entries classOf rest) with fresh | ⟨_, _, _, same⟩
          · simp [label, fresh, List.filterMap_cons, ih]
          · simp [label, same, ih]

theorem mem_labels {keys : List Key} {label : Class} :
    label ∈ (entries classOf keys).filterMap Entry.label ↔
      ∃ key ∈ keys, classOf key = some label := by
  induction keys with
  | nil => simp [entries]
  | cons key rest ih =>
      simp only [List.mem_cons, exists_eq_or_imp]
      cases own : classOf key with
      | none =>
          rw [entries_single rest own]
          simp [List.filterMap_cons, ih]
      | some c =>
          rw [entries_group rest own]
          rcases prepend_cases c key (entries classOf rest) with fresh | ⟨last, more, whole, same⟩
          · simp only [fresh, List.filterMap_cons, label_group, List.mem_cons, ih, Option.some.injEq,
              eq_comm]
          · have inside : c ∈ (entries classOf rest).filterMap Entry.label := by
              rw [whole]
              simp
            simp only [same, ih]
            constructor
            · exact .inr
            · rintro (equal | later)
              · cases equal
                exact ih.mp inside
              · exact later

section Order
variable [LinearOrder Key]

/-- After any entry, grouping the keys behind its last key gives the remaining entries. -/
theorem entries_resume {keys : List Key} (sorted : keys.Pairwise (· < ·)) {position : Nat}
    {entry : Entry Key Class} (found : (entries classOf keys)[position]? = some entry) :
    entries classOf (keys.filter fun key => entry.last < key) =
      (entries classOf keys).drop (position + 1) := by
  induction keys generalizing position with
  | nil => simp [entries] at found
  | cons key rest ih =>
      obtain ⟨above, sorted⟩ := List.pairwise_cons.mp sorted
      -- The entries behind this key's own entry are those of the rest.
      have behind : ∀ position, (entries classOf rest)[position]? = some entry →
          entries classOf ((key :: rest).filter fun other => entry.last < other) =
            (entries classOf rest).drop (position + 1) := by
        intro position found
        have later : key < entry.last := above _ (last_mem (List.mem_of_getElem? found))
        rw [List.filter_cons_of_neg (by simpa using later.le)]
        exact ih sorted found
      have whole : rest.filter (fun other => key < other) = rest := by
        rw [List.filter_eq_self]
        intro other member
        simpa using above other member
      have front : ∀ first : Entry Key Class, first.last = key →
          entries classOf ((key :: rest).filter fun other => first.last < other) =
            entries classOf rest := by
        intro first last
        rw [last, List.filter_cons_of_neg (by simp), whole]
      have cases_of : ∀ first : Entry Key Class, first.last = key →
          (first :: entries classOf rest)[position]? = some entry →
          entries classOf ((key :: rest).filter fun other => entry.last < other) =
            (first :: entries classOf rest).drop (position + 1) := by
        intro first last found
        cases position with
        | zero =>
            obtain rfl : first = entry := by simpa using found
            simpa using front first last
        | succ before => exact behind before (by simpa using found)
      cases label : classOf key with
      | none =>
          rw [entries_single rest label] at found ⊢
          exact cases_of (.single key) rfl found
      | some c =>
          rw [entries_group rest label] at found ⊢
          rcases prepend_cases c key (entries classOf rest) with fresh | ⟨_, _, _, same⟩
          · simp only [fresh] at found ⊢
            exact cases_of (.group c key) rfl found
          · simp only [same] at found ⊢
            exact behind position found

/-- The entries up to one of them account for the keys up to its last key. -/
theorem covered_up_to {keys : List Key} (sorted : keys.Pairwise (· < ·)) {position : Nat}
    {entry : Entry Key Class} (found : (entries classOf keys)[position]? = some entry) {key : Key}
    (member : key ∈ keys) (before : key ≤ entry.last) :
    (classOf key = none → key ∈ ((entries classOf keys).take (position + 1)).filterMap Entry.alone) ∧
      ∀ label, classOf key = some label →
        label ∈ ((entries classOf keys).take (position + 1)).filterMap Entry.label := by
  induction keys generalizing position with
  | nil => cases member
  | cons first rest ih =>
      obtain ⟨above, sorted⟩ := List.pairwise_cons.mp sorted
      -- A key behind the first one is never before the first one's own entry.
      have front : ∀ own : Entry Key Class, own.last = first → key ∈ rest →
          (own :: entries classOf rest)[position]? = some entry → ∃ earlier, position = earlier + 1 := by
        intro own last later at_
        cases position with
        | zero =>
            obtain rfl : own = entry := by simpa using at_
            rw [last] at before
            exact absurd (above key later) (not_lt.mpr before)
        | succ earlier => exact ⟨earlier, rfl⟩
      cases class_ : classOf first with
      | none =>
          rw [entries_single rest class_] at found ⊢
          rcases List.mem_cons.mp member with rfl | later
          · simp [class_]
          · obtain ⟨earlier, rfl⟩ := front _ rfl later found
            have inner := ih sorted (by simpa using found) later
            simp only [List.take_succ_cons, List.filterMap_cons, alone_single, label_single]
            exact ⟨fun direct => List.mem_cons_of_mem _ (inner.1 direct), inner.2⟩
      | some c =>
          rw [entries_group rest class_] at found ⊢
          rcases prepend_cases c first (entries classOf rest) with fresh | ⟨last, more, whole, same⟩
          · rw [fresh] at found ⊢
            rcases List.mem_cons.mp member with rfl | later
            · simp [class_]
            · obtain ⟨earlier, rfl⟩ := front _ rfl later found
              have inner := ih sorted (by simpa using found) later
              simp only [List.take_succ_cons, List.filterMap_cons, alone_group, label_group]
              exact ⟨inner.1, fun label own => List.mem_cons_of_mem _ (inner.2 label own)⟩
          · rw [same] at found ⊢
            rcases List.mem_cons.mp member with rfl | later
            · simp [class_, whole]
            · exact ih sorted found later

/-- And for no others: what stands alone among them comes no later. -/
theorem alone_up_to {keys : List Key} (sorted : keys.Pairwise (· < ·)) {position : Nat}
    {entry : Entry Key Class} (found : (entries classOf keys)[position]? = some entry) {key : Key}
    (alone : key ∈ ((entries classOf keys).take (position + 1)).filterMap Entry.alone) :
    key ≤ entry.last := by
  have once : ((entries classOf keys).filterMap Entry.alone).Nodup := by
    rw [singles]
    exact (sorted.filter _).imp ne_of_lt
  rw [← List.take_append_drop (position + 1) (entries classOf keys), List.filterMap_append] at once
  by_contra beyond
  -- A key behind the entry stands among the entries that are left.
  have left : key ∈ ((entries classOf keys).drop (position + 1)).filterMap Entry.alone := by
    have among : key ∈ (entries classOf keys).filterMap Entry.alone := by
      rw [← List.take_append_drop (position + 1) (entries classOf keys), List.filterMap_append]
      exact List.mem_append_left _ alone
    rw [← entries_resume sorted found, singles, List.mem_filter, List.mem_filter]
    rw [singles, List.mem_filter] at among
    exact ⟨⟨among.1, by simpa using beyond⟩, among.2⟩
  exact (List.nodup_append.mp once).2.2 key alone key left rfl

/-- A class that is an interval of the keys is one entry. -/
theorem labels_nodup {keys : List Key} (sorted : keys.Pairwise (· < ·))
    (convex : ∀ low ∈ keys, ∀ middle ∈ keys, ∀ high ∈ keys, ∀ label, low < middle → middle < high →
      classOf low = some label → classOf high = some label → classOf middle = some label) :
    ((entries classOf keys).filterMap Entry.label).Nodup := by
  induction keys with
  | nil => simp [entries]
  | cons key rest ih =>
      obtain ⟨above, sorted⟩ := List.pairwise_cons.mp sorted
      have later := ih sorted fun low inLow middle inMiddle high inHigh =>
        convex low (List.mem_cons_of_mem key inLow) middle (List.mem_cons_of_mem key inMiddle) high
          (List.mem_cons_of_mem key inHigh)
      cases label : classOf key with
      | none =>
          rw [entries_single rest label]
          simpa [List.filterMap_cons] using later
      | some c =>
          rw [entries_group rest label]
          rcases prepend_cases c key (entries classOf rest) with fresh | ⟨_, _, _, same⟩
          · rw [fresh]
            simp only [List.filterMap_cons, label_group, List.nodup_cons]
            refine ⟨?_, later⟩
            intro again
            -- Some later key has this class, so the next key has it and would have joined.
            obtain ⟨high, member, equal⟩ := mem_labels.mp again
            cases rest with
            | nil => cases member
            | cons next more =>
                have joined : classOf next = some c := by
                  rcases List.mem_cons.mp member with rfl | deeper
                  · exact equal
                  · have order := (List.pairwise_cons.mp sorted).1 high deeper
                    exact convex key List.mem_cons_self next (by simp) high
                      (List.mem_cons_of_mem key member) c (above next List.mem_cons_self) order label
                      equal
                have head : ∃ last others, entries classOf (next :: more) = .group c last :: others := by
                  rw [entries_group more joined]
                  rcases prepend_cases c next (entries classOf more) with own | ⟨last, others, whole, same⟩
                  · exact ⟨next, _, own⟩
                  · exact ⟨last, others, same.trans whole⟩
                obtain ⟨last, others, head⟩ := head
                rw [head] at fresh
                simp [prepend] at fresh
          · rw [same]
            exact later

/-- Where classes ascend with the keys, so do the entries. -/
theorem labels_ascend [LE Class] {keys : List Key} (sorted : keys.Pairwise (· < ·))
    (ascend : ∀ low ∈ keys, ∀ high ∈ keys, ∀ first second, low < high →
      classOf low = some first → classOf high = some second → first ≤ second) :
    ((entries classOf keys).filterMap Entry.label).Pairwise (· ≤ ·) := by
  induction keys with
  | nil => exact .nil
  | cons key rest ih =>
      obtain ⟨above, sorted⟩ := List.pairwise_cons.mp sorted
      have later := ih sorted fun low inLow high inHigh =>
        ascend low (List.mem_cons_of_mem key inLow) high (List.mem_cons_of_mem key inHigh)
      cases label : classOf key with
      | none =>
          rw [entries_single rest label]
          simpa [List.filterMap_cons] using later
      | some first =>
          rw [entries_group rest label]
          rcases prepend_cases first key (entries classOf rest) with fresh | ⟨_, _, _, same⟩
          · rw [fresh, List.filterMap_cons, label_group]
            refine List.pairwise_cons.mpr ⟨?_, later⟩
            intro second member
            obtain ⟨high, inside, other⟩ := mem_labels.mp member
            exact ascend key List.mem_cons_self high (List.mem_cons_of_mem key inside) first second
              (above high inside) label other
          · rw [same]
            exact later

end Order
end Grouping
