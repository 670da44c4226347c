import Mathlib.Data.List.Lex
import Mathlib.Data.List.Infix
import Mathlib.Data.List.Basic
/-! Prefixes, first occurrences and lexicographic order. The facts that make a
collapsed run contiguous: strings with one prefix are an interval of the order, and
the text up to a first occurrence is decided by that text alone. -/
namespace Lexical

variable {Symbol : Type}

/-- The position of the first occurrence of a pattern, as `str::find` has it. -/
def find [DecidableEq Symbol] (pattern : List Symbol) : List Symbol → Option Nat
  | [] => if pattern = [] then some 0 else none
  | symbol :: rest =>
      if pattern.isPrefixOf (symbol :: rest) then some 0 else (find pattern rest).map (· + 1)

/-- The text up to and including the first occurrence of a pattern. -/
def upTo [DecidableEq Symbol] (pattern text : List Symbol) : Option (List Symbol) :=
  (find pattern text).map fun position => text.take (position + pattern.length)

section Occurrence
variable [DecidableEq Symbol]

theorem find_nil (pattern : List Symbol) :
    find pattern [] = if pattern = [] then some 0 else none := rfl

theorem find_cons (pattern : List Symbol) (symbol : Symbol) (rest : List Symbol) :
    find pattern (symbol :: rest) =
      if pattern <+: symbol :: rest then some 0 else (find pattern rest).map (· + 1) := by
  simp only [find, List.isPrefixOf_iff_prefix]

theorem find_some {pattern text : List Symbol} {position : Nat}
    (found : find pattern text = some position) : pattern <+: text.drop position := by
  induction text generalizing position with
  | nil =>
      by_cases empty : pattern = []
      · simp [empty]
      · simp [find_nil, empty] at found
  | cons symbol rest ih =>
      rw [find_cons] at found
      by_cases here : pattern <+: symbol :: rest
      · simp only [here, if_true, Option.some.injEq] at found
        subst found
        exact here
      · simp only [here, if_false, Option.map_eq_some_iff] at found
        obtain ⟨later, next, rfl⟩ := found
        exact ih next

/-- A text contains the pattern exactly when some first occurrence is found. -/
theorem find_none_iff (pattern text : List Symbol) :
    find pattern text = none ↔ ¬ pattern <:+: text := by
  induction text with
  | nil => by_cases empty : pattern = [] <;> simp [find_nil, empty]
  | cons symbol rest ih =>
      rw [find_cons, List.infix_cons_iff]
      by_cases here : pattern <+: symbol :: rest <;> simp [here, ih]

theorem upTo_none_iff (pattern text : List Symbol) :
    upTo pattern text = none ↔ ¬ pattern <:+: text := by
  simp [upTo, find_none_iff]

theorem upTo_begins {pattern text segment : List Symbol}
    (found : upTo pattern text = some segment) : segment <+: text := by
  obtain ⟨position, _, rfl⟩ := Option.map_eq_some_iff.mp found
  exact List.take_prefix _ _

-- Induction on the text with the segment: an earlier occurrence would already lie
-- inside the segment, because a pattern that starts before the match ends before it.
theorem upTo_of_prefix {pattern text other segment : List Symbol}
    (found : upTo pattern text = some segment) (extends' : segment <+: other) :
    upTo pattern other = some segment := by
  induction text generalizing other segment with
  | nil =>
      by_cases empty : pattern = []
      · subst empty
        have : segment = [] := by simpa [upTo, find_nil] using found.symm
        subst this
        cases other <;> simp [upTo, find_nil, find_cons]
      · simp [upTo, find_nil, empty] at found
  | cons symbol rest ih =>
      simp only [upTo, find_cons] at found
      by_cases here : pattern <+: symbol :: rest
      · simp only [here, if_true, Option.map_some, Nat.zero_add, Option.some.injEq] at found
        have whole : segment = pattern := by
          rw [← found]
          exact (List.prefix_iff_eq_take.mp here).symm
        subst whole
        cases other with
        | nil =>
            have : segment = [] := List.prefix_nil.mp extends'
            simp [upTo, find_nil, this]
        | cons first more =>
            rw [upTo, find_cons, if_pos extends']
            simpa using (List.prefix_iff_eq_take.mp extends').symm
      · simp only [here, if_false, Option.map_map, Option.map_eq_some_iff] at found
        obtain ⟨position, next, rfl⟩ := found
        rw [Function.comp_apply, Nat.add_right_comm, List.take_succ_cons] at extends' ⊢
        cases other with
        | nil => simp at extends'
        | cons first more =>
            obtain ⟨rfl, tail⟩ := List.cons_prefix_cons.mp extends'
            have segmentRest : upTo pattern rest = some (rest.take (position + pattern.length)) := by
              simp [upTo, next]
            have later := ih segmentRest tail
            have absent : ¬ pattern <+: symbol :: more := by
              intro early
              -- the match inside `rest` is within the segment, hence so is this one
              have inside : pattern <+: symbol :: rest.take (position + pattern.length) := by
                apply List.prefix_of_prefix_length_le early extends'
                have := (find_some next).length_le
                simp only [List.length_drop] at this
                simp only [List.length_cons, List.length_take]
                omega
              exact here (inside.trans (List.cons_prefix_cons.mpr ⟨rfl, List.take_prefix _ _⟩))
            obtain ⟨place, at', same⟩ := Option.map_eq_some_iff.mp later
            rw [upTo, find_cons, if_neg absent, at']
            simp only [Option.map_some, Option.some.injEq]
            rw [Nat.add_right_comm, List.take_succ_cons, same]

/-- A segment of a text that ends with the first occurrence of a pattern. -/
structure UpToFirst (pattern text segment : List Symbol) : Prop where
  starts : segment <+: text
  ends : pattern <:+ segment
  first : ∀ shorter, shorter <+: text → pattern <:+ shorter → segment.length ≤ shorter.length

theorem upTo_first {pattern text segment : List Symbol} (found : upTo pattern text = some segment) :
    UpToFirst pattern text segment := by
  refine ⟨upTo_begins found, ?_, ?_⟩
  · obtain ⟨position, place, rfl⟩ := Option.map_eq_some_iff.mp found
    obtain ⟨rest, whole⟩ := find_some place
    refine ⟨text.take position, ?_⟩
    rw [List.take_add, ← whole, List.take_left]
  · intro shorter starts ends
    have occurs : upTo pattern shorter ≠ none := fun none =>
      (upTo_none_iff pattern shorter).mp none ends.isInfix
    obtain ⟨own, again⟩ := Option.ne_none_iff_exists'.mp occurs
    have inside := upTo_begins again
    have same := upTo_of_prefix again (inside.trans starts)
    rw [found] at same
    obtain rfl := Option.some.inj same
    exact inside.length_le

theorem upTo_iff (pattern text segment : List Symbol) :
    upTo pattern text = some segment ↔ UpToFirst pattern text segment := by
  constructor
  · exact upTo_first
  · intro first
    have occurs : upTo pattern text ≠ none := fun none =>
      (upTo_none_iff pattern text).mp none (first.ends.isInfix.trans first.starts.isInfix)
    obtain ⟨own, found⟩ := Option.ne_none_iff_exists'.mp occurs
    have least := upTo_first found
    have length : own.length = segment.length :=
      le_antisymm (least.first segment first.starts first.ends) (first.first own least.starts least.ends)
    have same := (List.prefix_of_prefix_length_le least.starts first.starts length.le).eq_of_length length
    rw [found, same]

end Occurrence

section Order
variable [LinearOrder Symbol]

/-- The extensions of one string are an interval of the lexicographic order. -/
theorem prefix_between {start low middle high : List Symbol} (first : start <+: low)
    (last : start <+: high) (above : low ≤ middle) (below : middle ≤ high) :
    start <+: middle := by
  induction start generalizing low middle high with
  | nil => exact List.nil_prefix
  | cons symbol rest ih =>
      obtain ⟨lowTail, rfl⟩ := first
      obtain ⟨highTail, rfl⟩ := last
      cases middle with
      | nil => exact absurd above (not_le.mpr (List.nil_lt_cons _ _))
      | cons head tail =>
          simp only [← not_lt, List.cons_append, List.cons_lt_cons_iff, not_or, not_and] at above below
          have same : head = symbol := le_antisymm (not_lt.mp below.1) (not_lt.mp above.1)
          subst same
          refine List.cons_prefix_cons.mpr ⟨rfl, ih (List.prefix_append rest lowTail)
            (List.prefix_append rest highTail) ?_ ?_⟩
          · exact not_lt.mp (above.2 rfl)
          · exact not_lt.mp (below.2 rfl)

end Order
end Lexical
