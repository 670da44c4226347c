import Ferrobucket.Lib.Text
/-! Texts as terminated segments with a rest: splitting at a separator takes them apart, and the
initial parts of a text that end in the separator are those of its terminated segments. -/
namespace Segments
open Text

variable {separator : Char}

/-- Each segment with the separator behind it. -/
def terminated (separator : Char) (segments : List Str) : Str :=
  segments.flatMap (· ++ [separator])

theorem terminated_append (front back : List Str) :
    terminated separator (front ++ back) = terminated separator front ++ terminated separator back :=
  List.flatMap_append

theorem terminated_snoc (front : List Str) (segment : Str) :
    terminated separator (front ++ [segment]) = terminated separator front ++ segment ++ [separator] := by
  simp [terminated]

theorem intercalate_snoc (segments : List Str) (last : Str) :
    [separator].intercalate (segments ++ [last]) = terminated separator segments ++ last := by
  induction segments with
  | nil => simp [terminated]
  | cons first later ih =>
      have some : later ++ [last] ≠ [] := List.append_ne_nil_of_right_ne_nil _ (List.cons_ne_nil _ _)
      rw [List.cons_append, List.intercalate_cons_of_ne_nil some, ih]
      simp [terminated]

/-- Joined segments with a separator behind the last. -/
theorem intercalate_terminated {segments : List Str} (nonempty : segments ≠ []) :
    [separator].intercalate segments ++ [separator] = terminated separator segments := by
  rw [← List.dropLast_append_getLast nonempty, intercalate_snoc, terminated_snoc]

theorem terminated_length {front segments : List Str} (inside : front <+: segments)
    (shorter : front ≠ segments) :
    (terminated separator front).length < (terminated separator segments).length := by
  obtain ⟨back, rfl⟩ := inside
  cases back with
  | nil => exact absurd (List.append_nil front).symm shorter
  | cons next more =>
      rw [terminated_append, List.length_append]
      simp only [terminated, List.flatMap_cons, List.length_append, List.length_singleton]
      omega

/-- The segments of a text that a separator ends. -/
def ended (separator : Char) (text : Str) : List Str :=
  (text.splitOn separator).dropLast

/-- What stands behind the last separator. -/
def rest (separator : Char) (text : Str) : Str :=
  (text.splitOn separator).getLast (List.splitOn_ne_nil separator text)

theorem split_parts (separator : Char) (text : Str) :
    text.splitOn separator = ended separator text ++ [rest separator text] :=
  (List.dropLast_append_getLast _).symm

/-- A text is its ended segments and its rest. -/
theorem text_parts (separator : Char) (text : Str) :
    terminated separator (ended separator text) ++ rest separator text = text := by
  rw [← intercalate_snoc, ← split_parts]
  exact List.intercalate_splitOn separator

theorem ended_clear (text : Str) : ∀ segment ∈ ended separator text, separator ∉ segment :=
  fun _ piece inside => (mem_splitOn ((List.dropLast_subset _) piece) inside).2 rfl

theorem rest_clear (text : Str) : separator ∉ rest separator text :=
  fun inside => (mem_splitOn (List.getLast_mem _) inside).2 rfl

theorem split_terminated {segments : List Str} (clear : ∀ segment ∈ segments, separator ∉ segment)
    (text : Str) :
    (terminated separator segments ++ text).splitOn separator = segments ++ text.splitOn separator := by
  induction segments with
  | nil => rfl
  | cons first later ih =>
      have tail := ih fun segment member => clear segment (List.mem_cons_of_mem _ member)
      have shape : terminated separator (first :: later) ++ text =
          first ++ separator :: (terminated separator later ++ text) := by simp [terminated]
      rw [shape, List.splitOn_append_cons_self, tail,
        List.splitOn_eq_singleton (clear first List.mem_cons_self)]
      rfl

theorem terminated_injective {left right : List Str} (clear : ∀ segment ∈ left, separator ∉ segment)
    (also : ∀ segment ∈ right, separator ∉ segment)
    (same : terminated separator left = terminated separator right) : left = right := by
  have first := split_terminated clear []
  have second := split_terminated also []
  rw [same] at first
  exact List.append_cancel_right (first.symm.trans second)

/-- The initial parts of a text that end in the separator. -/
theorem initial_ended_iff (text initial : Str) :
    initial <+: text ∧ (∃ front, initial = front ++ [separator]) ↔
      ∃ front, front ≠ [] ∧ front <+: ended separator text ∧ initial = terminated separator front := by
  constructor
  · rintro ⟨⟨back, whole⟩, front, rfl⟩
    have parts : text.splitOn separator = front.splitOn separator ++ back.splitOn separator := by
      rw [← whole, List.append_assoc]
      exact List.splitOn_append_cons_self front back
    refine ⟨front.splitOn separator, List.splitOn_ne_nil separator front, ?_, ?_⟩
    · rw [ended, parts, List.dropLast_append_of_ne_nil (List.splitOn_ne_nil separator back)]
      exact List.prefix_append _ _
    · rw [← intercalate_terminated (List.splitOn_ne_nil separator front), List.intercalate_splitOn]
  · rintro ⟨front, nonempty, ⟨back, whole⟩, rfl⟩
    constructor
    · rw [← text_parts separator text, ← whole, terminated_append, List.append_assoc]
      exact List.prefix_append _ _
    · rw [← intercalate_terminated nonempty]
      exact ⟨_, rfl⟩

end Segments
