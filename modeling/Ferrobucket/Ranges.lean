import Ferrobucket.Records
/-! What `range.rs` computes, read as positions of the object: which bytes a range denotes,
that the resolved window is exactly these, and that none of its additions and subtractions
leaves the 64 bits. -/
namespace Ferrobucket
open Text

/-! ### Denoted positions -/

namespace ByteRange

/-- The positions of an object of this size that a range denotes. -/
def Denotes (range : ByteRange) (size position : Nat) : Prop :=
  match range with
  | .full first last => first.toNat ≤ position ∧ position ≤ last.toNat ∧ position < size
  | .openFrom first => first.toNat ≤ position ∧ position < size
  | .suffix n => size - min n.toNat size ≤ position ∧ position < size

instance (range : ByteRange) (size position : Nat) : Decidable (range.Denotes size position) := by
  unfold Denotes
  cases range <;> infer_instance

/-- The bytes at the positions that a range denotes. -/
def selected (range : ByteRange) (content : Bytes) : Bytes :=
  (content.zipIdx.filter fun indexed => range.Denotes content.length indexed.2).map Prod.fst

/-- The position where a range begins and the one behind its end. -/
def bounds (range : ByteRange) (size : Nat) : Nat × Nat :=
  match range with
  | .full first last => (first.toNat, min (last.toNat + 1) size)
  | .openFrom first => (first.toNat, size)
  | .suffix n => (size - n.toNat, size)

/-- A suffix is never refused, even where it denotes nothing. -/
def IsSuffix (range : ByteRange) : Prop := ∃ n, range = .suffix n

end ByteRange

theorem denotes_iff (range : ByteRange) (size position : Nat) :
    range.Denotes size position ↔
      (range.bounds size).1 ≤ position ∧ position < (range.bounds size).2 := by
  cases range with
  | full first last =>
      simp only [ByteRange.Denotes, ByteRange.bounds]
      omega
  | openFrom first => exact Iff.rfl
  | suffix n =>
      simp only [ByteRange.Denotes, ByteRange.bounds]
      omega

theorem denotes_nothing (range : ByteRange) (size : Nat) :
    (∀ position, ¬ range.Denotes size position) ↔ (range.bounds size).2 ≤ (range.bounds size).1 := by
  simp only [denotes_iff]
  constructor
  · intro nothing
    have first := nothing (range.bounds size).1
    omega
  · intro empty position inside
    omega

theorem bounds_within (range : ByteRange) (size : Nat) : (range.bounds size).2 ≤ size := by
  cases range with
  | full first last => exact Nat.min_le_right _ _
  | openFrom first => exact le_refl _
  | suffix n => exact le_refl _

/-- The elements of a stretch, picked one by one. -/
theorem stretch_picked {Element : Type} (content : List Element) (offset first past : Nat) :
    ((content.zipIdx offset).filter fun indexed => first ≤ indexed.2 ∧ indexed.2 < past).map Prod.fst =
      (content.drop (first - offset)).take (past - max first offset) := by
  induction content generalizing offset with
  | nil => simp
  | cons element rest ih =>
      rw [List.zipIdx_cons, List.filter_cons]
      by_cases begun : first ≤ offset
      · have skipped : first - offset = 0 := by omega
        have after : first - (offset + 1) = 0 := by omega
        by_cases short : offset < past
        · have picked : decide (first ≤ offset ∧ offset < past) = true := by simp [begun, short]
          have one : past - max first offset = past - max first (offset + 1) + 1 := by omega
          rw [if_pos picked, List.map_cons, ih, skipped, after, one]
          rfl
        · have left : ¬ decide (first ≤ offset ∧ offset < past) = true := by simp [short]
          have none : past - max first offset = 0 := by omega
          have neither : past - max first (offset + 1) = 0 := by omega
          rw [if_neg left, ih, none, neither]
          rfl
      · have left : ¬ decide (first ≤ offset ∧ offset < past) = true := by simp [begun]
        have next : first - offset = first - (offset + 1) + 1 := by omega
        have same : max first (offset + 1) = max first offset := by omega
        rw [if_neg left, ih, next, same]
        rfl

theorem selected_eq (range : ByteRange) (content : Bytes) :
    range.selected content =
      (content.drop (range.bounds content.length).1).take
        ((range.bounds content.length).2 - (range.bounds content.length).1) := by
  unfold ByteRange.selected
  simp only [denotes_iff]
  simpa using stretch_picked content 0 (range.bounds content.length).1 (range.bounds content.length).2

/-! ### Resolution -/

theorem u64_min (left right : UInt64) : (min left right).toNat = min left.toNat right.toNat := by
  change (if left ≤ right then left else right).toNat = _
  split
  · next below =>
      rw [UInt64.le_iff_toNat_le] at below
      omega
  · next above =>
      rw [UInt64.le_iff_toNat_le] at above
      omega

theorem u64_pred {size : UInt64} (nonzero : size ≠ 0) : (size - 1).toNat = size.toNat - 1 := by
  have positive : size.toNat ≠ 0 := fun zero => nonzero (UInt64.toNat_inj.mp zero)
  apply UInt64.toNat_sub_of_le
  rw [UInt64.le_iff_toNat_le]
  simpa using Nat.one_le_iff_ne_zero.mpr positive

theorem u64_sub {left right : UInt64} (below : right ≤ left) :
    (left - right).toNat = left.toNat - right.toNat := UInt64.toNat_sub_of_le _ _ below

/-- A range that resolves, resolves to the positions that it denotes. -/
theorem resolve_bounds {range : ByteRange} {size : UInt64} {resolved : ResolvedRange}
    (found : range.resolve size = some resolved) :
    resolved.start.toNat = (range.bounds size.toNat).1 ∧
      resolved.start.toNat + resolved.length.toNat = (range.bounds size.toNat).2 := by
  have small := size.toNat_lt
  cases range with
  | full first last =>
      simp only [ByteRange.resolve] at found
      split_ifs at found with outside past
      cases found
      simp only [not_or, ge_iff_le, UInt64.not_le, gt_iff_lt, UInt64.not_lt] at outside past
      have pred := u64_pred outside.1
      have clamped := u64_min last (size - 1)
      have span := u64_sub past
      have inside := UInt64.lt_iff_toNat_lt.mp outside.2
      have forward := UInt64.le_iff_toNat_le.mp past
      refine ⟨rfl, ?_⟩
      simp only [ByteRange.bounds, UInt64.toNat_add, span, UInt64.toNat_one]
      omega
  | openFrom first =>
      simp only [ByteRange.resolve] at found
      split_ifs at found with outside
      cases found
      simp only [not_or, ge_iff_le, UInt64.not_le] at outside
      have span := u64_sub (UInt64.le_of_lt outside.2)
      have inside := UInt64.lt_iff_toNat_lt.mp outside.2
      refine ⟨rfl, ?_⟩
      simp only [ByteRange.bounds, span]
      omega
  | suffix n =>
      cases found
      have clamped := u64_min n size
      have below : min n size ≤ size := by
        rw [UInt64.le_iff_toNat_le]
        omega
      have span := u64_sub below
      simp only [ByteRange.bounds, span]
      omega

/-- A range that lies within the object needs no more than its bytes. -/
theorem resolve_within {range : ByteRange} {size : UInt64} {resolved : ResolvedRange}
    (found : range.resolve size = some resolved) :
    resolved.start.toNat + resolved.length.toNat ≤ size.toNat := by
  rw [(resolve_bounds found).2]
  exact bounds_within range size.toNat

/-- Only a range that denotes nothing is refused, and a suffix never is. -/
theorem resolve_none_iff (range : ByteRange) (size : UInt64) :
    range.resolve size = none ↔
      ¬ range.IsSuffix ∧ (range.bounds size.toNat).2 ≤ (range.bounds size.toNat).1 := by
  have small := size.toNat_lt
  cases range with
  | full first last =>
      have other : ¬ (ByteRange.full first last).IsSuffix := by rintro ⟨n, ⟨⟩⟩
      simp only [ByteRange.resolve, other, not_false_iff, true_and, ByteRange.bounds]
      by_cases outside : size = 0 ∨ first ≥ size
      · rw [if_pos outside]
        have past : size.toNat ≤ first.toNat := by
          rcases outside with zero | above
          · simp [zero]
          · exact UInt64.le_iff_toNat_le.mp above
        simp only [true_iff]
        omega
      · rw [if_neg outside]
        simp only [not_or, ge_iff_le, UInt64.not_le] at outside
        have pred := u64_pred outside.1
        have clamped := u64_min last (size - 1)
        have inside := UInt64.lt_iff_toNat_lt.mp outside.2
        simp only [gt_iff_lt, ite_eq_left_iff, reduceCtorEq, imp_false, not_not, UInt64.lt_iff_toNat_lt]
        omega
  | openFrom first =>
      have other : ¬ (ByteRange.openFrom first).IsSuffix := by rintro ⟨n, ⟨⟩⟩
      simp only [ByteRange.resolve, other, not_false_iff, true_and, ByteRange.bounds]
      simp only [ite_eq_left_iff, reduceCtorEq, imp_false, not_not, ge_iff_le, UInt64.le_iff_toNat_le,
        ← UInt64.toNat_inj, UInt64.toNat_zero]
      omega
  | suffix n =>
      have suffix : (ByteRange.suffix n).IsSuffix := ⟨n, rfl⟩
      simp [ByteRange.resolve, suffix]

/-! ### Sixty-four bits -/

/-- Addition that stops where the result does not fit. -/
def checkedAdd (left right : UInt64) : Option UInt64 :=
  if left.toNat + right.toNat < 2 ^ 64 then some (left + right) else none

/-- Subtraction that stops where the result would be negative. -/
def checkedSub (left right : UInt64) : Option UInt64 :=
  if right ≤ left then some (left - right) else none

/-- `resolve` with every operation checked: `none` where one of them would wrap. -/
def ByteRange.resolveChecked (range : ByteRange) (objectLen : UInt64) : Option (Option ResolvedRange) :=
  match range with
  | .full first last =>
      if objectLen = 0 ∨ first ≥ objectLen then some none
      else do
        let clampedLast := min last (← checkedSub objectLen 1)
        if first > clampedLast then some none
        else do
          let length ← checkedAdd (← checkedSub clampedLast first) 1
          some (some ⟨first, length⟩)
  | .openFrom first =>
      if objectLen = 0 ∨ first ≥ objectLen then some none
      else do
        let length ← checkedSub objectLen first
        some (some ⟨first, length⟩)
  | .suffix n => do
      let clampedN := min n objectLen
      let start ← checkedSub objectLen clampedN
      some (some ⟨start, clampedN⟩)

theorem resolve_never_wraps (range : ByteRange) (size : UInt64) :
    range.resolveChecked size = some (range.resolve size) := by
  have small := size.toNat_lt
  cases range with
  | full first last =>
      unfold ByteRange.resolveChecked ByteRange.resolve
      by_cases outside : size = 0 ∨ first ≥ size
      · simp only [if_pos outside]
      simp only [if_neg outside]
      simp only [not_or, ge_iff_le, UInt64.not_le] at outside
      have pred := u64_pred outside.1
      have one : (1 : UInt64) ≤ size := by
        rw [UInt64.le_iff_toNat_le]
        have inside := UInt64.lt_iff_toNat_lt.mp outside.2
        simp only [UInt64.toNat_one]
        omega
      simp only [checkedSub, if_pos one, Option.bind_eq_bind, Option.bind_some]
      by_cases past : first > min last (size - 1)
      · simp only [if_pos past]
      · have forward := UInt64.not_lt.mp past
        have clamped := u64_min last (size - 1)
        have span := u64_sub forward
        have fits : (min last (size - 1) - first).toNat + (1 : UInt64).toNat < 2 ^ 64 := by
          rw [span, clamped, pred, UInt64.toNat_one]
          have inside := UInt64.lt_iff_toNat_lt.mp outside.2
          omega
        simp only [if_neg past, if_pos forward, Option.bind_some, checkedAdd, if_pos fits]
  | openFrom first =>
      unfold ByteRange.resolveChecked ByteRange.resolve
      by_cases outside : size = 0 ∨ first ≥ size
      · simp only [if_pos outside]
      · simp only [if_neg outside]
        simp only [not_or, ge_iff_le, UInt64.not_le] at outside
        simp [checkedSub, UInt64.le_of_lt outside.2]
  | suffix n =>
      have below : min n size ≤ size := by
        rw [UInt64.le_iff_toNat_le, u64_min]
        omega
      simp [ByteRange.resolveChecked, ByteRange.resolve, checkedSub, below]

end Ferrobucket
