import Mathlib.Data.List.Basic
import Mathlib.Data.List.Range
/-! A list cut into slices of one size, counted from one; the last may be shorter. The slices are
half-open intervals whose ends are clamped to the length. -/
namespace Slices
variable {α : Type}

def start (size n : Nat) : Nat := (n - 1) * size

def stop (size length n : Nat) : Nat := min (n * size) length

def cut (size : Nat) (whole : List α) (n : Nat) : List α :=
  (whole.drop (start size n)).take (stop size whole.length n - start size n)

/-- The number of slices, rounded up. -/
def count (size length : Nat) : Nat := (length + (size - 1)) / size

section Ends
variable {size length n : Nat}

theorem count_covers (positive : 0 < size) : length ≤ count size length * size := by
  have divided := Nat.div_add_mod (length + (size - 1)) size
  have rest := Nat.mod_lt (length + (size - 1)) positive
  rw [count, Nat.mul_comm]
  omega

/-- Every slice but the last ends within the list. -/
theorem start_inside (positive : 0 < size) (counted : n ≤ count size length) (first : 1 ≤ n) :
    start size n < length := by
  have fits : n * size ≤ length + (size - 1) := (Nat.le_div_iff_mul_le positive).mp counted
  have step : n * size = (n - 1) * size + size := by
    rw [← Nat.succ_mul, Nat.succ_eq_add_one, Nat.sub_add_cancel first]
  rw [start]
  omega

theorem stop_consecutive (positive : 0 < size) (counted : n < count size length) :
    stop size length n = start size (n + 1) := by
  have inside : start size (n + 1) < length := start_inside positive counted (Nat.le_add_left 1 n)
  rw [start, Nat.add_sub_cancel] at inside ⊢
  exact min_eq_left inside.le

theorem stop_last (positive : 0 < size) : stop size length (count size length) = length :=
  min_eq_right (count_covers positive)

end Ends

section Cuts
variable {size n : Nat} {whole : List α}

theorem cut_length (size : Nat) (whole : List α) (n : Nat) :
    (cut size whole n).length = stop size whole.length n - start size n := by
  have clamped : stop size whole.length n ≤ whole.length := min_le_right _ _
  rw [cut, List.length_take, List.length_drop]
  omega

theorem cut_small (first : 1 ≤ n) : (cut size whole n).length ≤ size := by
  have step : n * size = (n - 1) * size + size := by
    rw [← Nat.succ_mul, Nat.succ_eq_add_one, Nat.sub_add_cancel first]
  have clamped : stop size whole.length n ≤ n * size := min_le_left _ _
  rw [cut_length, start]
  omega

theorem cut_nonempty (positive : 0 < size) (counted : n ≤ count size whole.length) (first : 1 ≤ n) :
    cut size whole n ≠ [] := by
  have inside := start_inside positive counted first
  have step : n * size = (n - 1) * size + size := by
    rw [← Nat.succ_mul, Nat.succ_eq_add_one, Nat.sub_add_cancel first]
  have longer : start size n < stop size whole.length n := by
    apply lt_min _ inside
    rw [start]
    omega
  rw [← List.length_pos_iff, cut_length]
  omega

/-- Clamping the end of a slice loses nothing. -/
theorem cut_next (size : Nat) (whole : List α) (n : Nat) :
    cut size whole (n + 1) = (whole.drop (n * size)).take size := by
  have step : (n + 1) * size = n * size + size := Nat.succ_mul n size
  rw [cut, start, stop, Nat.add_sub_cancel, step]
  rcases Nat.le_total (n * size + size) whole.length with inside | beyond
  · rw [min_eq_left inside, Nat.add_sub_cancel_left]
  · rw [min_eq_right beyond, List.take_of_length_le (by simp), List.take_of_length_le]
    rw [List.length_drop]
    omega

theorem cuts_front (size : Nat) (whole : List α) (n : Nat) :
    (List.range' 1 n).flatMap (cut size whole) = whole.take (n * size) := by
  induction n with
  | zero => simp
  | succ n ih =>
      rw [List.range'_1_concat, List.flatMap_append, ih, List.flatMap_singleton, Nat.add_comm 1 n, cut_next,
        Nat.succ_mul, List.take_add]

/-- The slices together are the list. -/
theorem cuts_whole (positive : 0 < size) (whole : List α) :
    (List.range' 1 (count size whole.length)).flatMap (cut size whole) = whole := by
  rw [cuts_front, List.take_of_length_le (count_covers positive)]

end Cuts
end Slices
