import Mathlib.Tactic

namespace Mymuduo.Lib

/-! Half-open slices of a list and writes into it. A write outside the list is refused. -/

variable {α : Type*}

/-- The elements at positions `i ≤ k < j`. -/
def slice (xs : List α) (i j : Nat) : List α := (xs.drop i).take (j - i)

/-- Reads the positions `i ≤ k < j`; refused when they are not all inside the list. -/
def readSlice (xs : List α) (i j : Nat) : Option (List α) :=
  if i ≤ j ∧ j ≤ xs.length then some (slice xs i j) else none

/-- Copies `ys` over the positions from `i` on; refused when it would leave the list. -/
def overwrite (xs : List α) (i : Nat) (ys : List α) : Option (List α) :=
  if i + ys.length ≤ xs.length then some (xs.take i ++ ys ++ xs.drop (i + ys.length)) else none

/-- A vector's resize: cut to `n` elements, or filled up to `n` with `x`. -/
def resize (xs : List α) (n : Nat) (x : α) : List α := xs.take n ++ List.replicate (n - xs.length) x

@[simp] theorem slice_self (xs : List α) (i : Nat) : slice xs i i = [] := by simp [slice]

theorem length_slice (xs : List α) (i j : Nat) (hj : j ≤ xs.length) :
    (slice xs i j).length = j - i := by
  simp only [slice, List.length_take, List.length_drop]
  omega

@[simp] theorem length_resize (xs : List α) (n : Nat) (x : α) : (resize xs n x).length = n := by
  simp only [resize, List.length_append, List.length_take, List.length_replicate]
  omega

/-- A slice inside the kept part survives a resize. -/
theorem slice_resize (xs : List α) (i j n : Nat) (x : α) (hj : j ≤ xs.length) (hn : j ≤ n) :
    slice (resize xs n x) i j = slice xs i j := by
  rcases Nat.le_total i j with hi | hi
  · have hl : i ≤ (xs.take n).length := by simp only [List.length_take]; omega
    unfold slice resize
    rw [List.drop_append_of_le_length hl,
      List.take_append_of_le_length (by simp only [List.length_drop, List.length_take]; omega),
      List.drop_take, List.take_take]
    congr 1
    omega
  · simp [slice, Nat.sub_eq_zero_of_le hi]

theorem drop_slice (xs : List α) (i j k : Nat) : (slice xs i j).drop k = slice xs (i + k) j := by
  unfold slice
  rw [List.drop_take, List.drop_drop]
  congr 1
  omega

theorem take_slice (xs : List α) (i j k : Nat) (h : i + k ≤ j) :
    (slice xs i j).take k = slice xs i (i + k) := by
  unfold slice
  rw [List.take_take]
  congr 1
  omega

theorem readSlice_eq_some (xs : List α) (i j : Nat) (hi : i ≤ j) (hj : j ≤ xs.length) :
    readSlice xs i j = some (slice xs i j) := if_pos ⟨hi, hj⟩

theorem exists_overwrite (xs ys : List α) (i : Nat) (h : i + ys.length ≤ xs.length) :
    ∃ zs, overwrite xs i ys = some zs := ⟨_, if_pos h⟩

theorem length_overwrite {xs ys zs : List α} {i : Nat} (h : overwrite xs i ys = some zs) :
    zs.length = xs.length := by
  unfold overwrite at h
  split at h
  · next hb =>
    obtain rfl := Option.some.inj h
    simp only [List.length_append, List.length_take, List.length_drop]
    omega
  · cases h

/-- A write at the end `j` of a slice extends the slice by what was written. -/
theorem slice_overwrite {xs ys zs : List α} {i j : Nat} (h : overwrite xs j ys = some zs)
    (hi : i ≤ j) : slice zs i (j + ys.length) = slice xs i j ++ ys := by
  unfold overwrite at h
  split at h
  · next hb =>
    obtain rfl := Option.some.inj h
    have hl : (xs.take j).length = j := by rw [List.length_take]; omega
    unfold slice
    rw [List.append_assoc, List.drop_append_of_le_length (by omega), List.drop_take,
      List.take_append, List.take_of_length_le (by rw [List.length_take]; omega)]
    congr 1
    rw [List.length_take, List.length_drop, show j + ys.length - i - min (j - i) (xs.length - i) =
      ys.length by omega, List.take_left]
  · cases h

end Mymuduo.Lib
