import Mathlib.Algebra.Order.BigOperators.Group.List
import Mathlib.Algebra.Order.Group.Basic
import Mathlib.Algebra.Order.Group.MinMax
import Mathlib.Data.Finset.Max
import Mathlib.Tactic.Abel
import EdxPlatform.Lib.ShortNames

/-!
# Thresholds for the largest values

The sum of the `k` largest values of a list is the least that `k` times a threshold and the
excess over it come to.  Bounds by the excess are easier to compare than sums of the
largest, since every value counts on its own.
-/

namespace EdxPlatform

variable {α : Type} [AddCommGroup α] [LinearOrder α]

section

variable (threshold : α)

def excess (values : List α) : α := (values.map fun value => max (value - threshold) 0).sum

@[simp]
theorem excess_nil : excess threshold [] = 0 := rfl

@[simp]
theorem excess_cons (threshold value : α) (values : List α) :
    excess threshold (value :: values) = max (value - threshold) 0 + excess threshold values := rfl

theorem excess_append (values others : List α) :
    excess threshold (values ++ others) = excess threshold values + excess threshold others := by
  simp only [excess, map_append, sum_append]

theorem excess_perm {values others : List α} (hperm : values.Perm others) :
    excess threshold values = excess threshold others :=
  (hperm.map _).sum_eq

end

theorem excess_zero_eq_sum {values : List α} (hnn : ∀ value ∈ values, 0 ≤ value) : excess 0 values = values.sum := by
  induction values with
  | nil => rfl
  | cons value values ih =>
    rw [excess_cons, sub_zero, max_eq_left (hnn value mem_cons_self), sum_cons,
      ih fun other hoth => hnn other (mem_cons_of_mem _ hoth)]

variable [IsOrderedAddMonoid α] (threshold : α)

theorem excess_nonneg (values : List α) : 0 ≤ excess threshold values := by
  refine List.sum_nonneg fun value hval => ?_
  obtain ⟨_, -, rfl⟩ := mem_map.mp hval
  exact le_max_right _ _

theorem excess_eq_zero {threshold : α} {values : List α} (hle : ∀ value ∈ values, value ≤ threshold) :
    excess threshold values = 0 := by
  refine List.sum_eq_zero fun value hval => ?_
  obtain ⟨found, hfnd, rfl⟩ := mem_map.mp hval
  exact max_eq_right (sub_nonpos.mpr (hle found hfnd))

theorem sum_le_thresholds (kept dropped : List α) :
    kept.sum ≤ kept.length • threshold + excess threshold (kept ++ dropped) := by
  have hkept : kept.sum ≤ kept.length • threshold + excess threshold kept := by
    induction kept with
    | nil => simp
    | cons value values ih =>
      have hval : value ≤ threshold + max (value - threshold) 0 := by
        rw [← sub_le_iff_le_add']
        exact le_max_left _ _
      calc (value :: values).sum
          = value + values.sum := sum_cons
        _ ≤ (threshold + max (value - threshold) 0) +
              (values.length • threshold + excess threshold values) := add_le_add hval ih
        _ = (value :: values).length • threshold + excess threshold (value :: values) := by
            rw [length_cons, succ_nsmul, excess_cons]
            abel
  rw [excess_append]
  have hdrop := excess_nonneg threshold dropped
  calc kept.sum
      ≤ kept.length • threshold + excess threshold kept := hkept
    _ ≤ kept.length • threshold + (excess threshold kept + excess threshold dropped) := by
        rw [← add_assoc]
        exact le_add_of_nonneg_right hdrop

theorem exists_threshold {kept dropped : List α} (hkept : kept ≠ [])
    (hlarg : ∀ value ∈ kept, ∀ other ∈ dropped, other ≤ value) :
    ∃ threshold ∈ kept, kept.sum = kept.length • threshold + excess threshold (kept ++ dropped) := by
  obtain ⟨threshold, hthr, hleast⟩ : ∃ threshold ∈ kept, ∀ value ∈ kept, threshold ≤ value := by
    obtain ⟨threshold, hmem, hleast⟩ := kept.toFinset.exists_min_image id
      (List.toFinset_nonempty_iff kept |>.mpr hkept)
    exact ⟨threshold, mem_toFinset.mp hmem, fun value hval => hleast value (mem_toFinset.mpr hval)⟩
  refine ⟨threshold, hthr, ?_⟩
  have hnone : excess threshold dropped = 0 := excess_eq_zero fun other hoth => hlarg threshold hthr other hoth
  rw [excess_append, hnone, add_zero]
  clear hthr hlarg hnone hkept
  induction kept with
  | nil => simp
  | cons value values ih =>
    have hval : max (value - threshold) 0 = value - threshold :=
      max_eq_left (sub_nonneg.mpr (hleast value mem_cons_self))
    rw [sum_cons, ih fun other hoth => hleast other (mem_cons_of_mem _ hoth),
      length_cons, succ_nsmul, excess_cons, hval]
    abel

end EdxPlatform
