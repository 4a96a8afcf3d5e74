import Mathlib.Algebra.BigOperators.Group.Finset.Piecewise
import Mathlib.Algebra.Order.BigOperators.Group.Finset

/-! # Weights of the threads of a program

Every thread of a finite type has a state, and every state has a weight.
-/

namespace FalconLink.Counting

variable {ι β : Type*} [Fintype ι]

/-- The weight of all threads together. -/
def total (weight : β → ℕ) (f : ι → β) : ℕ :=
  ∑ i, weight (f i)

/-- A step of one thread changes the total by the difference of its two weights. -/
theorem total_update [DecidableEq ι] (weight : β → ℕ) (f : ι → β) (i : ι) (b : β) :
    total weight (Function.update f i b) + weight (f i) = total weight f + weight b := by
  have hold := Finset.sum_erase_add Finset.univ (fun j => weight (f j)) (Finset.mem_univ i)
  have hnew := Finset.sum_erase_add Finset.univ (fun j => weight (Function.update f i b j))
    (Finset.mem_univ i)
  have hothers : ∑ j ∈ Finset.univ.erase i, weight (Function.update f i b j) =
      ∑ j ∈ Finset.univ.erase i, weight (f j) := by
    apply Finset.sum_congr rfl
    intro j hj
    rw [Function.update_of_ne (Finset.ne_of_mem_erase hj)]
  rw [hothers, Function.update_self] at hnew
  unfold total
  omega

theorem total_le {weight : β → ℕ} {bound : ℕ} (h : ∀ b, weight b ≤ bound) (f : ι → β) :
    total weight f ≤ Fintype.card ι * bound :=
  calc
    total weight f ≤ ∑ _i : ι, bound := Finset.sum_le_sum fun i _ => h (f i)
    _ = Fintype.card ι * bound := Finset.sum_const_nat fun _ _ => rfl

theorem total_eq_zero {weight : β → ℕ} {f : ι → β} (h : ∀ i, weight (f i) = 0) :
    total weight f = 0 :=
  Finset.sum_eq_zero fun i _ => h i

end FalconLink.Counting
