import Mathlib.Algebra.BigOperators.Group.Finset.Basic
/-!
# Tallies

What the threads of a pool have in hand adds up over the pool. When one of them
moves on, the sum changes by what it had and what it has now.
-/

namespace SysLib.Tally

variable {ι α M : Type} [Fintype ι] [AddCommMonoid M]

/-- The tally of a table. -/
def tally (f : α → M) (g : ι → α) : M := ∑ i, f (g i)

theorem tally_eq_zero {f : α → M} {g : ι → α} (h : ∀ i, f (g i) = 0) : tally f g = 0 :=
  Finset.sum_eq_zero fun i _ => h i

variable [DecidableEq ι]

/-- One thread moves on. -/
theorem tally_update (f : α → M) (g : ι → α) (i : ι) (a : α) :
    tally f (Function.update g i a) + f (g i) = tally f g + f a := by
  have hrest : ∑ j ∈ Finset.univ.erase i, f (Function.update g i a j) = ∑ j ∈ Finset.univ.erase i, f (g j) :=
    Finset.sum_congr rfl fun j hj => by rw [Function.update_of_ne (Finset.ne_of_mem_erase hj)]
  rw [tally, tally, ← Finset.sum_erase_add _ _ (Finset.mem_univ i), ← Finset.sum_erase_add _ _ (Finset.mem_univ i),
    hrest, Function.update_self]
  exact add_right_comm _ _ _

/-- It had nothing in hand. -/
theorem tally_update_of_zero {f : α → M} {g : ι → α} {i : ι} (h : f (g i) = 0) (a : α) :
    tally f (Function.update g i a) = tally f g + f a := by
  rw [← tally_update f g i a, h, add_zero]

end SysLib.Tally
