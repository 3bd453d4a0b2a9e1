import Mathlib.Algebra.Group.Basic
import Mathlib.Data.Finset.Lattice.Fold
/-!
# Erosion and dilation

An image is a function on positions, of which those in a domain count. An
erosion takes the least and a dilation the greatest of the values at the offsets
of a kernel; positions off the domain are left out.
-/

namespace SysLib.Morphology

variable {G β : Type} [AddCommGroup G] [DecidableEq G] (domain kernel : Finset G)

/-- The offsets of the kernel that stay on the domain. -/
def reach (p : G) : Finset G := kernel.filter fun k => p + k ∈ domain

variable {domain kernel}

@[simp] theorem mem_reach {p k : G} : k ∈ reach domain kernel p ↔ k ∈ kernel ∧ p + k ∈ domain := Finset.mem_filter

variable [LinearOrder β] [BoundedOrder β]

variable (domain kernel) in
def erode (f : G → β) (p : G) : β := (reach domain kernel p).inf fun k => f (p + k)

variable (domain kernel) in
def dilate (f : G → β) (p : G) : β := (reach domain kernel p).sup fun k => f (p + k)

variable (domain kernel) in
/-- An erosion, then a dilation with the same kernel, which is not reflected. -/
def opening (f : G → β) : G → β := dilate domain kernel (erode domain kernel f)

variable {f : G → β}

theorem lt_erode_iff {p : G} {b : β} (hb : b < ⊤) :
    b < erode domain kernel f p ↔ ∀ k ∈ kernel, p + k ∈ domain → b < f (p + k) := by
  rw [erode, Finset.lt_inf_iff hb]
  simp only [mem_reach, and_imp]

theorem lt_dilate_iff {p : G} {b : β} :
    b < dilate domain kernel f p ↔ ∃ k ∈ kernel, p + k ∈ domain ∧ b < f (p + k) := by
  rw [dilate, Finset.lt_sup_iff]
  simp only [mem_reach, and_assoc]

theorem lt_opening_iff {p : G} {b : β} (hb : b < ⊤) :
    b < opening domain kernel f p ↔
      ∃ k ∈ kernel, p + k ∈ domain ∧ ∀ l ∈ kernel, p + k + l ∈ domain → b < f (p + k + l) := by
  rw [opening, lt_dilate_iff]
  simp only [lt_erode_iff hb]

end SysLib.Morphology
