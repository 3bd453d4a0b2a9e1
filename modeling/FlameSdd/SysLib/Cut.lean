import Mathlib.Data.List.Basic
/-!
# Cutting a stream

A stream transport keeps the order of what is written but not its boundaries:
the reader sees some cut of the stream into non-empty chunks of bounded size.
-/

namespace SysLib

variable {α : Type}

/-- One way of cutting a stream into chunks of at most `n` elements. -/
structure Cut (n : Nat) (stream : List α) where
  chunks : List (List α)
  flatten_eq : chunks.flatten = stream
  ne_nil : ∀ c ∈ chunks, c ≠ []
  length_le : ∀ c ∈ chunks, c.length ≤ n

theorem length_flatten_le_of_sublist {l₁ l₂ : List (List α)} (h : l₁.Sublist l₂) :
    l₁.flatten.length ≤ l₂.flatten.length := by
  induction h with
  | slnil => exact Nat.le_refl _
  | cons c _ ih => simp only [List.flatten_cons, List.length_append]; omega
  | cons_cons c _ ih => simp only [List.flatten_cons, List.length_append]; omega

/-- Non-empty chunks cannot be left out of a list without losing content. -/
theorem eq_of_sublist_of_flatten {l₁ l₂ : List (List α)} (h : l₁.Sublist l₂) (hne : ∀ c ∈ l₂, c ≠ [])
    (hf : l₁.flatten = l₂.flatten) : l₁ = l₂ := by
  induction h with
  | slnil => rfl
  | @cons l₁ l₂ c hsub _ =>
    have hlen := congrArg List.length hf
    have hle := length_flatten_le_of_sublist hsub
    have hpos : 0 < c.length := List.length_pos_iff.2 (hne c (by simp))
    simp only [List.flatten_cons, List.length_append] at hlen
    omega
  | @cons_cons l₁ l₂ c _ ih =>
    rw [ih (fun d hd => hne d (by simp [hd])) (List.append_cancel_left hf)]

/-- A cut of which only some chunks make up the whole stream has no others. -/
theorem Cut.chunks_eq {n : Nat} {l : List (List α)} (cut : Cut n l.flatten) (h : l.Sublist cut.chunks) :
    cut.chunks = l :=
  (eq_of_sublist_of_flatten h cut.ne_nil cut.flatten_eq.symm).symm

end SysLib
