import Mathlib.Data.List.DropRight
/-!
# Deques with a maximal length

A full deque loses its oldest item when one is appended. What it holds are the
last items that were appended, so two deques that are given the same items hold
the same.
-/

namespace SysLib

/-- `collections.deque(maxlen=maxlen)`. -/
structure Deque (α : Type) (maxlen : Nat) where
  items : List α
  fits : items.length ≤ maxlen

namespace Deque

variable {α β : Type} {maxlen : Nat}

def empty : Deque α maxlen := ⟨[], Nat.zero_le _⟩

theorem length_rtake_le (l : List α) (n : Nat) : (l.rtake n).length ≤ n := by
  rw [List.rtake, List.length_drop]
  omega

def append (d : Deque α maxlen) (a : α) : Deque α maxlen := ⟨(d.items ++ [a]).rtake maxlen, length_rtake_le _ _⟩

@[simp] theorem items_empty : (empty : Deque α maxlen).items = [] := rfl

theorem map_append (f : α → β) (d : Deque α maxlen) (a : α) :
    (d.append a).items.map f = (d.items.map f ++ [f a]).rtake maxlen := by
  simp [append, List.rtake, List.map_drop]

/-- Deques with the same view keep it, when what is appended looks the same. -/
theorem map_append_congr {γ : Type} {f : α → γ} {g : β → γ} {d : Deque α maxlen} {d' : Deque β maxlen}
    (h : d.items.map f = d'.items.map g) {a : α} {b : β} (hab : f a = g b) :
    (d.append a).items.map f = (d'.append b).items.map g := by
  rw [map_append, map_append, h, hab]

theorem mem_append {d : Deque α maxlen} {a b : α} (h : b ∈ (d.append a).items) : b ∈ d.items ∨ b = a := by
  have hmem : b ∈ d.items ++ [a] := List.mem_of_mem_drop h
  simpa using hmem

/-- The item that was appended is there. -/
theorem self_mem_append (hmax : 0 < maxlen) (d : Deque α maxlen) (a : α) : a ∈ (d.append a).items := by
  obtain ⟨k, rfl⟩ := Nat.exists_eq_add_of_le' hmax
  show a ∈ (d.items ++ [a]).rtake (k + 1)
  rw [List.rtake_concat_succ]
  exact List.mem_append_right _ (List.mem_singleton_self a)

theorem items_of_zero (d : Deque α 0) : d.items = [] := List.length_eq_zero_iff.1 (Nat.le_zero.1 d.fits)

end Deque

end SysLib
