import Mathlib.Data.List.Basic
/-!
# Fixed buffers

Arrays of a fixed size, written element by element. A write past the end has no
result. What was written so far is a prefix of the buffer, and `write_append`
says how it grows.
-/

namespace SysLib.Buffer

variable {α : Type} {m n : Nat}

/-- The elements, written one after the other from `i` on. -/
def write (buf : Vector α n) : Nat → List α → Option (Vector α n)
  | _, [] => some buf
  | i, a :: l => if h : i < n then write (buf.set i a) (i + 1) l else none

/-- The first `k` elements of one buffer, copied to another one by one. -/
def copyFirst (src : Vector α m) (dst : Vector α n) : Nat → Option (Vector α n)
  | 0 => some dst
  | k + 1 => do
    let dst ← copyFirst src dst k
    if h : k < m ∧ k < n then some (dst.set k src[k] h.2) else none

theorem toList_set_length {buf : Vector α n} {l rest : List α} (a : α) {x : α} (hbuf : buf.toList = l ++ x :: rest)
    (h : l.length < n) : (buf.set l.length a h).toList = l ++ a :: rest := by
  rw [Vector.toList_set, hbuf, List.set_append_right _ _ (Nat.le_refl _), Nat.sub_self, List.set_cons_zero]

/-- What is written after a prefix makes it longer. -/
theorem write_append {buf : Vector α n} {l l' : List α} (hbuf : l <+: buf.toList) (h : l.length + l'.length ≤ n) :
    ∃ buf', write buf l.length l' = some buf' ∧ l ++ l' <+: buf'.toList := by
  induction l' generalizing buf l with
  | nil => exact ⟨buf, rfl, by simpa using hbuf⟩
  | cons a l' ih =>
    rw [List.length_cons] at h
    have hlt : l.length < n := by omega
    obtain ⟨rest, hrest⟩ := hbuf
    have hlen : l.length + rest.length = n := by simpa using congrArg List.length hrest
    match rest, hlen with
    | [], hlen => exact absurd hlt (by simp [← hlen])
    | x :: rest, _ =>
      have hset := toList_set_length a hrest.symm hlt
      rw [List.append_cons] at hset
      obtain ⟨buf', hw, hp⟩ := @ih _ (l ++ [a]) ⟨rest, hset.symm⟩ (by simp; omega)
      rw [List.length_append, List.length_singleton] at hw
      refine ⟨buf', ?_, by rwa [← List.append_cons] at hp⟩
      rw [write, dif_pos hlt, hw]

theorem copyFirst_eq (src : Vector α m) (dst : Vector α n) {k : Nat} (hm : k ≤ m) (hn : k ≤ n) :
    ∃ dst', copyFirst src dst k = some dst' ∧ dst'.toList = src.toList.take k ++ dst.toList.drop k := by
  induction k with
  | zero => exact ⟨dst, rfl, rfl⟩
  | succ k ih =>
    obtain ⟨dst', hc, hl⟩ := ih (Nat.le_of_succ_le hm) (Nat.le_of_succ_le hn)
    have hk : (src.toList.take k).length = k := by
      rw [List.length_take, Vector.length_toList]
      exact Nat.min_eq_left (Nat.le_of_succ_le hm)
    rw [List.drop_eq_getElem_cons (by rwa [Vector.length_toList])] at hl
    refine ⟨dst'.set k src[k] hn, ?_, ?_⟩
    · rw [copyFirst, hc]
      exact dif_pos ⟨hm, hn⟩
    · have hset := toList_set_length src[k] hl (by rwa [hk])
      simp only [hk] at hset
      rw [hset, List.take_succ_eq_append_getElem (by rwa [Vector.length_toList]), ← List.append_cons]
      rfl

end SysLib.Buffer
