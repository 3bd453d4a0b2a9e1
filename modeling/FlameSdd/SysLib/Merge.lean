import Mathlib.Algebra.GroupWithZero.Nat
import Mathlib.Algebra.Order.BigOperators.Group.List
import Mathlib.Algebra.Order.Group.Nat
import Mathlib.Data.List.Perm.Basic
/-!
# Merged streams

Several writers share one queue, where every item keeps the tag of its writer.
What came from one writer is a part of the queue, and the queue is a permutation
of its parts. A reader that counts one end marker for every writer has seen the
marker of each.
-/

namespace SysLib.Merge

variable {ι α : Type} [DecidableEq ι]

/-- What one writer put on the queue, in order. -/
def part (w : ι) (l : List (ι × α)) : List α := (l.filter fun e => e.1 = w).map Prod.snd

@[simp] theorem part_append (w : ι) (l m : List (ι × α)) : part w (l ++ m) = part w l ++ part w m := by
  simp [part]

theorem part_singleton (w v : ι) (a : α) : part w [(v, a)] = if v = w then [a] else [] := by
  by_cases h : v = w <;> simp [part, h]

theorem part_prefix {l m : List (ι × α)} (h : l <+: m) (w : ι) : part w l <+: part w m :=
  (h.filter _).map _

/-- Filters that exclude each other split what any of them takes. -/
theorem perm_filters {β τ : Type} {ps : List τ} {p : τ → β → Bool}
    (hp : ps.Pairwise fun a b => ∀ x, p a x = true → p b x = false) (l : List β) :
    (l.filter fun x => ps.any fun a => p a x).Perm (ps.flatMap fun a => l.filter (p a)) := by
  induction ps with
  | nil => simp
  | cons a ps ih =>
    rw [List.pairwise_cons] at hp
    have hfirst : (l.filter fun x => (a :: ps).any fun b => p b x).filter (p a) = l.filter (p a) := by
      rw [List.filter_filter]
      apply List.filter_congr
      intro x _
      cases hx : p a x <;> simp [hx]
    have hrest : ((l.filter fun x => (a :: ps).any fun b => p b x).filter fun x => !p a x) =
        l.filter fun x => ps.any fun b => p b x := by
      rw [List.filter_filter]
      apply List.filter_congr
      intro x _
      cases hx : p a x with
      | false => simp [hx]
      | true =>
        have hnone : (ps.any fun b => p b x) = false := List.any_eq_false.2 fun b hb => by simp [hp.1 b hb x hx]
        rw [hnone]
        rfl
    have hsplit := List.filter_append_perm (p a) (l.filter fun x => (a :: ps).any fun b => p b x)
    rw [hfirst, hrest] at hsplit
    exact hsplit.symm.trans ((ih hp.2).append_left _)

/-- A queue is a permutation of the parts of its writers. -/
theorem perm_parts {tags : List ι} (hn : tags.Nodup) {l : List (ι × α)} (h : ∀ e ∈ l, e.1 ∈ tags) :
    (l.map Prod.snd).Perm (tags.flatMap fun w => part w l) := by
  have hdisjoint : tags.Pairwise fun v w => ∀ e : ι × α, decide (e.1 = v) = true → decide (e.1 = w) = false := by
    refine hn.imp fun hne e he => decide_eq_false ?_
    rintro rfl
    exact hne (of_decide_eq_true he).symm
  have hall : l.filter (fun e => tags.any fun w => decide (e.1 = w)) = l :=
    List.filter_eq_self.2 fun e he => List.any_eq_true.2 ⟨e.1, h e he, decide_eq_true rfl⟩
  have hperm := (perm_filters hdisjoint l).map Prod.snd
  rw [hall, List.map_flatMap] at hperm
  exact hperm

/-- Numbers of at most one that add up to their count are all one. -/
theorem eq_one_of_sum {τ : Type} {tags : List τ} {f : τ → Nat} (hle : ∀ w ∈ tags, f w ≤ 1)
    (hsum : (tags.map f).sum = tags.length) : ∀ w ∈ tags, f w = 1 := by
  induction tags with
  | nil => exact nofun
  | cons w tags ih =>
    have hw := hle w List.mem_cons_self
    have hrest : ∀ v ∈ tags, f v ≤ 1 := fun v hv => hle v (List.mem_cons_of_mem _ hv)
    have hbound : (tags.map f).sum ≤ tags.length := by
      have hcard := List.sum_le_card_nsmul (tags.map f) 1 (by simpa using hrest)
      simpa using hcard
    rw [List.map_cons, List.sum_cons, List.length_cons] at hsum
    intro v hv
    rcases List.mem_cons.1 hv with rfl | hv
    · omega
    · exact ih hrest (by omega) v hv

/-- As many end markers as there are writers, none of which puts two: every
writer's marker is there. -/
theorem none_mem_part {tags : List ι} (hn : tags.Nodup) {l : List (ι × Option α)} (h : ∀ e ∈ l, e.1 ∈ tags)
    (hone : ∀ w ∈ tags, (part w l).countP Option.isNone ≤ 1)
    (hcount : (l.map Prod.snd).countP Option.isNone = tags.length) : ∀ w ∈ tags, none ∈ part w l := by
  have hsum : (tags.map fun w => (part w l).countP Option.isNone).sum = tags.length := by
    rw [← hcount, (perm_parts hn h).countP_eq, List.countP_flatMap]
    rfl
  intro w hw
  have heq := eq_one_of_sum hone hsum w hw
  obtain ⟨a, ha, hnone⟩ := List.countP_pos_iff.1 (Nat.lt_of_lt_of_eq Nat.zero_lt_one heq.symm)
  obtain rfl := Option.isNone_iff_eq_none.1 hnone
  exact ha

end SysLib.Merge
