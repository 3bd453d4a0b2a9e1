import Mathlib.Data.List.Basic
import Mathlib.Order.Basic
/-!
# Sweeps over counters that go up

A reader goes over a list of counters, one by one, while others count on, and
publishes what it saw when it is through. What it publishes was never the case at
one time, but it lies between the counters at its last publication and those now.
-/

namespace SysLib.Sweep

variable {ι V : Type}

/-- What was seen, and the counters at the time it was published. -/
structure Record (ι V : Type) where
  seen : ι → V
  counts : ι → V

structure State (ι V : Type) where
  /-- The counters that are left in this round. -/
  todo : List ι
  seen : ι → V
  published : List (Record ι V)

def start (ids : List ι) (zero : V) : State ι V := ⟨ids, fun _ => zero, []⟩

/-- The next counter is read, or what was seen is published. -/
def next [DecidableEq ι] (ids : List ι) (counters : ι → V) (s : State ι V) : State ι V :=
  match s.todo with
  | id :: rest => { s with todo := rest, seen := Function.update s.seen id (counters id) }
  | [] => { s with todo := ids, published := s.published ++ [⟨s.seen, counters⟩] }

/-- Nothing was seen that is not counted, and what was seen in this round is not
older than the last publication. -/
structure Inv [Preorder V] (ids : List ι) (counters : ι → V) (s : State ι V) : Prop where
  seen_le : ∀ id, s.seen id ≤ counters id
  record : ∀ r ∈ s.published, ∀ id, r.seen id ≤ r.counts id ∧ r.counts id ≤ counters id
  fresh : ∀ r ∈ s.published, ∀ id ∈ ids, id ∉ s.todo → r.counts id ≤ s.seen id
  order : s.published.Pairwise fun a b => ∀ id ∈ ids, a.counts id ≤ b.seen id

variable [Preorder V] {ids : List ι} {counters counters' : ι → V} {s : State ι V}

theorem start_inv {zero : V} (h : ∀ id, zero ≤ counters id) : Inv ids counters (start ids zero) where
  seen_le := h
  record := nofun
  fresh := nofun
  order := List.Pairwise.nil

theorem Inv.count (h : Inv ids counters s) (hle : ∀ id, counters id ≤ counters' id) : Inv ids counters' s where
  seen_le id := (h.seen_le id).trans (hle id)
  record r hr id := ⟨(h.record r hr id).1, (h.record r hr id).2.trans (hle id)⟩
  fresh := h.fresh
  order := h.order

theorem Inv.next [DecidableEq ι] (h : Inv ids counters s) : Inv ids counters (next ids counters s) := by
  unfold Sweep.next
  split
  · rename_i id rest htodo
    refine ⟨fun x => ?_, h.record, fun r hr x hx hrest => ?_, h.order⟩
    · show Function.update s.seen id (counters id) x ≤ counters x
      rcases eq_or_ne x id with rfl | hne
      · rw [Function.update_self]
      · rw [Function.update_of_ne hne]
        exact h.seen_le x
    · show r.counts x ≤ Function.update s.seen id (counters id) x
      rcases eq_or_ne x id with rfl | hne
      · rw [Function.update_self]
        exact (h.record r hr x).2
      · rw [Function.update_of_ne hne]
        refine h.fresh r hr x hx fun hmem => hrest ?_
        rw [htodo] at hmem
        exact (List.mem_cons.1 hmem).resolve_left hne
  · rename_i htodo
    refine ⟨h.seen_le, fun r hr => ?_, fun r hr x hx hno => absurd hx hno, ?_⟩
    · rcases List.mem_append.1 hr with hr | hr
      · exact h.record r hr
      · rw [List.mem_singleton.1 hr]
        exact fun id => ⟨h.seen_le id, le_refl _⟩
    · refine List.pairwise_append.2 ⟨h.order, List.pairwise_singleton _ _, fun a ha b hb id hid => ?_⟩
      rw [List.mem_singleton.1 hb]
      exact h.fresh a ha id hid (by rw [htodo]; exact List.not_mem_nil)

/-- What a publication says of a counter is at least what it was at any earlier
publication, and at most what it was at this one. -/
def Between (ids : List ι) (counters : ι → V) (s : State ι V) : Prop :=
  ∀ (n : Nat) (r : Record ι V), s.published[n]? = some r → ∀ id ∈ ids,
    r.seen id ≤ r.counts id ∧ r.counts id ≤ counters id ∧
      ∀ m < n, ∀ before : Record ι V, s.published[m]? = some before → before.counts id ≤ r.seen id

theorem Inv.between (h : Inv ids counters s) : Between ids counters s := by
  intro n r hn id hid
  obtain ⟨hseen, hcounts⟩ := h.record r (List.mem_of_getElem? hn) id
  refine ⟨hseen, hcounts, fun m hlt before hm => ?_⟩
  obtain ⟨hmlen, rfl⟩ := List.getElem?_eq_some_iff.1 hm
  obtain ⟨hnlen, rfl⟩ := List.getElem?_eq_some_iff.1 hn
  exact List.pairwise_iff_getElem.1 h.order m n hmlen hnlen hlt id hid

/-! ## Totals -/

def total : List ι → (ι → Nat) → Nat
  | [], _ => 0
  | id :: rest, f => f id + total rest f

theorem total_mono {ids : List ι} {f g : ι → Nat} (h : ∀ id ∈ ids, f id ≤ g id) : total ids f ≤ total ids g := by
  induction ids with
  | nil => exact Nat.le_refl _
  | cons id rest ih =>
    have hid := h id List.mem_cons_self
    have hrest := ih fun x hx => h x (List.mem_cons_of_mem _ hx)
    unfold total
    omega

end SysLib.Sweep
