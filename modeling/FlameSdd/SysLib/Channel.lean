import Mathlib.Data.List.Basic
/-!
# FIFO channels

A channel remembers everything ever sent on it and how much of that was
delivered, so what is pending, and the order of delivery, follow from the data.
-/

namespace SysLib

/-- A lossless first-in first-out channel. -/
structure Channel (α : Type) where
  sent : List α
  delivered : Nat
  delivered_le : delivered ≤ sent.length

namespace Channel
variable {α : Type}

def empty : Channel α := ⟨[], 0, Nat.le_refl _⟩

def send (c : Channel α) (x : α) : Channel α :=
  ⟨c.sent ++ [x], c.delivered, by have := c.delivered_le; simp; omega⟩

/-- The message the next delivery hands over. -/
def next (c : Channel α) : Option α := c.sent[c.delivered]?

/-- The channel after one delivery. -/
def deliver (c : Channel α) : Channel α :=
  if h : c.delivered < c.sent.length then ⟨c.sent, c.delivered + 1, h⟩ else c

@[simp] theorem sent_send (c : Channel α) (x : α) : (c.send x).sent = c.sent ++ [x] := rfl
@[simp] theorem sent_deliver (c : Channel α) : c.deliver.sent = c.sent := by
  unfold deliver; split <;> rfl

theorem next_lt {c : Channel α} {x : α} (h : c.next = some x) : c.delivered < c.sent.length :=
  (List.getElem?_eq_some_iff.1 h).1

theorem delivered_deliver {c : Channel α} {x : α} (h : c.next = some x) :
    c.deliver.delivered = c.delivered + 1 := by
  simp [deliver, next_lt h]

/-- The messages delivered so far. -/
def taken (c : Channel α) : List α := c.sent.take c.delivered

@[simp] theorem taken_send (c : Channel α) (x : α) : (c.send x).taken = c.taken :=
  List.take_append_of_le_length c.delivered_le

theorem taken_deliver {c : Channel α} {x : α} (h : c.next = some x) : c.deliver.taken = c.taken ++ [x] := by
  rw [taken, delivered_deliver h, sent_deliver, List.take_add_one, taken]
  rw [next] at h
  rw [h, Option.toList_some]

theorem taken_prefix (c : Channel α) : c.taken <+: c.sent := List.take_prefix _ _

/-- With nothing left to deliver, everything was delivered. -/
theorem taken_of_next {c : Channel α} (h : c.next = none) : c.taken = c.sent :=
  List.take_of_length_le (List.getElem?_eq_none_iff.1 h)

/-! ## The last message of a prefix -/

/-- The last of the first `n` messages. -/
def upTo (c : Channel α) (n : Nat) : Option α := (c.sent.take n).getLast?

/-- The message that was delivered last. -/
def last (c : Channel α) : Option α := c.upTo c.delivered

@[simp] theorem upTo_deliver (c : Channel α) (n : Nat) : c.deliver.upTo n = c.upTo n := by simp [upTo]

/-- Messages sent later leave the first ones alone. -/
theorem upTo_send {c : Channel α} {n : Nat} (h : n ≤ c.sent.length) (x : α) : (c.send x).upTo n = c.upTo n := by
  rw [upTo, sent_send, List.take_append_of_le_length h, upTo]

theorem last_deliver {c : Channel α} {x : α} (h : c.next = some x) : c.deliver.last = some x := by
  rw [last, delivered_deliver h, upTo, sent_deliver, List.take_add_one]
  rw [next] at h
  simp [h]

end Channel

end SysLib
