import Mathlib.Data.List.Basic
/-!
# Items on a stream

Items whose texts can be told apart at the front of any longer text. A stream of
such items falls into them in one way only, and a piece of an item is never a
stream.
-/

namespace SysLib

variable {α β : Type} {text : α → List β}

/-- No text is empty, and none starts another item's. -/
structure PrefixCode (text : α → List β) : Prop where
  nonempty (a : α) : text a ≠ []
  front {a b : α} {s t : List β} : text a ++ s = text b ++ t → a = b

namespace PrefixCode

/-- What follows a stream in a stream is a stream again. -/
theorem append_eq (h : PrefixCode text) {l m : List α} {x : List β} (heq : l.flatMap text ++ x = m.flatMap text) :
    ∃ r, m = l ++ r ∧ x = r.flatMap text := by
  induction l generalizing m with
  | nil => exact ⟨m, rfl, heq⟩
  | cons a l ih =>
    cases m with
    | nil =>
      have hnil := List.append_eq_nil_iff.1 heq
      exact absurd (List.append_eq_nil_iff.1 hnil.1).1 (h.nonempty a)
    | cons b m =>
      rw [List.flatMap_cons, List.flatMap_cons, List.append_assoc] at heq
      obtain rfl := h.front heq
      obtain ⟨r, rfl, hx⟩ := ih (List.append_cancel_left heq)
      exact ⟨r, rfl, hx⟩

theorem flatMap_eq_nil (h : PrefixCode text) {l : List α} (heq : l.flatMap text = []) : l = [] := by
  cases l with
  | nil => rfl
  | cons a l => exact absurd (List.append_eq_nil_iff.1 heq).1 (h.nonempty a)

theorem flatMap_injective (h : PrefixCode text) : Function.Injective fun l : List α => l.flatMap text := by
  intro l m heq
  obtain ⟨r, rfl, hr⟩ := h.append_eq (x := []) ((List.append_nil _).trans heq)
  rw [h.flatMap_eq_nil hr.symm, List.append_nil]

/-- A piece of an item that is neither empty nor whole is no stream. -/
theorem take_ne_flatMap (h : PrefixCode text) {a : α} {n : Nat} (h0 : 0 < n) (hn : n < (text a).length)
    (l : List α) : (text a).take n ≠ l.flatMap text := by
  intro heq
  have hlen := congrArg List.length heq
  rw [List.length_take] at hlen
  cases l with
  | nil =>
    rw [List.flatMap_nil, List.length_nil] at hlen
    omega
  | cons b l =>
    have hwhole : text b ++ (l.flatMap text ++ (text a).drop n) = text a ++ [] := by
      rw [← List.append_assoc, ← List.flatMap_cons, ← heq, List.take_append_drop, List.append_nil]
    obtain rfl := h.front hwhole
    rw [List.flatMap_cons, List.length_append] at hlen
    omega

end PrefixCode

end SysLib
