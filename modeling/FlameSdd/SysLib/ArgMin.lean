import Mathlib.Data.List.MinMax
/-!
# The first minimum

A loop that keeps the best element so far, and exchanges it for one that is
strictly better only, ends with the first of the best: `List.argmin`.
-/

namespace SysLib.ArgMin

variable {α β : Type} [LinearOrder β]

/-- One turn of the loop. -/
def better (f : α → β) (best : Option α) (a : α) : Option α := if best.all fun b => f a < f b then some a else best

/-- The loop. -/
def firstMin (f : α → β) (l : List α) : Option α := l.foldl (better f) none

theorem firstMin_eq_argmin (f : α → β) (l : List α) : firstMin f l = l.argmin f := by
  have hstep : better f = List.argAux fun a b => f a < f b := by
    funext best a
    cases best with
    | none => rfl
    | some b => simp [better, List.argAux]
  rw [firstMin, hstep]
  rfl

theorem firstMin_eq_none_iff {f : α → β} {l : List α} : firstMin f l = none ↔ l = [] := by
  rw [firstMin_eq_argmin]
  exact List.argmin_eq_none

/-- The first element of the least value. -/
def IsFirstMin (f : α → β) (l : List α) (m : α) : Prop :=
  ∃ pre post, l = pre ++ m :: post ∧ (∀ a ∈ pre, f m < f a) ∧ ∀ a ∈ post, f m ≤ f a

theorem isFirstMin_of_argmin {f : α → β} {l : List α} {m : α} (h : l.argmin f = some m) : IsFirstMin f l m := by
  induction l generalizing m with
  | nil => cases h
  | cons a l ih =>
    rw [List.argmin_cons] at h
    cases hl : l.argmin f with
    | none =>
      obtain rfl := List.argmin_eq_none.1 hl
      obtain rfl := Option.some.inj h
      exact ⟨[], [], rfl, List.forall_mem_nil _, List.forall_mem_nil _⟩
    | some c =>
      simp only [hl] at h
      split at h
      · rename_i hlt
        obtain rfl := Option.some.inj h
        obtain ⟨pre, post, rfl, hpre, hpost⟩ := ih hl
        exact ⟨a :: pre, post, rfl, List.forall_mem_cons.2 ⟨hlt, hpre⟩, hpost⟩
      · rename_i hge
        obtain rfl := Option.some.inj h
        exact ⟨[], l, rfl, List.forall_mem_nil _, fun b hb => (not_lt.1 hge).trans (List.le_of_mem_argmin hb hl)⟩

theorem argmin_of_isFirstMin {f : α → β} {l : List α} {m : α} (h : IsFirstMin f l m) : l.argmin f = some m := by
  obtain ⟨pre, post, rfl, hpre, hpost⟩ := h
  induction pre with
  | nil =>
    rw [List.nil_append, List.argmin_cons]
    cases hl : post.argmin f with
    | none => rfl
    | some c => exact if_neg (not_lt.2 (hpost c (List.argmin_mem hl)))
  | cons a pre ih =>
    obtain ⟨ha, hpre⟩ := List.forall_mem_cons.1 hpre
    rw [List.cons_append, List.argmin_cons, ih hpre]
    exact if_pos ha

theorem firstMin_eq_some_iff {f : α → β} {l : List α} {m : α} : firstMin f l = some m ↔ IsFirstMin f l m := by
  rw [firstMin_eq_argmin]
  exact ⟨isFirstMin_of_argmin, argmin_of_isFirstMin⟩

/-- The first minimum of what elements are made of, where some are made of nothing. -/
theorem isFirstMin_filterMap_iff {γ : Type} {f : α → β} {g : γ → Option α} {l : List γ} {m : α} :
    IsFirstMin f (l.filterMap g) m ↔ ∃ pre c post, l = pre ++ c :: post ∧ g c = some m ∧
      (∀ b ∈ pre, ∀ a, g b = some a → f m < f a) ∧ ∀ b ∈ post, ∀ a, g b = some a → f m ≤ f a := by
  constructor
  · rintro ⟨pre, post, hsplit, hpre, hpost⟩
    obtain ⟨pre', rest, rfl, rfl, hrest⟩ := List.filterMap_eq_append_iff.1 hsplit
    obtain ⟨skipped, c, post', rfl, hskipped, hc, rfl⟩ := List.filterMap_eq_cons_iff.1 hrest
    refine ⟨pre' ++ skipped, c, post', by simp, hc, ?_, List.forall_mem_filterMap.1 hpost⟩
    intro b hb a ha
    rcases List.mem_append.1 hb with hb | hb
    · exact List.forall_mem_filterMap.1 hpre b hb a ha
    · rw [hskipped b hb] at ha
      cases ha
  · rintro ⟨pre, c, post, rfl, hc, hpre, hpost⟩
    refine ⟨pre.filterMap g, post.filterMap g, ?_, List.forall_mem_filterMap.2 hpre, List.forall_mem_filterMap.2 hpost⟩
    rw [List.filterMap_append, List.filterMap_cons_some hc]

/-- The order of the elements does not matter to the least value. -/
theorem firstMin_perm {f : α → β} {l l' : List α} (h : l.Perm l') : (firstMin f l).map f = (firstMin f l').map f := by
  rw [firstMin_eq_argmin, firstMin_eq_argmin]
  cases hm : l.argmin f with
  | none =>
    obtain rfl := List.argmin_eq_none.1 hm
    rw [List.nil_perm.1 h]
    rfl
  | some m =>
    cases hm' : l'.argmin f with
    | none =>
      obtain rfl := List.argmin_eq_none.1 hm'
      rw [List.perm_nil.1 h] at hm
      cases hm
    | some m' =>
      have hle : f m ≤ f m' := List.le_of_mem_argmin (h.mem_iff.2 (List.argmin_mem hm')) hm
      have hge : f m' ≤ f m := List.le_of_mem_argmin (h.mem_iff.1 (List.argmin_mem hm)) hm'
      rw [Option.map_some, Option.map_some, le_antisymm hle hge]

end SysLib.ArgMin
