import Mathlib.Data.List.Basic
/-!
# Runs of an event-driven machine

A machine is a step function; a run is a list of events, handled one after the
other. An invariant needs one step lemma, which may rely on a condition that
every step of the run meets.
-/

namespace SysLib

variable {S E : Type}

/-- The state after a run. -/
def runs (step : S → E → S) (s : S) (evs : List E) : S := evs.foldl step s

/-- Some run leads from `init` to the state. -/
def Reachable (step : S → E → S) (init s : S) : Prop := ∃ evs, runs step init evs = s

/-- Every step of the run meets `P`, judged in the state before it. -/
def StepsMeet (step : S → E → S) (P : S → E → Prop) : S → List E → Prop
  | _, [] => True
  | s, e :: evs => P s e ∧ StepsMeet step P (step s e) evs

variable {step : S → E → S}

instance StepsMeet.decidable {P : S → E → Prop} [∀ s e, Decidable (P s e)] :
    ∀ (s : S) (evs : List E), Decidable (StepsMeet step P s evs)
  | _, [] => .isTrue trivial
  | s, e :: evs =>
    have := StepsMeet.decidable (P := P) (step s e) evs
    inferInstanceAs (Decidable (P s e ∧ StepsMeet step P (step s e) evs))

@[simp] theorem runs_nil (s : S) : runs step s [] = s := rfl

@[simp] theorem runs_cons (s : S) (e : E) (evs : List E) : runs step s (e :: evs) = runs step (step s e) evs := rfl

theorem runs_append (s : S) (a b : List E) : runs step s (a ++ b) = runs step (runs step s a) b := by
  simp [runs, List.foldl_append]

/-- Conditions that agree in every state agree along every run. -/
theorem stepsMeet_congr {P Q : S → E → Prop} (h : ∀ s e, P s e ↔ Q s e) (s : S) (evs : List E) :
    StepsMeet step P s evs ↔ StepsMeet step Q s evs := by
  induction evs generalizing s with
  | nil => exact Iff.rfl
  | cons e evs ih => exact and_congr (h s e) (ih _)

/-- An invariant kept by every step that meets `P` holds after every run whose
steps all meet it. -/
theorem runs_inv {P : S → E → Prop} (I : S → Prop) (hs : ∀ s e, I s → P s e → I (step s e))
    {s : S} {evs : List E} (hi : I s) (h : StepsMeet step P s evs) : I (runs step s evs) := by
  induction evs generalizing s with
  | nil => exact hi
  | cons e evs ih => exact ih (hs s e hi h.1) h.2

theorem stepsMeet_true (s : S) (evs : List E) : StepsMeet step (fun _ _ => True) s evs := by
  induction evs generalizing s with
  | nil => trivial
  | cons e evs ih => exact ⟨trivial, ih _⟩

theorem StepsMeet.imp {P Q : S → E → Prop} (h : ∀ s e, P s e → Q s e) {s : S} {evs : List E}
    (hmeet : StepsMeet step P s evs) : StepsMeet step Q s evs := by
  induction evs generalizing s with
  | nil => trivial
  | cons e evs ih => exact ⟨h s e hmeet.1, ih hmeet.2⟩

/-- Conditions that agree in the states with `I`, which they keep, agree along
every run from there. -/
theorem stepsMeet_iff {I : S → Prop} {P Q : S → E → Prop} (h : ∀ s e, I s → (Q s e ↔ P s e))
    (hi : ∀ s e, I s → Q s e → I (step s e)) {s : S} (hs : I s) (evs : List E) :
    StepsMeet step Q s evs ↔ StepsMeet step P s evs := by
  induction evs generalizing s with
  | nil => exact Iff.rfl
  | cons e evs ih =>
    constructor
    · rintro ⟨hq, hrest⟩
      exact ⟨(h s e hs).1 hq, (ih (hi s e hs hq)).1 hrest⟩
    · rintro ⟨hp, hrest⟩
      have hq := (h s e hs).2 hp
      exact ⟨hq, (ih (hi s e hs hq)).2 hrest⟩

/-- Where a step keeps `I` exactly when it meets `P`, a run keeps `I` exactly
when all its steps meet `P`. -/
theorem stepsMeet_inv_iff {I J : S → Prop} {P : S → E → Prop} (hj : ∀ s e, J s → J (step s e))
    (hi : ∀ s e, J s → I s → (I (step s e) ↔ P s e)) {s : S} (hjs : J s) (his : I s) (evs : List E) :
    StepsMeet step (fun s e => I (step s e)) s evs ↔ StepsMeet step P s evs :=
  stepsMeet_iff (I := fun s => J s ∧ I s) (fun s e h => hi s e h.1 h.2) (fun s e h h' => ⟨hj s e h.1, h'⟩)
    ⟨hjs, his⟩ evs

/-- A property of every state of a run. -/
theorem stepsMeet_next_iff {I : S → Prop} {s : S} (h : I s) (evs : List E) :
    StepsMeet step (fun s e => I (step s e)) s evs ↔ ∀ pre, pre <+: evs → I (runs step s pre) := by
  induction evs generalizing s with
  | nil =>
    refine iff_of_true trivial fun pre hp => ?_
    rwa [List.prefix_nil.1 hp]
  | cons e evs ih =>
    constructor
    · rintro ⟨he, hrest⟩ pre hp
      rcases List.prefix_cons_iff.1 hp with rfl | ⟨pre', rfl, hp'⟩
      · exact h
      · exact (ih he).1 hrest pre' hp'
    · intro hall
      have he : I (step s e) := hall [e] ⟨evs, rfl⟩
      exact ⟨he, (ih he).2 fun pre hp => hall (e :: pre) (List.cons_prefix_cons.2 ⟨rfl, hp⟩)⟩

/-- Several conditions are met by a run when each of them is. -/
theorem stepsMeet_forall_mem_iff {ι : Type} {l : List ι} {P : ι → S → E → Prop} (s : S) (evs : List E) :
    StepsMeet step (fun s e => ∀ i ∈ l, P i s e) s evs ↔ ∀ i ∈ l, StepsMeet step (P i) s evs := by
  induction evs generalizing s with
  | nil => simp [StepsMeet]
  | cons e evs ih => simp only [StepsMeet, ih, forall₂_and]

/-- A condition on the events alone is met by a run when all its events meet it. -/
theorem stepsMeet_forall_iff {P : E → Prop} (s : S) (evs : List E) :
    StepsMeet step (fun _ e => P e) s evs ↔ ∀ e ∈ evs, P e := by
  induction evs generalizing s with
  | nil => simp [StepsMeet]
  | cons e evs ih => rw [StepsMeet, ih, List.forall_mem_cons]

/-- A condition on a part of the state that steps by itself. -/
theorem stepsMeet_map_iff {T : Type} {stepT : T → E → T} (f : S → T) (hf : ∀ s e, f (step s e) = stepT (f s) e)
    {P : T → E → Prop} (s : S) (evs : List E) :
    StepsMeet step (fun s e => P (f s) e) s evs ↔ StepsMeet stepT P (f s) evs := by
  induction evs generalizing s with
  | nil => exact Iff.rfl
  | cons e evs ih => rw [StepsMeet, StepsMeet, ih, hf]

/-- Where a step keeps `I` exactly when it meets `P`, and nothing brings `I`
back, `I` holds after a run exactly when all steps meet `P`. -/
theorem runs_iff_stepsMeet {I : S → Prop} {P : S → E → Prop} (h : ∀ s e, I (step s e) ↔ I s ∧ P s e) (s : S)
    (evs : List E) : I (runs step s evs) ↔ I s ∧ StepsMeet step P s evs := by
  induction evs generalizing s with
  | nil => simp [StepsMeet]
  | cons e evs ih => rw [runs_cons, ih, h, StepsMeet, and_assoc]

theorem reachable_refl (s : S) : Reachable step s s := ⟨[], rfl⟩

theorem reachable_step {init s : S} (h : Reachable step init s) (e : E) : Reachable step init (step s e) := by
  obtain ⟨evs, rfl⟩ := h
  exact ⟨evs ++ [e], runs_append _ _ _⟩

/-- An invariant kept by every step holds in every reachable state. -/
theorem reachable_inv (I : S → Prop) {init s : S} (h0 : I init) (hs : ∀ s e, I s → I (step s e))
    (h : Reachable step init s) : I s := by
  obtain ⟨evs, rfl⟩ := h
  exact runs_inv I (fun s e hi _ => hs s e hi) h0 (stepsMeet_true _ _)

end SysLib
