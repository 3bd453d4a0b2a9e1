import Mathlib.Logic.Function.Basic
import Mathlib.Order.Defs.Unbundled
/-!
# Programs that make requests

A program is a tree of requests, each followed by what is done with its answer.
It is run on a machine that answers the requests one by one, or checked against
every answer there can be. It may also stop for good, with an error.
-/

namespace SysLib

/-- A program that makes requests `Q`, answered in `A`, and ends with an `α` or
stops with an `ε`. -/
inductive Program (Q : Type) (A : Q → Type) (ε α : Type) where
  | done (a : α)
  | stop (e : ε)
  | ask (q : Q) (k : A q → Program Q A ε α)

namespace Program

variable {Q : Type} {A : Q → Type} {ε α β σ : Type}

def bind : Program Q A ε α → (α → Program Q A ε β) → Program Q A ε β
  | .done a, f => f a
  | .stop e, _ => .stop e
  | .ask q k, f => .ask q fun a => (k a).bind f

instance : Monad (Program Q A ε) where
  pure := .done
  bind := .bind

/-- One request, for its answer. -/
def request (q : Q) : Program Q A ε (A q) := .ask q .done

/-- The program has nothing left to do. -/
def ended : Program Q A ε α → Bool
  | .ask _ _ => false
  | _ => true

@[simp] theorem pure_eq (a : α) : (pure a : Program Q A ε α) = .done a := rfl
@[simp] theorem done_bind (a : α) (f : α → Program Q A ε β) : Program.done a >>= f = f a := rfl
@[simp] theorem stop_bind (e : ε) (f : α → Program Q A ε β) : Program.stop e >>= f = .stop e := rfl

@[simp] theorem ask_bind (q : Q) (k : A q → Program Q A ε α) (f : α → Program Q A ε β) :
    Program.ask q k >>= f = .ask q fun a => k a >>= f := rfl

@[simp] theorem request_bind (q : Q) (f : A q → Program Q A ε β) : request q >>= f = .ask q f := rfl

theorem bind_assoc (p : Program Q A ε α) (f : α → Program Q A ε β) {γ : Type} (g : β → Program Q A ε γ) :
    p >>= f >>= g = p >>= fun a => f a >>= g := by
  induction p with
  | done | stop => rfl
  | ask q k ih => exact congrArg (Program.ask q) (funext ih)

/-! ## Runs -/

variable (answer : σ → (q : Q) → σ × A q)

/-- The program, run on a machine in the state `s`. -/
def run : Program Q A ε α → σ → σ × Except ε α
  | .done a, s => (s, .ok a)
  | .stop e, s => (s, .error e)
  | .ask q k, s => run (k (answer s q).2) (answer s q).1

@[simp] theorem run_done (a : α) (s : σ) : run answer (.done a : Program Q A ε α) s = (s, .ok a) := rfl
@[simp] theorem run_stop (e : ε) (s : σ) : run answer (.stop e : Program Q A ε α) s = (s, .error e) := rfl

@[simp] theorem run_ask (q : Q) (k : A q → Program Q A ε α) (s : σ) :
    run answer (.ask q k) s = run answer (k (answer s q).2) (answer s q).1 := rfl

theorem run_bind (p : Program Q A ε α) (f : α → Program Q A ε β) (s : σ) :
    run answer (p >>= f) s =
      match run answer p s with
      | (s', .ok a) => run answer (f a) s'
      | (s', .error e) => (s', .error e) := by
  induction p generalizing s with
  | done | stop => rfl
  | ask q k ih => exact ih _ _

variable {answer}

theorem run_bind_ok {p : Program Q A ε α} {f : α → Program Q A ε β} {s s' : σ} {a : α}
    (h : run answer p s = (s', .ok a)) : run answer (p >>= f) s = run answer (f a) s' := by
  rw [run_bind, h]

theorem run_bind_error {p : Program Q A ε α} {f : α → Program Q A ε β} {s s' : σ} {e : ε}
    (h : run answer p s = (s', .error e)) : run answer (p >>= f) s = (s', .error e) := by
  rw [run_bind, h]

/-- A loop whose rounds each set the place of their index in a table. -/
theorem run_forM_update {ι : Type} [DecidableEq ι] {l : List ι} {f : ι → Program Q A ε PUnit} {g : (ι → β) → σ}
    {value : ι → β}
    (hf : ∀ i ∈ l, ∀ m, run answer (f i) (g m) = (g (Function.update m i (value i)), .ok ⟨⟩)) (m : ι → β) :
    run answer (l.forM f) (g m) = (g fun i => if i ∈ l then value i else m i, .ok ⟨⟩) := by
  induction l generalizing m with
  | nil => simp [List.forM_eq_forM]
  | cons i l ih =>
    obtain ⟨hi, hl⟩ := List.forall_mem_cons.1 hf
    rw [List.forM_eq_forM, List.forM_cons, run_bind_ok (hi m), ← List.forM_eq_forM, ih hl]
    congr 2
    funext j
    by_cases hj : j ∈ l
    · simp [hj]
    · by_cases heq : j = i
      · simp [heq]
      · simp [hj, heq]

/-! ## What a run can do -/

variable (answer) in
/-- Every run of the program takes a state to one that `R` relates to it. -/
def Within (R : σ → σ → Prop) (p : Program Q A ε α) : Prop := ∀ s, R s (run answer p s).1

section Within

variable {R : σ → σ → Prop}

theorem within_done [Std.Refl R] (a : α) : Within answer R (.done a : Program Q A ε α) := refl_of R

theorem within_stop [Std.Refl R] (e : ε) : Within answer R (.stop e : Program Q A ε α) := refl_of R

theorem within_request {q : Q} (h : ∀ s, R s (answer s q).1) :
    Within answer R (request q : Program Q A ε (A q)) := h

theorem Within.bind [IsTrans σ R] {p : Program Q A ε α} {f : α → Program Q A ε β} (hp : Within answer R p)
    (hf : ∀ a, Within answer R (f a)) : Within answer R (p >>= f) := by
  intro s
  have hs := hp s
  rw [run_bind]
  cases hr : run answer p s with
  | mk s' r =>
    rw [hr] at hs
    cases r with
    | ok a => exact trans_of R hs (hf a s')
    | error e => exact hs

theorem Within.forM [Std.Refl R] [IsTrans σ R] {ι : Type} {l : List ι} {f : ι → Program Q A ε PUnit}
    (h : ∀ i ∈ l, Within answer R (f i)) : Within answer R (l.forM f) := by
  induction l with
  | nil => exact within_done _
  | cons i l ih =>
    rw [List.forM_eq_forM, List.forM_cons]
    exact (h i List.mem_cons_self).bind fun _ => ih fun j hj => h j (List.mem_cons_of_mem _ hj)

/-- `g` is the same before and after. -/
def Keeps (g : σ → β) (s s' : σ) : Prop := g s' = g s

instance (g : σ → β) : Std.Refl (Keeps g) := ⟨fun _ => rfl⟩

instance (g : σ → β) : IsTrans σ (Keeps g) := ⟨fun _ _ _ h h' => h'.trans h⟩

variable (answer) in
/-- Every run of the program returns, with a result that satisfies `P`. -/
def Returns (P : α → Prop) (p : Program Q A ε α) : Prop := ∀ s, ∃ s' a, run answer p s = (s', .ok a) ∧ P a

theorem returns_done {P : α → Prop} {a : α} (h : P a) : Returns answer P (.done a : Program Q A ε α) :=
  fun s => ⟨s, a, rfl, h⟩

theorem returns_request (q : Q) : Returns answer (fun _ => True) (request q : Program Q A ε (A q)) :=
  fun _ => ⟨_, _, rfl, trivial⟩

theorem Returns.bind {P : α → Prop} {P' : β → Prop} {p : Program Q A ε α} {f : α → Program Q A ε β}
    (hp : Returns answer P p) (hf : ∀ a, P a → Returns answer P' (f a)) : Returns answer P' (p >>= f) := by
  intro s
  obtain ⟨s', a, hrun, ha⟩ := hp s
  rw [run_bind_ok hrun]
  exact hf a ha s'

end Within

/-! ## All answers -/

/-- Whatever the answers, each request is `ok` in the state that the earlier
ones have led to by `next`, and the program ends as `P` says, if it ends. -/
def Always (next : σ → (q : Q) → A q → σ) (ok : σ → Q → Prop) : Program Q A ε α → (α → σ → Prop) → σ → Prop
  | .done a, P, s => P a s
  | .stop _, _, _ => True
  | .ask q k, P, s => ok s q ∧ ∀ a, Always next ok (k a) P (next s q a)

variable {next : σ → (q : Q) → A q → σ} {ok : σ → Q → Prop}

theorem always_bind {p : Program Q A ε α} {f : α → Program Q A ε β} {P : β → σ → Prop} {s : σ} :
    Always next ok (p >>= f) P s ↔ Always next ok p (fun a => Always next ok (f a) P) s := by
  induction p generalizing s with
  | done | stop => exact Iff.rfl
  | ask q k ih => exact and_congr Iff.rfl (forall_congr' fun a => ih a)

theorem Always.mono {p : Program Q A ε α} {P P' : α → σ → Prop} {s : σ} (h : Always next ok p P s)
    (hP : ∀ a s, P a s → P' a s) : Always next ok p P' s := by
  induction p generalizing s with
  | done a => exact hP a s h
  | stop => trivial
  | ask q k ih => exact ⟨h.1, fun a => ih a (h.2 a)⟩

/-- A first part that ends as `P` says, and a rest that goes on from there. -/
theorem Always.bind {p : Program Q A ε α} {f : α → Program Q A ε β} {P : α → σ → Prop} {P' : β → σ → Prop} {s : σ}
    (hp : Always next ok p P s) (hf : ∀ a s, P a s → Always next ok (f a) P' s) : Always next ok (p >>= f) P' s :=
  always_bind.2 (hp.mono hf)

end Program

end SysLib
