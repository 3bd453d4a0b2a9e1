import FlameSdd.SysLib.Runs
import Mathlib.Data.List.Induction
/-!
# Readers of one log

A publisher writes a log, and every subscriber handles it from the front at its
own pace. What a reader has is what its handler makes of a prefix, so it keeps what
its handler keeps along the log.
-/

namespace SysLib.Follow

variable {M σ : Type}

structure Reader (σ : Type) where
  seen : Nat
  state : σ

/-- The reader handles the next message, if there is one. -/
def Reader.read (handle : σ → M → σ) (log : List M) (r : Reader σ) : Reader σ :=
  match log[r.seen]? with
  | some m => ⟨r.seen + 1, handle r.state m⟩
  | none => r

/-- The reader is where its handler got on a prefix. -/
structure Follows (handle : σ → M → σ) (start : σ) (log : List M) (r : Reader σ) : Prop where
  seen_le : r.seen ≤ log.length
  state_eq : r.state = (log.take r.seen).foldl handle start

variable {handle : σ → M → σ} {start : σ} {log : List M} {r : Reader σ}

theorem Follows.init (handle : σ → M → σ) (start : σ) : Follows handle start [] ⟨0, start⟩ := ⟨Nat.le_refl 0, rfl⟩

theorem Follows.publish (h : Follows handle start log r) (m : M) : Follows handle start (log ++ [m]) r := by
  obtain ⟨hle, hstate⟩ := h
  refine ⟨Nat.le_trans hle (by simp), ?_⟩
  rw [List.take_append_of_le_length hle, hstate]

theorem Follows.read (h : Follows handle start log r) : Follows handle start log (r.read handle log) := by
  obtain ⟨hle, hstate⟩ := h
  cases hm : log[r.seen]? with
  | none => simpa only [Reader.read, hm] using ⟨hle, hstate⟩
  | some m =>
    have hlt : r.seen < log.length := (List.getElem?_eq_some_iff.1 hm).1
    simp only [Reader.read, hm]
    refine ⟨hlt, ?_⟩
    show handle r.state m = (log.take (r.seen + 1)).foldl handle start
    rw [List.take_add_one, hm, Option.toList_some, List.foldl_append, ← hstate]
    rfl

/-- What the handler keeps holds of the reader. -/
theorem Follows.inv (h : Follows handle start log r) (P : List M → σ → Prop) (hstart : P [] start)
    (hstep : ∀ l s m, P l s → P (l ++ [m]) (handle s m)) : P (log.take r.seen) r.state := by
  have hfold : ∀ l : List M, P l (l.foldl handle start) := by
    intro l
    induction l using List.reverseRecOn with
    | nil => exact hstart
    | append_singleton l m ih =>
      rw [List.foldl_append]
      exact hstep l _ m ih
  rw [h.state_eq]
  exact hfold _

/-- The reader handled the message before its place last. -/
theorem Follows.last (h : Follows handle start log r) {n : Nat} (hn : r.seen = n + 1) {m : M} (hm : log[n]? = some m) :
    ∃ s, r.state = handle s m := by
  refine ⟨(log.take n).foldl handle start, ?_⟩
  rw [h.state_eq, hn, List.take_add_one, hm, Option.toList_some, List.foldl_append]
  rfl

/-! ## Publications -/

/-- What holds right after every publication of a run held when the first `n`
messages had just been published. -/
theorem published_at {S E : Type} {step : S → E → S} (log : S → List M) (P : S → Prop) {s : S} (hs : log s = [])
    (hstep : ∀ s e, log (step s e) = log s ∨ ∃ m, log (step s e) = log s ++ [m] ∧ P (step s e)) (evs : List E) {n : Nat}
    (hpos : 0 < n) (hn : n ≤ (log (runs step s evs)).length) :
    ∃ pre, pre <+: evs ∧ log (runs step s pre) = (log (runs step s evs)).take n ∧ P (runs step s pre) := by
  induction evs using List.reverseRecOn with
  | nil =>
    rw [runs_nil, hs] at hn
    exact absurd hn (by simp; omega)
  | append_singleton evs e ih =>
    have hlast : runs step s (evs ++ [e]) = step (runs step s evs) e := runs_append _ _ _
    rw [hlast] at hn ⊢
    have hearlier : n ≤ (log (runs step s evs)).length → (log (step (runs step s evs) e)).take n =
        (log (runs step s evs)).take n → ∃ pre, pre <+: evs ++ [e] ∧
          log (runs step s pre) = (log (step (runs step s evs) e)).take n ∧ P (runs step s pre) := by
      intro hle htake
      obtain ⟨pre, hpre, hlog, hP⟩ := ih hle
      exact ⟨pre, hpre.trans (List.prefix_append _ _), hlog.trans htake.symm, hP⟩
    rcases hstep (runs step s evs) e with hsame | ⟨m, hnew, hP⟩
    · rw [hsame] at hn
      exact hearlier hn (by rw [hsame])
    · rcases Nat.lt_or_ge (log (runs step s evs)).length n with hlt | hle
      · refine ⟨evs ++ [e], List.prefix_rfl, ?_, by rwa [hlast]⟩
        rw [hlast, List.take_of_length_le]
        rw [hnew, List.length_append, List.length_singleton] at hn ⊢
        omega
      · exact hearlier hle (by rw [hnew, List.take_append_of_le_length hle])

/-! ## Latches -/

/-- Set by one kind of message, and else reset by another. -/
def latch (sets resets : M → Bool) (b : Bool) (m : M) : Bool := if sets m then true else if resets m then false else b

/-- A message that sets the latch came, and none after it resets it. -/
def Since (sets resets : M → Bool) (l : List M) : Prop :=
  ∃ pre m post, l = pre ++ m :: post ∧ sets m = true ∧ ∀ x ∈ post, resets x = true → sets x = true

variable {sets resets : M → Bool}

theorem since_append (l : List M) (m : M) :
    Since sets resets (l ++ [m]) ↔ sets m = true ∨ resets m = false ∧ Since sets resets l := by
  constructor
  · rintro ⟨pre, x, post, heq, hsets, hpost⟩
    rcases List.eq_nil_or_concat post with rfl | ⟨post', y, rfl⟩
    · obtain ⟨-, hlast⟩ := List.append_inj' heq rfl
      obtain rfl := List.singleton_inj.1 hlast
      exact .inl hsets
    · rw [List.concat_eq_append] at heq hpost
      have hsplit : l ++ [m] = (pre ++ x :: post') ++ [y] := by rw [heq]; simp
      obtain ⟨rfl, hlast⟩ := List.append_inj' hsplit rfl
      obtain rfl := List.singleton_inj.1 hlast
      cases hm : sets m with
      | true => exact .inl rfl
      | false =>
        refine .inr ⟨?_, pre, x, post', rfl, hsets, fun z hz => hpost z (List.mem_append_left _ hz)⟩
        cases hr : resets m with
        | false => rfl
        | true => rw [hpost m (by simp) hr] at hm; cases hm
  · rintro (hsets | ⟨hresets, pre, x, post, rfl, hsets, hpost⟩)
    · exact ⟨l, m, [], rfl, hsets, List.forall_mem_nil _⟩
    · refine ⟨pre, x, post ++ [m], by simp, hsets, ?_⟩
      intro y hy hr
      rcases List.mem_append.1 hy with hy | hy
      · exact hpost y hy hr
      · obtain rfl := List.mem_singleton.1 hy
        rw [hresets] at hr
        cases hr

theorem latch_since {l : List M} {b : Bool} (h : b = true ↔ Since sets resets l) (m : M) :
    latch sets resets b m = true ↔ Since sets resets (l ++ [m]) := by
  rw [since_append, latch, ← h]
  split <;> simp_all

theorem not_since_nil : ¬ Since sets resets [] := by
  rintro ⟨pre, m, post, heq, -⟩
  simp at heq

end SysLib.Follow
