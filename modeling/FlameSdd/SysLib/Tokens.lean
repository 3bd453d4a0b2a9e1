import Mathlib.Data.List.Basic
/-!
# Tokens between separators

A text is cut at its separators, and what is empty between two of them is
dropped. Joining the tokens by one separator and cutting again gives them back.
-/

namespace SysLib.Tokens

variable {α : Type}

/-- What is not empty between the separators. -/
def tokens (p : α → Bool) (s : List α) : List (List α) := (s.splitOnP p).filter (!·.isEmpty)

/-- The tokens with one separator between any two. -/
def join (sep : α) (ts : List (List α)) : List α := [sep].intercalate ts

/-- What tokens are: not empty, and without separators. -/
def IsToken (p : α → Bool) (t : List α) : Prop := t ≠ [] ∧ ∀ c ∈ t, p c = false

variable {p : α → Bool} {s t : List α} {sep : α}

/-! ## Cutting -/

theorem tokens_nil : tokens p ([] : List α) = [] := rfl

theorem tokens_cons (c : α) (s : List α) :
    tokens p (c :: s) = if p c then tokens p s else ((s.splitOnP p).modifyHead (List.cons c)).filter (!·.isEmpty) := by
  rw [tokens, List.splitOnP_cons_eq_if_modifyHead]
  split
  · simp [tokens]
  · rfl

/-- A token in front of a separator. -/
theorem tokens_append_cons (ht : IsToken p t) (hsep : p sep = true) (s : List α) :
    tokens p (t ++ sep :: s) = t :: tokens p s := by
  rw [tokens, List.splitOnP_append_cons_of_forall_mem ht.2 sep hsep, List.filter_cons_of_pos (by simpa using ht.1)]
  rfl

theorem tokens_of_isToken (ht : IsToken p t) : tokens p t = [t] := by
  rw [tokens, List.splitOnP_eq_singleton ht.2]
  simpa using ht.1

theorem splitOnP_no_sep (s : List α) : ∀ t ∈ s.splitOnP p, ∀ c ∈ t, p c = false := by
  induction s with
  | nil => simp
  | cons c s ih =>
    obtain ⟨first, rest, hsplit⟩ := List.exists_cons_of_ne_nil (List.splitOnP_ne_nil p s)
    rw [hsplit, List.forall_mem_cons] at ih
    rw [List.splitOnP_cons_eq_if_modifyHead, hsplit]
    split
    · simpa using ih
    · rename_i hc
      simp only [List.modifyHead_cons, List.forall_mem_cons]
      exact ⟨⟨by simpa using hc, ih.1⟩, ih.2⟩

theorem isToken_of_mem (h : t ∈ tokens p s) : IsToken p t := by
  obtain ⟨hmem, hne⟩ := List.mem_filter.1 h
  exact ⟨by simpa using hne, splitOnP_no_sep s t hmem⟩

theorem mem_of_mem_splitOnP {c : α} (ht : t ∈ s.splitOnP p) (hc : c ∈ t) : c ∈ s := by
  induction s generalizing t with
  | nil => simp_all
  | cons d s ih =>
    obtain ⟨first, rest, hsplit⟩ := List.exists_cons_of_ne_nil (List.splitOnP_ne_nil p s)
    rw [hsplit] at ih
    rw [List.splitOnP_cons_eq_if_modifyHead, hsplit] at ht
    split at ht
    · rcases List.mem_cons.1 ht with rfl | ht
      · cases hc
      · exact List.mem_cons_of_mem d (ih ht hc)
    · rcases List.mem_cons.1 ht with rfl | ht
      · exact List.mem_cons.2 ((List.mem_cons.1 hc).imp_right (ih List.mem_cons_self))
      · exact List.mem_cons_of_mem d (ih (List.mem_cons_of_mem first ht) hc)

theorem mem_of_mem_tokens {c : α} (ht : t ∈ tokens p s) (hc : c ∈ t) : c ∈ s :=
  mem_of_mem_splitOnP (List.mem_filter.1 ht).1 hc

/-- Only separators have no token. -/
theorem tokens_eq_nil_iff : tokens p s = [] ↔ ∀ c ∈ s, p c = true := by
  induction s with
  | nil => simp [tokens_nil]
  | cons c s ih =>
    obtain ⟨first, rest, hsplit⟩ := List.exists_cons_of_ne_nil (List.splitOnP_ne_nil p s)
    rw [tokens_cons, hsplit, List.forall_mem_cons]
    split
    · rename_i hc
      simp [ih, hc]
    · rename_i hc
      simp [hc]

/-! ## Changing the text -/

/-- Dropping what is no separator drops it from the pieces. -/
theorem splitOnP_filter {q : α → Bool} (h : ∀ c, p c = true → q c = true) (s : List α) :
    (s.filter q).splitOnP p = (s.splitOnP p).map (List.filter q) := by
  induction s with
  | nil => simp
  | cons c s ih =>
    obtain ⟨first, rest, hsplit⟩ := List.exists_cons_of_ne_nil (List.splitOnP_ne_nil p s)
    rw [hsplit] at ih
    by_cases hp : p c = true
    · rw [List.filter_cons_of_pos (h c hp), List.splitOnP_cons_eq_if_modifyHead, if_pos hp, ih,
        List.splitOnP_cons_eq_if_modifyHead, if_pos hp, hsplit]
      rfl
    · rw [List.splitOnP_cons_eq_if_modifyHead, if_neg hp, hsplit]
      by_cases hq : q c = true
      · rw [List.filter_cons_of_pos hq, List.splitOnP_cons_eq_if_modifyHead, if_neg hp, ih]
        simp [hq]
      · rw [List.filter_cons_of_neg hq, ih]
        simp [hq]

/-- Exchanging characters without making or breaking separators exchanges them
in the tokens. -/
theorem tokens_map {f : α → α} (h : ∀ c, p (f c) = p c) (s : List α) :
    tokens p (s.map f) = (tokens p s).map (List.map f) := by
  have hsplit : (s.map f).splitOnP p = (s.splitOnP p).map (List.map f) := by
    induction s with
    | nil => simp
    | cons c s ih =>
      obtain ⟨first, rest, hsplit⟩ := List.exists_cons_of_ne_nil (List.splitOnP_ne_nil p s)
      rw [List.map_cons, List.splitOnP_cons_eq_if_modifyHead, h, ih, List.splitOnP_cons_eq_if_modifyHead, hsplit]
      split <;> simp
  rw [tokens, hsplit, List.filter_map, tokens]
  congr 2
  funext t
  simp

/-! ## Joining -/

theorem join_nil (sep : α) : join sep [] = [] := rfl

theorem join_singleton (sep : α) (t : List α) : join sep [t] = t := List.intercalate_singleton

theorem join_cons_cons (sep : α) (t u : List α) (ts : List (List α)) :
    join sep (t :: u :: ts) = t ++ sep :: join sep (u :: ts) := by
  simp [join, List.intercalate_cons_cons]

theorem append_join_cons (sep : α) (t u : List α) (ts : List (List α)) :
    t ++ join sep (u :: ts) = join sep ((t ++ u) :: ts) := by
  cases ts <;> simp [join_singleton, join_cons_cons]

/-- Cutting undoes joining. -/
theorem tokens_join (hsep : p sep = true) {ts : List (List α)} (h : ∀ t ∈ ts, IsToken p t) :
    tokens p (join sep ts) = ts := by
  induction ts with
  | nil => rfl
  | cons t ts ih =>
    obtain ⟨ht, h⟩ := List.forall_mem_cons.1 h
    cases ts with
    | nil => rw [join_singleton, tokens_of_isToken ht]
    | cons u ts => rw [join_cons_cons, tokens_append_cons ht hsep, ih h]

theorem mem_join {c : α} {ts : List (List α)} (h : c ∈ join sep ts) : c = sep ∨ ∃ t ∈ ts, c ∈ t := by
  induction ts with
  | nil => cases h
  | cons t ts ih =>
    cases ts with
    | nil => exact .inr ⟨t, List.mem_cons_self, by rwa [join_singleton] at h⟩
    | cons u ts =>
      rw [join_cons_cons, List.mem_append, List.mem_cons] at h
      rcases h with h | rfl | h
      · exact .inr ⟨t, List.mem_cons_self, h⟩
      · exact .inl rfl
      · exact (ih h).imp_right fun ⟨v, hv, hc⟩ => ⟨v, List.mem_cons_of_mem t hv, hc⟩

theorem mem_join_of_mem {c : α} {ts : List (List α)} (ht : t ∈ ts) (hc : c ∈ t) : c ∈ join sep ts := by
  induction ts with
  | nil => cases ht
  | cons u ts ih =>
    cases ts with
    | nil => rwa [join_singleton, ← List.mem_singleton.1 ht]
    | cons v ts =>
      rw [join_cons_cons, List.mem_append]
      rcases List.mem_cons.1 ht with rfl | ht
      · exact .inl hc
      · exact .inr (List.mem_cons_of_mem sep (ih ht))

theorem map_join (f : α → α) (sep : α) (ts : List (List α)) :
    (join sep ts).map f = join (f sep) (ts.map (List.map f)) := by
  induction ts with
  | nil => rfl
  | cons t ts ih =>
    cases ts with
    | nil => simp [join_singleton]
    | cons u ts =>
      rw [join_cons_cons, List.map_append, List.map_cons, ih]
      simp [join_cons_cons]

theorem length_join_cons (sep : α) (t : List α) (ts : List (List α)) :
    (join sep (t :: ts)).length = t.length + if ts = [] then 0 else (join sep ts).length + 1 := by
  cases ts with
  | nil => simp [join_singleton]
  | cons u ts =>
    rw [join_cons_cons, List.length_append, List.length_cons]
    simp

/-- A separator goes with every token but one. -/
theorem length_join (sep : α) (ts : List (List α)) : (join sep ts).length = ts.flatten.length + (ts.length - 1) := by
  induction ts with
  | nil => rfl
  | cons t ts ih =>
    rw [length_join_cons, List.flatten_cons, List.length_append]
    cases ts with
    | nil => simp
    | cons u ts =>
      rw [if_neg (List.cons_ne_nil u ts), ih]
      simp only [List.length_cons]
      omega

/-- Fewer tokens are no longer. -/
theorem length_join_le {ts us : List (List α)} (h : ts.Sublist us) (sep : α) :
    (join sep ts).length ≤ (join sep us).length := by
  induction h with
  | slnil => exact Nat.le_refl _
  | @cons ts us t hsub ih =>
    rw [length_join_cons]
    split
    · rename_i hnil
      rw [hnil] at ih
      exact Nat.le_trans ih (Nat.zero_le _)
    · omega
  | @cons_cons ts us t hsub ih =>
    rw [length_join_cons, length_join_cons]
    split
    · omega
    · rename_i hne
      have hus : us ≠ [] := by
        rintro rfl
        exact hne (List.sublist_nil.1 hsub)
      rw [if_neg hus]
      omega

/-- Joining all pieces makes the separators alike. -/
theorem join_splitOnP (sep : α) (s : List α) : join sep (s.splitOnP p) = s.map fun c => if p c then sep else c := by
  induction s with
  | nil => simp [join_singleton]
  | cons c s ih =>
    obtain ⟨first, rest, hsplit⟩ := List.exists_cons_of_ne_nil (List.splitOnP_ne_nil p s)
    rw [List.splitOnP_cons_eq_if_modifyHead, List.map_cons, ← ih, hsplit]
    split
    · rw [join_cons_cons, List.nil_append]
    · cases rest <;> simp [join_singleton, join_cons_cons]

/-- The joined tokens of a text are no longer than it. -/
theorem length_join_tokens_le (sep : α) (s : List α) : (join sep (tokens p s)).length ≤ s.length := by
  calc (join sep (tokens p s)).length
      ≤ (join sep (s.splitOnP p)).length := length_join_le List.filter_sublist sep
    _ = s.length := by rw [join_splitOnP, List.length_map]

end SysLib.Tokens
