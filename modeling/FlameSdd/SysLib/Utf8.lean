import FlameSdd.SysLib.Bytes
/-!
# UTF-8

The decoder a serialiser runs over a text before it writes it, one byte at a
time, and what keeps a text well formed: joining texts, cutting at an ASCII
byte, and dropping or exchanging ASCII bytes.
-/

namespace SysLib.Utf8

/-- How many bytes the current character still owes, and the range of the next. -/
structure State where
  owed : Nat
  lo : UInt8
  hi : UInt8
  deriving DecidableEq

/-- Between two characters. -/
def start : State := ⟨0, 0x80, 0xBF⟩

/-- The first byte of a character. -/
def lead (b : UInt8) : Option State :=
  if b < 0x80 then some start
  else if 0xC2 ≤ b ∧ b ≤ 0xDF then some ⟨1, 0x80, 0xBF⟩
  else if b = 0xE0 then some ⟨2, 0xA0, 0xBF⟩
  else if b = 0xED then some ⟨2, 0x80, 0x9F⟩
  else if 0xE1 ≤ b ∧ b ≤ 0xEF then some ⟨2, 0x80, 0xBF⟩
  else if b = 0xF0 then some ⟨3, 0x90, 0xBF⟩
  else if 0xF1 ≤ b ∧ b ≤ 0xF3 then some ⟨3, 0x80, 0xBF⟩
  else if b = 0xF4 then some ⟨3, 0x80, 0x8F⟩
  else none

def step (q : State) (b : UInt8) : Option State :=
  match q.owed with
  | 0 => lead b
  | n + 1 => if 0x80 ≤ b ∧ q.lo ≤ b ∧ b ≤ q.hi then some ⟨n, 0x80, 0xBF⟩ else none

/-- The state after a text, `none` once a byte was refused. -/
def run : State → Bytes → Option State
  | q, [] => some q
  | q, b :: s => (step q b).bind fun q' => run q' s

/-- The first `n` characters of a well-formed text: a byte that continues a
character goes with the byte before it. -/
def takeChars : Nat → Bytes → Bytes
  | _, [] => []
  | n, b :: s =>
    if 0x80 ≤ b ∧ b ≤ 0xBF then b :: takeChars n s
    else match n with
      | 0 => []
      | n + 1 => b :: takeChars n s

def numChars (s : Bytes) : Nat := s.countP fun b => !(0x80 ≤ b && b ≤ 0xBF)

/-- All but the last `n` characters. -/
def dropLastChars (n : Nat) (s : Bytes) : Bytes := takeChars (numChars s - n) s

/-- The characters that `str.strip` takes off. -/
def blanks : List Bytes :=
  [[0x09], [0x0A], [0x0B], [0x0C], [0x0D], [0x1C], [0x1D], [0x1E], [0x1F], [0x20], [0xC2, 0x85], [0xC2, 0xA0],
    [0xE1, 0x9A, 0x80], [0xE2, 0x80, 0x80], [0xE2, 0x80, 0x81], [0xE2, 0x80, 0x82], [0xE2, 0x80, 0x83],
    [0xE2, 0x80, 0x84], [0xE2, 0x80, 0x85], [0xE2, 0x80, 0x86], [0xE2, 0x80, 0x87], [0xE2, 0x80, 0x88],
    [0xE2, 0x80, 0x89], [0xE2, 0x80, 0x8A], [0xE2, 0x80, 0xA8], [0xE2, 0x80, 0xA9], [0xE2, 0x80, 0xAF],
    [0xE2, 0x81, 0x9F], [0xE3, 0x80, 0x80]]

/-- What is left when the units at the front are taken off; the first `k` bytes
still belong to one. -/
def dropUnits (units : List Bytes) : Nat → Bytes → Bytes
  | _, [] => []
  | k + 1, _ :: s => dropUnits units k s
  | 0, b :: s =>
    match units.find? fun u => u.isPrefixOf (b :: s) with
    | some u => dropUnits units (u.length - 1) s
    | none => b :: s

def strip (s : Bytes) : Bytes :=
  (dropUnits (blanks.map List.reverse) 0 (dropUnits blanks 0 s).reverse).reverse

/-- The text is well-formed UTF-8. -/
def valid (s : Bytes) : Bool := (run start s).any fun q => q.owed == 0

theorem run_append (q : State) (s t : Bytes) : run q (s ++ t) = (run q s).bind fun q' => run q' t := by
  induction s generalizing q with
  | nil => rfl
  | cons b s ih =>
    simp only [List.cons_append, run]
    cases step q b with
    | none => rfl
    | some q' => exact ih q'

/-- Between characters the rest of the state does not matter. -/
theorem run_owed {q : State} (h : q.owed = 0) (s : Bytes) :
    (run q s).any (fun q => q.owed == 0) = valid s := by
  cases s with
  | nil => simp [run, valid, h, start]
  | cons b s => simp [run, valid, step, h, start]

/-- An ASCII byte stands alone: it is read between characters only. -/
theorem step_ascii {q q' : State} {b : UInt8} (hb : b < 0x80) (h : step q b = some q') :
    q.owed = 0 ∧ q' = start := by
  unfold step at h
  split at h
  · rename_i ho
    simp only [lead, hb, if_true, Option.some.injEq] at h
    exact ⟨ho, h.symm⟩
  · rw [if_neg (by grind)] at h
    cases h

theorem step_start_ascii {b : UInt8} (hb : b < 0x80) : step start b = some start := by
  simp [step, start, lead, hb]

@[simp] theorem valid_cons_ascii {b : UInt8} (hb : b < 0x80) (s : Bytes) : valid (b :: s) = valid s := by
  simp [valid, run, step_start_ascii hb]

theorem valid_ascii {s : Bytes} (h : ∀ c ∈ s, c < 0x80) : valid s = true := by
  induction s with
  | nil => rfl
  | cons c s ih => exact (valid_cons_ascii (h c (by simp)) s).trans (ih fun d hd => h d (by simp [hd]))

theorem valid_append {s t : Bytes} (hs : valid s = true) (ht : valid t = true) : valid (s ++ t) = true := by
  unfold valid at hs
  obtain ⟨q, hq, ho⟩ := (Option.any_eq_true _ _).1 hs
  simp only [beq_iff_eq] at ho
  unfold valid
  rw [run_append, hq, Option.bind_some, run_owed ho, ht]

/-- A text cut at an ASCII byte falls into two texts. -/
theorem valid_split {s t : Bytes} {b : UInt8} (hb : b < 0x80) (h : valid (s ++ b :: t) = true) :
    valid s = true ∧ valid t = true := by
  unfold valid at h
  rw [run_append] at h
  cases hs : run start s with
  | none => simp [hs] at h
  | some q =>
    rw [hs, Option.bind_some, run] at h
    cases hq : step q b with
    | none => simp [hq] at h
    | some q' =>
      obtain ⟨ho, rfl⟩ := step_ascii hb hq
      rw [hq, Option.bind_some] at h
      exact ⟨by simp [valid, hs, ho], h⟩

theorem head?_takeChars {n : Nat} (hn : n ≠ 0) (s : Bytes) : (takeChars n s).head? = s.head? := by
  cases s with
  | nil => simp [takeChars]
  | cons b s =>
    obtain ⟨n, rfl⟩ := Nat.exists_eq_succ_of_ne_zero hn
    simp only [takeChars]
    split <;> rfl

theorem mem_of_mem_takeChars {n : Nat} {s : Bytes} {c : UInt8} (h : c ∈ takeChars n s) : c ∈ s := by
  induction s generalizing n with
  | nil => simp [takeChars] at h
  | cons b s ih =>
    simp only [takeChars] at h
    split at h
    · exact (List.mem_cons.1 h).elim (fun heq => heq ▸ List.mem_cons_self) fun h => List.mem_cons_of_mem b (ih h)
    · cases n with
      | zero => simp at h
      | succ n => exact (List.mem_cons.1 h).elim (fun heq => heq ▸ List.mem_cons_self) fun h =>
        List.mem_cons_of_mem b (ih h)

/-- The characters of an ASCII text are its bytes. -/
theorem numChars_ascii {s : Bytes} (h : ∀ c ∈ s, c < 0x80) : numChars s = s.length := by
  refine List.countP_eq_length.2 fun c hc => ?_
  have hlt := h c hc
  grind

theorem takeChars_ascii (n : Nat) {s : Bytes} (h : ∀ c ∈ s, c < 0x80) : takeChars n s = s.take n := by
  induction s generalizing n with
  | nil => simp [takeChars]
  | cons c s ih =>
    have hlt := h c List.mem_cons_self
    have hc : ¬ (0x80 ≤ c ∧ c ≤ 0xBF) := by grind
    cases n with
    | zero => simp only [takeChars, if_neg hc, List.take_zero]
    | succ n =>
      simp only [takeChars, if_neg hc, List.take_succ_cons]
      rw [ih n fun d hd => h d (List.mem_cons_of_mem c hd)]

theorem dropLastChars_ascii {s t : Bytes} (hs : ∀ c ∈ s, c < 0x80) (ht : ∀ c ∈ t, c < 0x80) :
    dropLastChars t.length (s ++ t) = s := by
  have hst : ∀ c ∈ s ++ t, c < 0x80 := fun c hc => (List.mem_append.1 hc).elim (hs c) (ht c)
  rw [dropLastChars, numChars_ascii hst, takeChars_ascii _ hst, List.length_append, Nat.add_sub_cancel, List.take_left]

/-- Putting ASCII texts in the place of ASCII bytes keeps a text well formed. -/
theorem valid_flatMap {s : Bytes} {f : UInt8 → Bytes} (hf : ∀ c, f c = [c] ∨ (c < 0x80 ∧ ∀ d ∈ f c, d < 0x80))
    (h : valid s = true) : valid (s.flatMap f) = true := by
  have main : ∀ (s : Bytes) (q : State), (run q s).any (fun q => q.owed == 0) = true →
      (run q (s.flatMap f)).any (fun q => q.owed == 0) = true := by
    intro s
    induction s with
    | nil => exact fun _ h => h
    | cons c s ih =>
      intro q h
      rw [run] at h
      cases hq : step q c with
      | none => simp [hq] at h
      | some q' =>
        rw [hq, Option.bind_some] at h
        rw [List.flatMap_cons]
        rcases hf c with hfc | ⟨hc, hfc⟩
        · rw [hfc, List.singleton_append, run, hq, Option.bind_some]
          exact ih q' h
        · -- an ASCII byte stands between characters, and so do the bytes put there
          obtain ⟨ho, rfl⟩ := step_ascii hc hq
          rw [run_owed ho]
          exact valid_append (valid_ascii hfc) (ih start h)
  exact main s start h

/-- Dropping ASCII bytes keeps a text well formed. -/
theorem valid_filter {s : Bytes} {p : UInt8 → Bool} (hp : ∀ c, p c = false → c < 0x80) (h : valid s = true) :
    valid (s.filter p) = true := by
  have heq : ∀ s : Bytes, s.filter p = s.flatMap fun c => if p c then [c] else [] := by
    intro s
    induction s with
    | nil => rfl
    | cons c s ih => cases hc : p c <;> simp [hc, ih]
  rw [heq]
  refine valid_flatMap (fun c => ?_) h
  cases hc : p c with
  | true => exact .inl rfl
  | false => exact .inr ⟨hp c hc, nofun⟩

/-- Exchanging ASCII bytes for ASCII bytes keeps a text well formed. -/
theorem valid_map {s : Bytes} {f : UInt8 → UInt8} (hf : ∀ c, f c = c ∨ (c < 0x80 ∧ f c < 0x80))
    (h : valid s = true) : valid (s.map f) = true := by
  rw [List.map_eq_flatMap]
  refine valid_flatMap (fun c => ?_) h
  rcases hf c with hfc | ⟨hc, hfc⟩
  · exact .inl (by rw [hfc])
  · exact .inr ⟨hc, by simpa using hfc⟩

/-- Leading ASCII bytes can be dropped. -/
theorem valid_dropWhile {s : Bytes} {p : UInt8 → Bool} (hp : ∀ c, p c = true → c < 0x80) (h : valid s = true) :
    valid (s.dropWhile p) = true := by
  induction s with
  | nil => exact h
  | cons c s ih =>
    rw [List.dropWhile_cons]
    split
    · rename_i hc; exact ih (by rwa [valid_cons_ascii (hp c hc)] at h)
    · exact h

/-- Trailing ASCII bytes can be dropped. -/
theorem valid_rdropWhile {s : Bytes} {p : UInt8 → Bool} (hp : ∀ c, p c = true → c < 0x80) (h : valid s = true) :
    valid (s.rdropWhile p) = true := by
  induction s using List.reverseRecOn with
  | nil => exact h
  | append_singleton s c ih =>
    rw [List.rdropWhile_concat]
    split
    · rename_i hc; exact ih (valid_split (hp c hc) h).1
    · exact h

/-- The pieces of a text cut at ASCII bytes are texts. -/
theorem valid_splitOnP {s : Bytes} {p : UInt8 → Bool} (hp : ∀ c, p c = true → c < 0x80) (h : valid s = true) :
    ∀ t ∈ s.splitOnP p, valid t = true := by
  have main : ∀ (s acc : Bytes), valid (acc.reverse ++ s) = true →
      ∀ t ∈ s.splitOnPPrepend p acc, valid t = true := by
    intro s
    induction s with
    | nil => intro acc h t ht; simp only [List.splitOnPPrepend_nil, List.mem_singleton] at ht; subst ht; simpa using h
    | cons c s ih =>
      intro acc h t ht
      cases hc : p c with
      | true =>
        obtain ⟨hl, hr⟩ := valid_split (hp c hc) h
        rw [List.splitOnPPrepend_cons_pos hc, List.mem_cons] at ht
        rcases ht with rfl | ht
        · exact hl
        · exact ih [] (by simpa using hr) t (by simpa using ht)
      | false =>
        rw [List.splitOnPPrepend_cons_neg hc] at ht
        exact ih (c :: acc) (by simpa using h) t ht
  exact main s [] (by simpa using h)

/-! ## Stripping -/

/-- No blank starts or ends with the byte. -/
def solid (b : UInt8) : Bool := blanks.all fun u => u.head? ≠ some b && u.getLast? ≠ some b

theorem solid_digit {c : UInt8} (h : isdigit c = true) : solid c = true := by
  have hall : ∀ n < 256, isdigit (UInt8.ofNat n) = true → solid (UInt8.ofNat n) = true := by decide +kernel
  simpa using hall c.toNat c.toNat_lt (by simpa using h)

theorem dropUnits_cons {units : List Bytes} {b : UInt8} (hne : ∀ u ∈ units, u ≠ [])
    (h : ∀ u ∈ units, u.head? ≠ some b) (s : Bytes) : dropUnits units 0 (b :: s) = b :: s := by
  have hnone : units.find? (fun u => u.isPrefixOf (b :: s)) = none := by
    rw [List.find?_eq_none]
    intro u hu hfound
    cases u with
    | nil => exact hne [] hu rfl
    | cons c u =>
      simp only [List.isPrefixOf_cons_cons, Bool.and_eq_true, beq_iff_eq] at hfound
      exact h _ hu (by simp [hfound.1])
  rw [dropUnits, hnone]

/-- A text stays where no blank can start or end it. -/
theorem strip_of_solid {s : Bytes} (hhead : ∀ b ∈ s.head?, solid b = true) (hlast : ∀ b ∈ s.getLast?, solid b = true) :
    strip s = s := by
  have hfront : ∀ b t, solid b = true → dropUnits blanks 0 (b :: t) = b :: t := by
    intro b t hb
    have hall : ∀ u ∈ blanks, u.head? ≠ some b ∧ u.getLast? ≠ some b := by simpa [solid] using hb
    exact dropUnits_cons (by decide) (fun u hu => (hall u hu).1) t
  have hback : ∀ b t, solid b = true → dropUnits (blanks.map List.reverse) 0 (b :: t) = b :: t := by
    intro b t hb
    have hall : ∀ u ∈ blanks, u.head? ≠ some b ∧ u.getLast? ≠ some b := by simpa [solid] using hb
    refine dropUnits_cons (by decide) (fun u hu => ?_) t
    obtain ⟨v, hv, rfl⟩ := List.mem_map.1 hu
    rw [List.head?_reverse]
    exact (hall v hv).2
  have hdrop : dropUnits blanks 0 s = s := by
    cases s with
    | nil => rfl
    | cons b t => exact hfront b t (hhead b rfl)
  rw [strip, hdrop]
  rcases List.eq_nil_or_concat s with rfl | ⟨t, b, rfl⟩
  · rfl
  · rw [List.concat_eq_append] at hlast ⊢
    rw [List.reverse_concat, hback b _ (hlast b (by simp)), List.reverse_cons, List.reverse_reverse]

end SysLib.Utf8
