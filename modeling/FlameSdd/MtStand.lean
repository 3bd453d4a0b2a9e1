import FlameSdd.SysLib.Tokens
import FlameSdd.SysLib.Utf8
/-!
# The normal form of a product standard

`_mtstand_normalize` turns the raw text of a product standard into the text
that names directories and files.
-/
open SysLib

namespace FlameSdd.MtStand

/-- The characters `trim` takes off. -/
def isBlank (c : UInt8) : Bool := c == 32 || c == 9 || c == 10 || c == 13

def trim (s : Bytes) : Bytes := (s.dropWhile isBlank).rdropWhile isBlank

/-- `x` or `X`. -/
def isX (c : UInt8) : Bool := c == 120 || c == 88

def replaceSlash (s : Bytes) : Bytes := s.map fun c => if c == 47 then 95 else c

/-- `erase(remove(…, ' '))`. -/
def eraseSpace (s : Bytes) : Bytes := s.filter fun c => c != 32

/-- `regex_replace` of `\s+` by one blank. -/
def collapse : Bytes → Bytes
  | [] => []
  | c :: s =>
    if isspace c then
      if s.head?.any isspace then collapse s else 32 :: collapse s
    else c :: collapse s

/-- The non-empty tokens between the matches of `\s*[xX]\s*`. The blanks a
match takes around its `x` are blanks that `trim` takes off the tokens. -/
def splitParts (raw : Bytes) : List Bytes := ((raw.splitOnP isX).map trim).filter fun t => t != []

/-- The two groups of `^([A-Za-z]+)\s*([0-9].*)$`. -/
def matchPrefix (first : Bytes) : Option (Bytes × Bytes) :=
  let letters := first.takeWhile isalpha
  let number := (first.dropWhile isalpha).dropWhile isspace
  if letters ≠ [] ∧ number.head?.any isdigit then some (letters, number) else none

/-- The loop that joins the dimensions to what is joined already. -/
def joinDims (joined : Bytes) : List Bytes → Bytes
  | [] => joined
  | dimRaw :: dims =>
    let dim := replaceSlash (eraseSpace dimRaw)
    if dim = [] then joinDims joined dims
    else joinDims (if joined = [] then dim else joined ++ [120] ++ dim) dims

/-- From the first token on: an H section keeps two dimensions. -/
def assemble (first : Bytes) (rest : List Bytes) : Bytes :=
  let (lead, firstDim) := match matchPrefix first with
    | some (letters, number) => (letters, trim number)
    | none => ([], eraseSpace first)
  let dims := firstDim :: rest
  let dims := if lead.map toupper = ascii "H" ∧ 2 ≤ dims.length then dims.take 2 else dims
  lead ++ joinDims [] dims

def mtstandNormalize (mtStandRaw : Bytes) : Bytes :=
  if mtStandRaw = [] then ascii "Unknown"
  else
    let raw := trim (collapse mtStandRaw)
    if raw = [] then []
    else if !raw.any isX then replaceSlash (eraseSpace raw)
    else match splitParts raw with
      | [] => replaceSlash (eraseSpace raw)
      | first :: rest => assemble first rest

example : mtstandNormalize (ascii "H 194 x 150 x 6/9       ") = ascii "H194x150" := by decide
example : mtstandNormalize (ascii "W 14 x 6-3/4 x 30") = ascii "W14x6-3_4x30" := by decide
example : mtstandNormalize (ascii "200 UB 22.3") = ascii "200UB22.3" := by decide

/-! ## Empty normal forms -/

theorem isBlank_space : isBlank 32 = true := by decide

theorem isspace_of_isBlank {c : UInt8} (h : isBlank c = true) : isspace c = true := by
  simp only [isBlank, Bool.or_eq_true, beq_iff_eq] at h
  rcases h with ((rfl | rfl) | rfl) | rfl <;> decide

theorem trim_eq_nil_iff {s : Bytes} : trim s = [] ↔ ∀ c ∈ s, isBlank c = true := by
  unfold trim
  rw [List.rdropWhile_eq_nil_iff]
  constructor
  · intro h
    by_contra hn
    have hd : s.dropWhile isBlank ≠ [] := by rwa [Ne, List.dropWhile_eq_nil_iff]
    have hc := List.head_dropWhile_not isBlank hd
    rw [h _ (List.head_mem hd)] at hc
    cases hc
  · exact fun h c hc => h c ((List.dropWhile_sublist _).subset hc)

/-- What `trim` leaves of a text holds a character that is no blank. -/
theorem exists_of_trim_ne_nil {s : Bytes} (h : trim s ≠ []) : ∃ c ∈ trim s, isBlank c = false := by
  by_contra hn
  simp only [not_exists, not_and, Bool.not_eq_false] at hn
  have hne : s.dropWhile isBlank ≠ [] := by
    intro he; apply h; rw [trim, he]; rfl
  have hc := List.head_dropWhile_not isBlank hne
  -- the head survives the cut at the end, being no blank
  have hmem : (s.dropWhile isBlank).head hne ∈ trim s := by
    have hp := List.rdropWhile_prefix isBlank (s.dropWhile isBlank)
    rw [← List.IsPrefix.head hp h]
    exact List.head_mem _
  rw [hn _ hmem] at hc
  cases hc

theorem eraseSpace_ne_nil {s : Bytes} (h : ∃ c ∈ s, isBlank c = false) : eraseSpace s ≠ [] := by
  obtain ⟨c, hc, hb⟩ := h
  refine List.ne_nil_of_mem (List.mem_filter.2 ⟨hc, ?_⟩)
  simp only [bne_iff_ne, ne_eq]
  rintro rfl
  cases hb

theorem eraseSpace_eraseSpace (s : Bytes) : eraseSpace (eraseSpace s) = eraseSpace s := by
  simp [eraseSpace, List.filter_filter]

theorem replaceSlash_eq_nil_iff {s : Bytes} : replaceSlash s = [] ↔ s = [] := by simp [replaceSlash]

theorem collapse_blank_iff (s : Bytes) : (∀ c ∈ collapse s, isBlank c = true) ↔ ∀ c ∈ s, isspace c = true := by
  induction s with
  | nil => simp [collapse]
  | cons c s ih =>
    unfold collapse
    by_cases hc : isspace c = true
    · rw [if_pos hc]
      split
      · simpa [hc] using ih
      · simpa [hc, isBlank_space] using ih
    · rw [if_neg hc]
      have hb : ¬ isBlank c = true := fun h => hc (isspace_of_isBlank h)
      simp [hc, hb]

theorem joinDims_ne_nil {joined : Bytes} (dims : List Bytes) (h : joined ≠ []) : joinDims joined dims ≠ [] := by
  induction dims generalizing joined with
  | nil => exact h
  | cons d dims ih =>
    simp only [joinDims]
    split
    · exact ih h
    · exact ih (by simp [h])

theorem joinDims_cons_ne_nil {d : Bytes} (dims : List Bytes) (h : eraseSpace d ≠ []) :
    joinDims [] (d :: dims) ≠ [] := by
  have hd : replaceSlash (eraseSpace d) ≠ [] := by rwa [Ne, replaceSlash_eq_nil_iff]
  simp only [joinDims, hd, if_false, if_true]
  exact joinDims_ne_nil _ hd

theorem assemble_ne_nil {first : Bytes} (rest : List Bytes) (h : ∃ c ∈ first, isBlank c = false) :
    assemble first rest ≠ [] := by
  unfold assemble
  cases hm : matchPrefix first with
  | some lp =>
    obtain ⟨letters, number⟩ := lp
    have hl : letters ≠ [] := by
      unfold matchPrefix at hm
      simp only [Option.ite_none_right_eq_some, Option.some.injEq, Prod.mk.injEq] at hm
      obtain ⟨⟨h1, -⟩, h2, -⟩ := hm
      exact h2 ▸ h1
    simp [hl]
  | none =>
    simp only [List.map_nil, List.nil_append]
    rw [if_neg (by simp [ascii])]
    exact joinDims_cons_ne_nil _ (by rw [eraseSpace_eraseSpace]; exact eraseSpace_ne_nil h)

theorem splitParts_nonblank {raw : Bytes} : ∀ t ∈ splitParts raw, ∃ c ∈ t, isBlank c = false := by
  intro t ht
  obtain ⟨ht, hne⟩ := List.mem_filter.1 ht
  obtain ⟨u, -, rfl⟩ := List.mem_map.1 ht
  exact exists_of_trim_ne_nil (by simpa using hne)

/-- The normal form of a text is empty exactly when the text is white space. -/
theorem mtstandNormalize_eq_nil_iff {s : Bytes} (hs : s ≠ []) :
    mtstandNormalize s = [] ↔ ∀ c ∈ s, isspace c = true := by
  rw [← collapse_blank_iff, ← trim_eq_nil_iff]
  unfold mtstandNormalize
  rw [if_neg hs]
  by_cases hr : trim (collapse s) = []
  · simp [hr]
  · have hne := eraseSpace_ne_nil (exists_of_trim_ne_nil hr)
    simp only [hr, if_false, iff_false]
    split
    · rwa [replaceSlash_eq_nil_iff]
    · split
      · rwa [replaceSlash_eq_nil_iff]
      · rename_i first rest hp
        exact assemble_ne_nil rest (splitParts_nonblank first (by rw [hp]; simp))

/-! ## What the normal form keeps -/

/-- A property of texts that no step of the normal form breaks. -/
structure Kept (P : Bytes → Prop) : Prop where
  trim {s : Bytes} : P s → P (trim s)
  eraseSpace {s : Bytes} : P s → P (eraseSpace s)
  replaceSlash {s : Bytes} : P s → P (replaceSlash s)
  collapse {s : Bytes} : P s → P (collapse s)
  split {s : Bytes} : P s → ∀ t ∈ s.splitOnP isX, P t
  letters {s : Bytes} : P s → P (s.takeWhile isalpha)
  number {s : Bytes} : P s → P ((s.dropWhile isalpha).dropWhile isspace)
  append {s t : Bytes} : P s → P t → P (s ++ t)
  empty : P []
  x : P [120]
  unknown : P (ascii "Unknown")

section
variable {P : Bytes → Prop} (kept : Kept P)
include kept

theorem Kept.joinDims {dims : List Bytes} (hd : ∀ d ∈ dims, P d) {joined : Bytes} (h : P joined) :
    P (joinDims joined dims) := by
  induction dims generalizing joined with
  | nil => exact h
  | cons d dims ih =>
    have hdim := kept.replaceSlash (kept.eraseSpace (hd d (by simp)))
    simp only [MtStand.joinDims]
    split
    · exact ih (fun d h => hd d (by simp [h])) h
    · apply ih (fun d h => hd d (by simp [h]))
      split
      · exact hdim
      · exact kept.append (kept.append h kept.x) hdim

theorem Kept.matchPrefix {first letters number : Bytes} (hm : matchPrefix first = some (letters, number))
    (h : P first) : P letters ∧ P number := by
  unfold MtStand.matchPrefix at hm
  simp only [Option.ite_none_right_eq_some, Option.some.injEq, Prod.mk.injEq] at hm
  obtain ⟨-, rfl, rfl⟩ := hm
  exact ⟨kept.letters h, kept.number h⟩

theorem Kept.assemble {first : Bytes} {rest : List Bytes} (hf : P first) (hr : ∀ t ∈ rest, P t) :
    P (assemble first rest) := by
  have join : ∀ (lead firstDim : Bytes) (p : Prop) [Decidable p], P lead → P firstDim → P (lead ++ MtStand.joinDims []
        (if p then (firstDim :: rest).take 2 else firstDim :: rest)) := by
    intro lead firstDim p _ hl hd
    have hall : ∀ t ∈ firstDim :: rest, P t := by
      simpa [List.forall_mem_cons] using ⟨hd, hr⟩
    refine kept.append hl (kept.joinDims ?_ kept.empty)
    split
    · exact fun t ht => hall t (List.mem_of_mem_take ht)
    · exact hall
  unfold MtStand.assemble
  cases hm : MtStand.matchPrefix first with
  | some lp =>
    obtain ⟨hl, hn⟩ := kept.matchPrefix hm hf
    exact join _ _ _ hl (kept.trim hn)
  | none => exact join _ _ _ kept.empty (kept.eraseSpace hf)

theorem Kept.mtstandNormalize {s : Bytes} (h : P s) : P (mtstandNormalize s) := by
  have hraw := kept.trim (kept.collapse h)
  have hflat := kept.replaceSlash (kept.eraseSpace hraw)
  unfold MtStand.mtstandNormalize
  split
  · exact kept.unknown
  · simp only
    split
    · exact kept.empty
    · split
      · exact hflat
      · split
        · exact hflat
        · rename_i first rest hp
          have hparts : ∀ t ∈ first :: rest, P t := by
            intro t ht
            rw [← hp] at ht
            obtain ⟨u, hu, rfl⟩ := List.mem_map.1 (List.mem_filter.1 ht).1
            exact kept.trim (kept.split hraw u hu)
          exact kept.assemble (hparts first (by simp)) fun t ht => hparts t (by simp [ht])

end

/-! ## The normal form is text -/

theorem isspace_ascii {c : UInt8} (h : isspace c = true) : c < 0x80 := by unfold isspace at h; grind

theorem isBlank_ascii {c : UInt8} (h : isBlank c = true) : c < 0x80 := isspace_ascii (isspace_of_isBlank h)

theorem isalpha_ascii {c : UInt8} (h : isalpha c = true) : c < 0x80 := by unfold isalpha at h; grind

theorem isX_ascii {c : UInt8} (h : isX c = true) : c < 0x80 := by unfold isX at h; grind

theorem valid_collapse {s : Bytes} (h : Utf8.valid s = true) : Utf8.valid (collapse s) = true := by
  -- A blank is read between characters, so either blank or no blank may follow.
  have main : ∀ (s : Bytes) (q : Utf8.State), (Utf8.run q s).any (fun q => q.owed == 0) = true →
      (Utf8.run q (collapse s)).any (fun q => q.owed == 0) = true := by
    intro s
    induction s with
    | nil => exact fun _ h => h
    | cons c s ih =>
      intro q h
      rw [Utf8.run] at h
      cases hq : Utf8.step q c with
      | none => simp [hq] at h
      | some q' =>
        rw [hq, Option.bind_some] at h
        unfold collapse
        by_cases hc : isspace c = true
        · obtain ⟨ho, rfl⟩ := Utf8.step_ascii (isspace_ascii hc) hq
          have hs := ih _ h
          rw [if_pos hc, Utf8.run_owed ho]
          split
          · exact hs
          · rw [Utf8.valid_cons_ascii (by decide)]; exact hs
        · rw [if_neg hc, Utf8.run, hq, Option.bind_some]
          exact ih q' h
  exact main s Utf8.start h

theorem kept_valid : Kept fun s => Utf8.valid s = true where
  trim h := Utf8.valid_rdropWhile (fun _ => isBlank_ascii) (Utf8.valid_dropWhile (fun _ => isBlank_ascii) h)
  eraseSpace h := by
    refine Utf8.valid_filter (fun c hc => ?_) h
    simp only [bne_eq_false_iff_eq] at hc
    subst hc
    decide
  replaceSlash h := by
    refine Utf8.valid_map (fun c => ?_) h
    by_cases hc : c = 47
    · subst hc; exact .inr (by decide)
    · exact .inl (by simp [hc])
  collapse h := valid_collapse h
  split h := Utf8.valid_splitOnP (fun _ => isX_ascii) h
  letters _ := Utf8.valid_ascii fun _ hc => isalpha_ascii (List.mem_takeWhile_imp hc)
  number h := Utf8.valid_dropWhile (fun _ => isspace_ascii) (Utf8.valid_dropWhile (fun _ => isalpha_ascii) h)
  append hs ht := Utf8.valid_append hs ht
  empty := rfl
  x := by decide
  unknown := by decide

/-- The normal form of well-formed UTF-8 is well-formed UTF-8. -/
theorem valid_mtstandNormalize {s : Bytes} (h : Utf8.valid s = true) : Utf8.valid (mtstandNormalize s) = true :=
  kept_valid.mtstandNormalize h

/-! ## The normal form holds no other marks -/

theorem mem_collapse {s : Bytes} {c : UInt8} (h : c ∈ collapse s) : c = 32 ∨ c ∈ s := by
  induction s with
  | nil => cases h
  | cons d s ih =>
    unfold collapse at h
    split at h
    · split at h
      · exact (ih h).imp_right (List.mem_cons_of_mem _)
      · rcases List.mem_cons.1 h with rfl | h
        · exact .inl rfl
        · exact (ih h).imp_right (List.mem_cons_of_mem _)
    · rcases List.mem_cons.1 h with rfl | h
      · exact .inr List.mem_cons_self
      · exact (ih h).imp_right (List.mem_cons_of_mem _)

/-- A byte that the steps do not put there comes from the raw text. -/
theorem kept_notMem {b : UInt8} (hb : b ∉ ascii " _xUnknown") : Kept fun s => b ∉ s where
  trim h := fun hmem => h ((List.dropWhile_sublist _).subset ((List.rdropWhile_prefix _ _).subset hmem))
  eraseSpace h := fun hmem => h (List.mem_filter.1 hmem).1
  replaceSlash h := by
    intro hmem
    obtain ⟨c, hc, heq⟩ := List.mem_map.1 hmem
    split at heq
    · subst heq
      exact hb (by decide)
    · exact h (heq ▸ hc)
  collapse h := by
    intro hmem
    rcases mem_collapse hmem with rfl | hmem
    · exact hb (by decide)
    · exact h hmem
  split h := fun t ht hmem => h (Tokens.mem_of_mem_splitOnP ht hmem)
  letters h := fun hmem => h ((List.takeWhile_prefix _).subset hmem)
  number h := fun hmem => h ((List.dropWhile_sublist _).subset ((List.dropWhile_sublist _).subset hmem))
  append hs ht := by simp [hs, ht]
  empty := List.not_mem_nil
  x := fun hmem => hb (by rw [List.mem_singleton.1 hmem]; decide)
  unknown := by
    have hsub : ∀ c ∈ ascii "Unknown", c ∈ ascii " _xUnknown" := by decide +kernel
    exact fun hmem => hb (hsub _ hmem)

end FlameSdd.MtStand
