import FlameSdd.NormalForm
/-!
# Product standards

Laws of the normal form, for any text: it is normal itself, a component of a
path, and no longer than the text. For a standard as it should be written it is
the letters and the dimensions joined by `x`.
-/
open SysLib SysLib.Tokens

namespace FlameSdd.MtStand

/-! ## Properties of the normal form -/

/-- What does not tell an underscore from a slash does not see the exchange. -/
theorem underscore_for_slash {β : Type} {f : UInt8 → β} (h : f 95 = f 47) (c : UInt8) :
    f (if c == 47 then 95 else c) = f c := by
  by_cases hc : c = 47
  · rw [hc]
    exact h
  · simp [hc]

theorem tokens_replaceSlash (s : Bytes) : tokens isX (replaceSlash s) = (tokens isX s).map replaceSlash :=
  tokens_map (underscore_for_slash (by decide)) s

theorem replaceSlash_replaceSlash (s : Bytes) : replaceSlash (replaceSlash s) = replaceSlash s := by
  rw [replaceSlash, replaceSlash, List.map_map]
  exact List.map_congr_left fun c _ => underscore_for_slash (f := fun c => if c == 47 then 95 else c) rfl c

theorem slash_not_mem_replaceSlash (s : Bytes) : (47 : UInt8) ∉ replaceSlash s := by
  intro h
  obtain ⟨c, -, hc⟩ := List.mem_map.1 h
  split at hc
  · cases hc
  · rename_i hne
    exact hne (by simp [hc])

theorem mem_replaceSlash {s : Bytes} {c : UInt8} (h : c ∈ replaceSlash s) : c = 95 ∨ c ∈ s := by
  obtain ⟨d, hd, hc⟩ := List.mem_map.1 h
  split at hc
  · exact .inl hc.symm
  · exact .inr (hc ▸ hd)

theorem length_replaceSlash (s : Bytes) : (replaceSlash s).length = s.length := List.length_map _

theorem isHSection_replaceSlash (t : Bytes) : isHSection (replaceSlash t) = isHSection t := by
  match t with
  | [] => rfl
  | [_] => rfl
  | c :: d :: t =>
    have hc : (toupper (if c == 47 then 95 else c) == 72) = (toupper c == 72) :=
      underscore_for_slash (f := fun c => toupper c == 72) (by decide) c
    have hd : isdigit (if d == 47 then 95 else d) = isdigit d := underscore_for_slash (by decide) d
    change (_ && _) = (_ && _)
    rw [hc, hd]

theorem keepDims_map_replaceSlash (ts : List Bytes) :
    keepDims (ts.map replaceSlash) = (keepDims ts).map replaceSlash := by
  cases ts with
  | nil => rfl
  | cons first rest =>
    rw [List.map_cons, keepDims, keepDims, isHSection_replaceSlash]
    split <;> simp [List.map_take]

theorem keepDims_keepDims (ts : List Bytes) : keepDims (keepDims ts) = keepDims ts := by
  cases ts with
  | nil => rfl
  | cons first rest =>
    rw [keepDims]
    split
    · rename_i hH
      rw [keepDims, if_pos hH, List.take_take]
      rfl
    · rename_i hH
      rw [keepDims, if_neg hH]

theorem keepDims_sublist (ts : List Bytes) : (keepDims ts).Sublist ts := by
  cases ts with
  | nil => exact List.Sublist.slnil
  | cons first rest =>
    rw [keepDims]
    split
    · exact (List.take_sublist 1 rest).cons_cons first
    · exact List.Sublist.refl _

theorem keepDims_ne_nil {ts : List Bytes} (h : ts ≠ []) : keepDims ts ≠ [] := by
  cases ts with
  | nil => exact absurd rfl h
  | cons first rest =>
    rw [keepDims]
    split <;> exact List.cons_ne_nil _ _

/-- The tokens of a normal form are the ones that are kept, without slashes. -/
theorem tokens_normalForm (u : Bytes) : tokens isX (normalForm u) = (keepDims (tokens isX u)).map replaceSlash := by
  unfold normalForm
  split
  · rename_i hnil
    rw [tokens_replaceSlash, hnil]
    rfl
  · rw [tokens_replaceSlash, tokens_join (by decide) fun t ht => isToken_of_mem ((keepDims_sublist _).subset ht)]

theorem normalForm_normalForm (u : Bytes) : normalForm (normalForm u) = normalForm u := by
  by_cases hnil : tokens isX u = []
  · -- separators alone
    have hself : normalForm u = replaceSlash u := if_pos hnil
    have htokens : tokens isX (replaceSlash u) = [] := by
      rw [tokens_replaceSlash, hnil]
      rfl
    rw [hself, normalForm, if_pos htokens, replaceSlash_replaceSlash]
  · have hne : (keepDims (tokens isX u)).map replaceSlash ≠ [] := by simpa using keepDims_ne_nil hnil
    rw [normalForm, tokens_normalForm, if_neg hne, keepDims_map_replaceSlash, keepDims_keepDims, ← replaceSlash_join,
      replaceSlash_replaceSlash, normalForm, if_neg hnil]

theorem slash_not_mem_normalForm (u : Bytes) : (47 : UInt8) ∉ normalForm u := by
  unfold normalForm
  split <;> exact slash_not_mem_replaceSlash _

/-- A normal form has no characters of its own but `x` and `_`. -/
theorem mem_normalForm {u : Bytes} {c : UInt8} (h : c ∈ normalForm u) : c = 95 ∨ c = 120 ∨ c ∈ u := by
  unfold normalForm at h
  split at h
  · exact (mem_replaceSlash h).imp_right .inr
  · rcases mem_replaceSlash h with hc | hc
    · exact .inl hc
    · refine .inr ((mem_join hc).imp_right ?_)
      rintro ⟨t, ht, hct⟩
      exact mem_of_mem_tokens ((keepDims_sublist _).subset ht) hct

theorem length_normalForm_le (u : Bytes) : (normalForm u).length ≤ u.length := by
  unfold normalForm
  split
  · rw [length_replaceSlash]
  · rw [length_replaceSlash]
    exact (length_join_le (keepDims_sublist _) 120).trans (length_join_tokens_le 120 u)

theorem normalForm_no_space {u : Bytes} (h : ∀ c ∈ u, isspace c = false) : ∀ c ∈ normalForm u, isspace c = false := by
  intro c hc
  rcases mem_normalForm hc with rfl | rfl | hc
  · decide
  · decide
  · exact h c hc

theorem squeeze_no_space (s : Bytes) : ∀ c ∈ squeeze s, isspace c = false :=
  fun c hc => by simpa using (List.mem_filter.1 hc).2

/-- Every byte string but one of white space alone has its normal form. -/
theorem mtstandNormalize_blank {s : Bytes} (hs : s ≠ []) (h : squeeze s = []) : mtstandNormalize s = [] :=
  (mtstandNormalize_eq_nil_iff hs).2 (squeeze_eq_nil_iff.1 h)

/-! ## Spacing, normalising twice, directories -/

/-- Spacing does not matter. -/
theorem mtstandNormalize_spacing (s t : Bytes) (hsame : squeeze s = squeeze t) (hs : squeeze s ≠ []) :
    mtstandNormalize s = mtstandNormalize t := by
  rw [mtstandNormalize_eq hs, mtstandNormalize_eq (hsame ▸ hs), hsame]

theorem mtstandNormalize_spacing_h :
    mtstandNormalize (ascii "H 200 x100 x 8/12") = mtstandNormalize (ascii " H200x 100x8/1 2 ") :=
  mtstandNormalize_spacing (ascii "H 200 x100 x 8/12") (ascii " H200x 100x8/1 2 ") (by decide +kernel)
    (by decide +kernel)

/-- A normal form is normal. -/
theorem mtstandNormalize_mtstandNormalize (s : Bytes) (hs : squeeze s ≠ []) :
    mtstandNormalize (mtstandNormalize s) = mtstandNormalize s := by
  have hself : squeeze (normalForm (squeeze s)) = normalForm (squeeze s) :=
    squeeze_of_none (normalForm_no_space (squeeze_no_space s))
  have hne : normalForm (squeeze s) ≠ [] := by
    rw [← mtstandNormalize_eq hs, Ne, mtstandNormalize_eq_nil_iff, ← squeeze_eq_nil_iff]
    · exact hs
    · rintro rfl
      exact hs rfl
  rw [mtstandNormalize_eq hs, mtstandNormalize_eq (by rwa [hself]), hself, normalForm_normalForm]

theorem mtstandNormalize_twice : mtstandNormalize (mtstandNormalize (ascii "W 14 X 6-3/4 x 30")) =
    mtstandNormalize (ascii "W 14 X 6-3/4 x 30") :=
  mtstandNormalize_mtstandNormalize (ascii "W 14 X 6-3/4 x 30") (by decide +kernel)

/-- A normal form can be a component of a path. -/
theorem mtstandNormalize_component (s : Bytes) (hs : s ≠ []) :
    (47 : UInt8) ∉ mtstandNormalize s ∧ (∀ c ∈ mtstandNormalize s, isspace c = false) ∧
      (mtstandNormalize s).length ≤ s.length ∧ (mtstandNormalize s = [] → ∀ c ∈ s, isspace c = true) := by
  refine ⟨?_, ?_, ?_, (mtstandNormalize_eq_nil_iff hs).1⟩
  all_goals by_cases hblank : squeeze s = []
  · simp [mtstandNormalize_blank hs hblank]
  · rw [mtstandNormalize_eq hblank]
    exact slash_not_mem_normalForm _
  · simp [mtstandNormalize_blank hs hblank]
  · rw [mtstandNormalize_eq hblank]
    exact normalForm_no_space (squeeze_no_space s)
  · simp [mtstandNormalize_blank hs hblank]
  · rw [mtstandNormalize_eq hblank]
    exact (length_normalForm_le _).trans (List.length_filter_le _ s)

theorem mtstandNormalize_component_slash : (47 : UInt8) ∉ mtstandNormalize (ascii "H 6/9 ") ∧
    (∀ c ∈ mtstandNormalize (ascii "H 6/9 "), isspace c = false) ∧
    (mtstandNormalize (ascii "H 6/9 ")).length ≤ (ascii "H 6/9 ").length ∧
    (mtstandNormalize (ascii "H 6/9 ") = [] → ∀ c ∈ ascii "H 6/9 ", isspace c = true) :=
  mtstandNormalize_component (ascii "H 6/9 ") (by decide +kernel)

/-! ## Well-formed standards -/

/-- A dimension behind the first, as it is written: its separator may be either
letter, with white space on both sides. -/
structure Dimension where
  before : Bytes
  separator : UInt8
  behind : Bytes
  dim : Bytes
  blank : ∀ c ∈ before ++ behind, isspace c = true
  separates : isX separator = true
  ne_nil : dim ≠ []
  plain : ∀ c ∈ dim, isspace c = false ∧ isX c = false

def Dimension.text (d : Dimension) : Bytes := d.before ++ d.separator :: d.behind ++ d.dim

/-- A product standard as it is written: letters, if any, and dimensions, the
first of which begins with a digit. -/
structure Standard where
  front : Bytes
  letters : Bytes
  middle : Bytes
  first : Bytes
  rest : List Dimension
  back : Bytes
  blank : ∀ c ∈ front ++ middle ++ back, isspace c = true
  alpha : ∀ c ∈ letters, isalpha c = true ∧ isX c = false
  digit : first.head?.any isdigit = true
  plain : ∀ c ∈ first, isspace c = false ∧ isX c = false

namespace Standard

def text (w : Standard) : Bytes :=
  w.front ++ w.letters ++ w.middle ++ w.first ++ w.rest.flatMap Dimension.text ++ w.back

def dims (w : Standard) : List Bytes := w.first :: w.rest.map Dimension.dim

/-- The dimensions that count. -/
def kept (w : Standard) : List Bytes :=
  if (w.letters = ascii "H" ∨ w.letters = ascii "h") ∧ 2 ≤ w.dims.length then w.dims.take 2 else w.dims

theorem squeeze_text (w : Standard) :
    squeeze w.text = w.letters ++ w.first ++ w.rest.flatMap fun d => d.separator :: d.dim := by
  have hblank : ∀ s ∈ [w.front, w.middle, w.back], squeeze s = [] := by
    refine fun s hs => squeeze_of_blank fun c hc => w.blank c ?_
    simp only [List.mem_cons, List.not_mem_nil, or_false] at hs
    rcases hs with rfl | rfl | rfl <;> simp [hc]
  have hletters : squeeze w.letters = w.letters := squeeze_of_none fun c hc => isalpha_not_isspace (w.alpha c hc).1
  have hfirst : squeeze w.first = w.first := squeeze_of_none fun c hc => (w.plain c hc).1
  have hrest : squeeze (w.rest.flatMap Dimension.text) = w.rest.flatMap fun d => d.separator :: d.dim := by
    rw [squeeze, List.filter_flatMap]
    refine List.flatMap_congr fun d _ => ?_
    have hbefore : squeeze d.before = [] := squeeze_of_blank fun c hc => d.blank c (by simp [hc])
    have hbehind : squeeze (d.separator :: d.behind) = [d.separator] := by
      have hnil : squeeze d.behind = [] := squeeze_of_blank fun c hc => d.blank c (by simp [hc])
      rw [← hnil]
      exact List.filter_cons_of_pos (by simp [isX_not_isspace d.separates])
    have hdim : squeeze d.dim = d.dim := squeeze_of_none fun c hc => (d.plain c hc).1
    change squeeze d.text = _
    rw [Dimension.text, squeeze_append, squeeze_append, hbefore, hbehind, hdim]
    rfl
  rw [text, squeeze_append, squeeze_append, squeeze_append, squeeze_append, squeeze_append, hletters, hfirst, hrest,
    hblank w.front (by simp), hblank w.middle (by simp), hblank w.back (by simp)]
  simp

/-- Each separator begins a token. -/
theorem tokens_dims {t : Bytes} (ht : IsToken isX t) (rest : List Dimension) :
    tokens isX (t ++ rest.flatMap fun d => d.separator :: d.dim) = t :: rest.map Dimension.dim := by
  induction rest generalizing t with
  | nil => simp [tokens_of_isToken ht]
  | cons d rest ih =>
    have hd : IsToken isX d.dim := ⟨d.ne_nil, fun c hc => (d.plain c hc).2⟩
    rw [List.flatMap_cons, List.cons_append, tokens_append_cons ht d.separates, ih hd, List.map_cons]

theorem toupper_letters_iff (w : Standard) :
    w.letters.map toupper = ascii "H" ↔ w.letters = ascii "H" ∨ w.letters = ascii "h" := by
  have hupper : ascii "H" = [72] := rfl
  have hlower : ascii "h" = [104] := rfl
  have hchar : ∀ c : UInt8, toupper c = 72 ↔ c = 72 ∨ c = 104 := by
    intro c
    constructor
    · intro h
      unfold toupper at h
      split at h
      · exact .inr (by rw [← UInt8.sub_add_cancel c 32, h]; rfl)
      · exact .inl h
    · rintro (rfl | rfl) <;> decide
  rw [hupper, hlower]
  match w.letters with
  | [] => simp
  | [c] => simp [hchar]
  | c :: c' :: s => simp

/-- The letters of a standard, then its dimensions joined by `x`, with each slash
replaced; an H section keeps two of them. -/
theorem mtstandNormalize_text (w : Standard) :
    mtstandNormalize w.text = w.letters ++ [120].intercalate (w.kept.map replaceSlash) := by
  obtain ⟨d, s, hd, hfirst⟩ : ∃ d s, isdigit d = true ∧ w.first = d :: s := by
    have hdigit := w.digit
    cases hw : w.first with
    | nil => simp [hw] at hdigit
    | cons d s => exact ⟨d, s, by simpa [hw] using hdigit, rfl⟩
  have htoken : IsToken isX (w.letters ++ w.first) := by
    refine ⟨by simp [hfirst], fun c hc => ?_⟩
    rcases List.mem_append.1 hc with hc | hc
    · exact (w.alpha c hc).2
    · exact (w.plain c hc).2
  have htokens := tokens_dims htoken w.rest
  rw [← squeeze_text] at htokens
  have hne : squeeze w.text ≠ [] := by
    rw [squeeze_text, hfirst]
    simp
  have hH : isHSection (w.letters ++ w.first) = true ↔ w.letters = ascii "H" ∨ w.letters = ascii "h" := by
    rw [hfirst, isHSection_append (fun c hc => (w.alpha c hc).1) hd, toupper_letters_iff]
  have hkept : w.kept = w.first ::
      if w.letters = ascii "H" ∨ w.letters = ascii "h" then (w.rest.map Dimension.dim).take 1
      else w.rest.map Dimension.dim := take_dims w.first (w.rest.map Dimension.dim)
  have hdims : keepDims ((w.letters ++ w.first) :: w.rest.map Dimension.dim) = (w.letters ++ w.first) ::
      if w.letters = ascii "H" ∨ w.letters = ascii "h" then (w.rest.map Dimension.dim).take 1
      else w.rest.map Dimension.dim := by
    simp only [keepDims, hH]
    split <;> rfl
  rw [mtstandNormalize_eq hne, normalForm, htokens, if_neg (List.cons_ne_nil _ _), hdims, ← append_join_cons, ← hkept,
    replaceSlash_append, replaceSlash_of_isalpha fun c hc => (w.alpha c hc).1, replaceSlash_join]
  rfl

/-- An H section, with both kinds of separator and a third dimension. -/
def h194 : Standard where
  front := ascii " "
  letters := ascii "h"
  middle := ascii " "
  first := ascii "194"
  rest := [
    { before := ascii " ", separator := 0x78, behind := ascii " ", dim := ascii "150",
      blank := by decide +kernel, separates := by decide +kernel, ne_nil := by decide +kernel,
      plain := by decide +kernel },
    { before := [], separator := 0x58, behind := ascii " ", dim := ascii "6/9",
      blank := by decide +kernel, separates := by decide +kernel, ne_nil := by decide +kernel,
      plain := by decide +kernel }]
  back := ascii " "
  blank := by decide +kernel
  alpha := by decide +kernel
  digit := by decide +kernel
  plain := by decide +kernel

theorem mtstandNormalize_h194 : mtstandNormalize (ascii " h 194 x 150X 6/9 ") = ascii "h194x150" :=
  (mtstandNormalize_text h194).trans (by decide +kernel)

end Standard

end FlameSdd.MtStand
