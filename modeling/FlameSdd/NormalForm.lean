import FlameSdd.MtStand
/-!
# What the normal form is

White space in the raw text never matters: `_mtstand_normalize` is a function of
the text without it. That function cuts the text at `x` and `X`, keeps two
tokens of an H section and all of the others, and joins them by `x`.
-/
open SysLib SysLib.Tokens

namespace FlameSdd.MtStand

/-! ## The purpose -/

/-- The text without white space. -/
def squeeze (s : Bytes) : Bytes := s.filter fun c => !isspace c

/-- The token begins an H section: an `H` or an `h`, then a digit. -/
def isHSection : Bytes → Bool
  | c :: d :: _ => toupper c == 72 && isdigit d
  | _ => false

/-- An H section keeps two dimensions, the first behind its letter. -/
def keepDims : List Bytes → List Bytes
  | [] => []
  | first :: rest => if isHSection first then first :: rest.take 1 else first :: rest

/-- The normal form of a text without white space. A text of separators alone
stays as it is. -/
def normalForm (u : Bytes) : Bytes :=
  if tokens isX u = [] then replaceSlash u else replaceSlash (join 120 (keepDims (tokens isX u)))

/-! ## White space -/

/-- All white space is blanks. -/
def OnlySpaces (s : Bytes) : Prop := ∀ c ∈ s, isspace c = true → c = 32

theorem OnlySpaces.mono {s t : Bytes} (h : OnlySpaces s) (hsub : t ⊆ s) : OnlySpaces t := fun c hc => h c (hsub hc)

theorem onlySpaces_collapse (s : Bytes) : OnlySpaces (collapse s) := by
  induction s with
  | nil => exact List.forall_mem_nil _
  | cons c s ih =>
    unfold collapse
    split
    · split
      · exact ih
      · exact List.forall_mem_cons.2 ⟨fun _ => rfl, ih⟩
    · rename_i hc
      exact List.forall_mem_cons.2 ⟨fun h => absurd h hc, ih⟩

theorem squeeze_collapse (s : Bytes) : squeeze (collapse s) = squeeze s := by
  induction s with
  | nil => rfl
  | cons c s ih =>
    unfold squeeze at ih ⊢
    unfold collapse
    split
    · rename_i hc
      have hblank : isspace 32 = true := by decide
      split <;> simp [ih, hc, hblank]
    · rename_i hc
      simp [ih, hc]

theorem squeeze_dropWhile {p : UInt8 → Bool} (hp : ∀ c, p c = true → isspace c = true) (s : Bytes) :
    squeeze (s.dropWhile p) = squeeze s := by
  induction s with
  | nil => rfl
  | cons c s ih =>
    rw [List.dropWhile_cons]
    split
    · rename_i hc
      rw [ih]
      simp [squeeze, hp c hc]
    · rfl

theorem squeeze_trim (s : Bytes) : squeeze (trim s) = squeeze s := by
  have hback : squeeze (trim s) = (squeeze ((s.dropWhile isBlank).reverse.dropWhile isBlank)).reverse := by
    simp [squeeze, trim, List.rdropWhile, List.filter_reverse]
  rw [hback, squeeze_dropWhile fun _ => isspace_of_isBlank]
  have hrev : squeeze (s.dropWhile isBlank).reverse = (squeeze (s.dropWhile isBlank)).reverse := by
    simp [squeeze, List.filter_reverse]
  rw [hrev, List.reverse_reverse, squeeze_dropWhile fun _ => isspace_of_isBlank]

theorem eraseSpace_eq_squeeze {s : Bytes} (h : OnlySpaces s) : eraseSpace s = squeeze s := by
  refine List.filter_congr fun c hc => ?_
  by_cases hspace : isspace c = true
  · rw [h c hc hspace]
    rfl
  · have hne : c ≠ 32 := by
      rintro rfl
      exact hspace (by decide)
    simp [hspace, hne]

theorem trim_subset (s : Bytes) : trim s ⊆ s := fun _ hc =>
  (List.dropWhile_sublist _).subset ((List.rdropWhile_prefix _ _).subset hc)

theorem squeeze_eq_nil_iff {s : Bytes} : squeeze s = [] ↔ ∀ c ∈ s, isspace c = true := by simp [squeeze]

theorem trim_eq_nil_iff_squeeze {s : Bytes} (h : OnlySpaces s) : trim s = [] ↔ squeeze s = [] := by
  rw [trim_eq_nil_iff, squeeze_eq_nil_iff]
  constructor
  · exact fun hall c hc => isspace_of_isBlank (hall c hc)
  · intro hall c hc
    rw [h c hc (hall c hc)]
    decide

/-! ## The tokens -/

theorem isX_not_isspace {c : UInt8} (h : isX c = true) : isspace c = false := by
  simp only [isX, Bool.or_eq_true, beq_iff_eq] at h
  rcases h with rfl | rfl <;> decide

/-- Without their blanks, the parts are the tokens of the text without white space. -/
theorem splitParts_squeeze {raw : Bytes} (h : OnlySpaces raw) :
    (splitParts raw).map eraseSpace = tokens isX (squeeze raw) := by
  have hpieces : ∀ t ∈ raw.splitOnP isX, OnlySpaces t := fun t ht => h.mono fun c hc => mem_of_mem_splitOnP ht hc
  rw [tokens, squeeze, splitOnP_filter (fun c hc => by simp [isX_not_isspace hc]), splitParts]
  generalize raw.splitOnP isX = pieces at hpieces
  induction pieces with
  | nil => rfl
  | cons t pieces ih =>
    obtain ⟨ht, hpieces⟩ := List.forall_mem_cons.1 hpieces
    have hnil := trim_eq_nil_iff_squeeze ht
    have herase : eraseSpace (trim t) = squeeze t := by
      rw [eraseSpace_eq_squeeze (ht.mono (trim_subset t)), squeeze_trim]
    rw [List.map_cons, List.map_cons]
    change _ = (squeeze t :: _).filter _
    by_cases hempty : squeeze t = []
    · rw [List.filter_cons_of_neg (by simp [hnil.2 hempty]), List.filter_cons_of_neg (by simp [hempty]), ih hpieces]
    · have htrim : trim t ≠ [] := fun he => hempty (hnil.1 he)
      rw [List.filter_cons_of_pos (by simpa using htrim), List.filter_cons_of_pos (by simpa using hempty),
        List.map_cons, herase, ih hpieces]

/-- What the loop joins, when no dimension is empty. -/
theorem joinDims_eq {joined : Bytes} (hj : joined ≠ []) {dims : List Bytes} (h : ∀ d ∈ dims, eraseSpace d ≠ []) :
    joinDims joined dims = join 120 (joined :: dims.map fun d => replaceSlash (eraseSpace d)) := by
  induction dims generalizing joined with
  | nil => rw [joinDims, List.map_nil, join_singleton]
  | cons d dims ih =>
    obtain ⟨hd, h⟩ := List.forall_mem_cons.1 h
    have hdim : replaceSlash (eraseSpace d) ≠ [] := by rwa [Ne, replaceSlash_eq_nil_iff]
    have happend : joined ++ [120] ++ replaceSlash (eraseSpace d) =
        joined ++ 120 :: replaceSlash (eraseSpace d) := by simp
    simp only [joinDims, hdim, hj, if_false]
    rw [happend, ih (by simp) h, List.map_cons, join_cons_cons, ← append_join_cons]
    congr 1
    cases dims <;> simp [join_singleton, join_cons_cons]

theorem joinDims_nil_eq {dims : List Bytes} (h : ∀ d ∈ dims, eraseSpace d ≠ []) :
    joinDims [] dims = join 120 (dims.map fun d => replaceSlash (eraseSpace d)) := by
  cases dims with
  | nil => rfl
  | cons d dims =>
    obtain ⟨hd, h⟩ := List.forall_mem_cons.1 h
    have hdim : replaceSlash (eraseSpace d) ≠ [] := by rwa [Ne, replaceSlash_eq_nil_iff]
    simp only [joinDims, hdim, if_false, if_true]
    exact joinDims_eq hdim h

/-! ## The prefix -/

/-- Letters, blanks, and then text that begins with a digit. -/
theorem matchPrefix_spec {first letters number : Bytes} (h : matchPrefix first = some (letters, number)) :
    letters ≠ [] ∧ (∀ c ∈ letters, isalpha c = true) ∧ number.head?.any isdigit = true ∧
      ∃ blanks, (∀ c ∈ blanks, isspace c = true) ∧ first = letters ++ blanks ++ number := by
  unfold matchPrefix at h
  simp only [Option.ite_none_right_eq_some, Option.some.injEq, Prod.mk.injEq] at h
  obtain ⟨⟨hne, hdigit⟩, rfl, rfl⟩ := h
  refine ⟨hne, fun c hc => List.mem_takeWhile_imp hc, hdigit, (first.dropWhile isalpha).takeWhile isspace,
    fun c hc => List.mem_takeWhile_imp hc, ?_⟩
  rw [List.append_assoc, List.takeWhile_append_dropWhile, List.takeWhile_append_dropWhile]

theorem isalpha_not_isspace {c : UInt8} (h : isalpha c = true) : isspace c = false := by
  unfold isalpha at h
  unfold isspace
  grind

theorem isdigit_not_isspace {c : UInt8} (h : isdigit c = true) : isspace c = false := by
  unfold isdigit at h
  unfold isspace
  grind

theorem isalpha_not_isdigit {c : UInt8} (h : isalpha c = true) : isdigit c = false := by
  unfold isalpha at h
  unfold isdigit
  grind

theorem isalpha_of_toupper {c : UInt8} (h : toupper c = 72) : isalpha c = true := by
  unfold toupper at h
  split at h
  · rename_i hlower
    rw [isalpha, hlower, Bool.or_true]
  · rw [h]
    decide

theorem squeeze_append (s t : Bytes) : squeeze (s ++ t) = squeeze s ++ squeeze t := List.filter_append ..

theorem squeeze_of_blank {s : Bytes} (h : ∀ c ∈ s, isspace c = true) : squeeze s = [] := squeeze_eq_nil_iff.2 h

theorem squeeze_of_none {s : Bytes} (h : ∀ c ∈ s, isspace c = false) : squeeze s = s :=
  List.filter_eq_self.2 fun c hc => by simp [h c hc]

/-- The digit behind the prefix stays in front. -/
theorem squeeze_number {number : Bytes} (h : number.head?.any isdigit = true) :
    ∃ d s, isdigit d = true ∧ squeeze number = d :: s := by
  cases number with
  | nil => cases h
  | cons d number =>
    have hd : isdigit d = true := h
    exact ⟨d, squeeze number, hd, List.filter_cons_of_pos (by simp [isdigit_not_isspace hd])⟩

/-- Letters in front of a digit begin an H section if and only if they are `H` or `h`. -/
theorem isHSection_append {letters : Bytes} (hletters : ∀ c ∈ letters, isalpha c = true) {d : UInt8}
    (hd : isdigit d = true) (s : Bytes) : isHSection (letters ++ d :: s) = true ↔ letters.map toupper = ascii "H" := by
  have hH : ascii "H" = [72] := rfl
  rw [hH]
  match letters, hletters with
  | [], _ =>
    -- the digit is not an `H`
    have hno : toupper d ≠ 72 := by
      intro h
      rw [isalpha_not_isdigit (isalpha_of_toupper h)] at hd
      cases hd
    cases s <;> simp [isHSection, hno]
  | [c], _ => simp [isHSection, hd]
  | c :: c' :: letters, hletters =>
    -- the second letter is no digit
    have hc' := isalpha_not_isdigit (hletters c' (by simp))
    simp [isHSection, hc']

/-- White space alone is in front of what `squeeze` puts first. -/
theorem dropWhile_of_squeeze {s t : Bytes} {d : UInt8} (h : squeeze s = d :: t) :
    ∃ t', s.dropWhile isspace = d :: t' := by
  have hsqueeze := squeeze_dropWhile (p := isspace) (fun _ h => h) s
  rw [h] at hsqueeze
  cases hdrop : s.dropWhile isspace with
  | nil =>
    rw [hdrop] at hsqueeze
    cases hsqueeze
  | cons e t' =>
    have he : isspace e = false := by
      have hnot := List.head_dropWhile_not isspace (l := s) (by rw [hdrop]; exact List.cons_ne_nil e t')
      simpa [hdrop] using hnot
    have hkeep : squeeze (e :: t') = e :: squeeze t' := List.filter_cons_of_pos (by simp [he])
    rw [hdrop, hkeep] at hsqueeze
    exact ⟨t', by rw [(List.cons.inj hsqueeze).1]⟩

/-- Neither white space nor a digit continues the letters. -/
theorem not_isalpha_head {rest t : Bytes} {d : UInt8} (hd : isdigit d = true)
    (hdrop : rest.dropWhile isspace = d :: t) :
    rest.takeWhile isalpha = [] ∧ rest.dropWhile isalpha = rest := by
  cases rest with
  | nil => exact ⟨rfl, rfl⟩
  | cons e rest =>
    have he : ¬ isalpha e = true := by
      intro halpha
      rw [List.dropWhile_cons_of_neg (by simp [isalpha_not_isspace halpha])] at hdrop
      rw [← (List.cons.inj hdrop).1, isalpha_not_isdigit halpha] at hd
      cases hd
    exact ⟨List.takeWhile_cons_of_neg he, List.dropWhile_cons_of_neg he⟩

/-- A token without a prefix begins no H section. -/
theorem isHSection_of_none {first : Bytes} (hhead : first.head?.all fun c => !isspace c)
    (h : matchPrefix first = none) : isHSection (squeeze first) = false := by
  cases first with
  | nil => rfl
  | cons c rest =>
    have hc : isspace c = false := by simpa using hhead
    have hsplit : squeeze (c :: rest) = c :: squeeze rest := List.filter_cons_of_pos (by simp [hc])
    rw [hsplit]
    cases hrest : squeeze rest with
    | nil => rfl
    | cons d s =>
      by_contra hyes
      have hboth : toupper c = 72 ∧ isdigit d = true := by simpa [isHSection] using hyes
      -- then the letter, the white space behind it and the digit match
      obtain ⟨t, hdrop⟩ := dropWhile_of_squeeze hrest
      have hletter := isalpha_of_toupper hboth.1
      have hrest := not_isalpha_head hboth.2 hdrop
      unfold matchPrefix at h
      simp [List.takeWhile_cons_of_pos hletter, List.dropWhile_cons_of_pos hletter, hrest, hdrop, hboth.2] at h

/-! ## The refinement -/

theorem replaceSlash_of_isalpha {s : Bytes} (h : ∀ c ∈ s, isalpha c = true) : replaceSlash s = s := by
  have hmap : ∀ c ∈ s, (if c == 47 then 95 else c) = c := by
    intro c hc
    have hne : c ≠ 47 := by
      rintro rfl
      exact absurd (h _ hc) (by decide)
    simp [hne]
  exact (List.map_congr_left hmap).trans (List.map_id s)

theorem replaceSlash_append (s t : Bytes) : replaceSlash (s ++ t) = replaceSlash s ++ replaceSlash t := List.map_append

theorem replaceSlash_join (ts : List Bytes) : replaceSlash (join 120 ts) = join 120 (ts.map replaceSlash) :=
  map_join _ 120 ts

/-- A part as `splitParts` yields it: trimmed, and all its white space is blanks. -/
structure IsPart (t : Bytes) : Prop where
  onlySpaces : OnlySpaces t
  head : t.head?.all fun c => !isspace c
  ne_nil : squeeze t ≠ []

theorem IsPart.eraseSpace {t : Bytes} (h : IsPart t) : MtStand.eraseSpace t = squeeze t :=
  eraseSpace_eq_squeeze h.onlySpaces

theorem trim_head (s : Bytes) (h : OnlySpaces s) : (trim s).head?.all fun c => !isspace c := by
  cases htrim : trim s with
  | nil => rfl
  | cons c t =>
    have hpre := List.rdropWhile_prefix isBlank (s.dropWhile isBlank)
    have hne : s.dropWhile isBlank ≠ [] := by
      intro hnil
      rw [trim, hnil] at htrim
      cases htrim
    have hhead : (s.dropWhile isBlank).head hne = c := by
      have hsame := List.IsPrefix.head hpre (by rw [← trim, htrim]; exact List.cons_ne_nil c t)
      rw [trim] at htrim
      rw [← hsame]
      simp [htrim]
    have hblank := List.head_dropWhile_not isBlank hne
    rw [hhead] at hblank
    have hmem : c ∈ s := trim_subset s (by rw [htrim]; exact List.mem_cons_self)
    simp only [List.head?_cons, Option.all_some, Bool.not_eq_true']
    by_contra hspace
    rw [h c hmem (by simpa using hspace)] at hblank
    cases hblank

theorem isPart_of_mem {raw : Bytes} (h : OnlySpaces raw) : ∀ t ∈ splitParts raw, IsPart t := by
  intro t ht
  obtain ⟨hmem, hne⟩ := List.mem_filter.1 ht
  obtain ⟨piece, hpiece, rfl⟩ := List.mem_map.1 hmem
  have hspaces : OnlySpaces piece := h.mono fun c hc => mem_of_mem_splitOnP hpiece hc
  refine ⟨hspaces.mono (trim_subset piece), trim_head piece hspaces, ?_⟩
  rw [squeeze_trim, Ne, ← trim_eq_nil_iff_squeeze hspaces]
  simpa using hne

/-- Two dimensions at most is the same as one behind the first. -/
theorem take_dims {H : Prop} [Decidable H] (d : Bytes) (rest : List Bytes) :
    (if H ∧ 2 ≤ (d :: rest).length then (d :: rest).take 2 else d :: rest) = d :: if H then rest.take 1 else rest := by
  by_cases hH : H
  · cases rest with
    | nil => simp [hH]
    | cons e rest => simp [hH]
  · simp [hH]

/-- The prefix stays in front of the first dimension, so the parts are joined as
they are. -/
theorem assemble_eq {first : Bytes} {rest : List Bytes} (hfirst : IsPart first) (hrest : ∀ t ∈ rest, IsPart t) :
    assemble first rest = replaceSlash (join 120 (keepDims ((first :: rest).map eraseSpace))) := by
  have hkept : ∀ (H : Prop) [Decidable H], ∀ d ∈ (if H then rest.take 1 else rest), eraseSpace d ≠ [] := by
    intro H _ d hd
    have hmem : d ∈ rest := by
      split at hd
      · exact List.mem_of_mem_take hd
      · exact hd
    rw [(hrest d hmem).eraseSpace]
    exact (hrest d hmem).ne_nil
  have hmap : ∀ (H : Prop) [Decidable H], (if H then rest.take 1 else rest).map (fun d => replaceSlash (eraseSpace d)) =
      (if H then (rest.map eraseSpace).take 1 else rest.map eraseSpace).map replaceSlash := by
    intro H _
    split <;> simp [List.map_take, Function.comp_def]
  rw [List.map_cons, hfirst.eraseSpace, replaceSlash_join, keepDims]
  unfold assemble
  cases hm : matchPrefix first with
  | some pair =>
    -- the letters are taken off, and put in front of what is joined
    obtain ⟨letters, number⟩ := pair
    obtain ⟨-, hletters, hdigit, blanks, hblanks, hsplit⟩ := matchPrefix_spec hm
    obtain ⟨d, s, hd, hnumber⟩ := squeeze_number hdigit
    have hsqueeze : squeeze first = letters ++ d :: s := by
      rw [hsplit, squeeze_append, squeeze_append, squeeze_of_blank hblanks, List.append_nil, hnumber,
        squeeze_of_none fun c hc => isalpha_not_isspace (hletters c hc)]
    have hdim : eraseSpace (trim number) = d :: s := by
      have hspaces : OnlySpaces (trim number) :=
        hfirst.onlySpaces.mono fun c hc => hsplit ▸ List.mem_append_right _ (trim_subset number hc)
      rw [eraseSpace_eq_squeeze hspaces, squeeze_trim, hnumber]
    change letters ++ joinDims [] (if letters.map toupper = ascii "H" ∧ 2 ≤ (trim number :: rest).length then
      (trim number :: rest).take 2 else trim number :: rest) = _
    have hdims : ∀ e ∈ trim number :: (if letters.map toupper = ascii "H" then rest.take 1 else rest),
        eraseSpace e ≠ [] :=
      List.forall_mem_cons.2 ⟨by rw [hdim]; exact List.cons_ne_nil d s, hkept _⟩
    rw [take_dims, joinDims_nil_eq hdims, List.map_cons, hdim, append_join_cons, hmap, hsqueeze]
    have hfront : letters ++ replaceSlash (d :: s) = replaceSlash (letters ++ d :: s) := by
      rw [replaceSlash_append, replaceSlash_of_isalpha hletters]
    rw [hfront]
    simp only [isHSection_append hletters hd s]
    split <;> rfl
  | none =>
    -- the first part is a dimension as it is
    have hno := isHSection_of_none hfirst.head hm
    change [] ++ joinDims [] (if List.map toupper [] = ascii "H" ∧ 2 ≤ (eraseSpace first :: rest).length then
      (eraseSpace first :: rest).take 2 else eraseSpace first :: rest) = _
    have hH : List.map toupper [] ≠ ascii "H" := by decide
    have hdims : ∀ e ∈ eraseSpace first :: rest, eraseSpace e ≠ [] := by
      refine List.forall_mem_cons.2 ⟨?_, by simpa using hkept False⟩
      rw [eraseSpace_eraseSpace, hfirst.eraseSpace]
      exact hfirst.ne_nil
    rw [if_neg fun h => hH h.1, List.nil_append, joinDims_nil_eq hdims, List.map_cons, eraseSpace_eraseSpace,
      hfirst.eraseSpace, hno]
    simp [Function.comp_def]

theorem keepDims_singleton (t : Bytes) : keepDims [t] = [t] := by simp [keepDims]

/-- `_mtstand_normalize` computes the normal form of the text without white
space, if anything is left of it. -/
theorem mtstandNormalize_eq {s : Bytes} (h : squeeze s ≠ []) : mtstandNormalize s = normalForm (squeeze s) := by
  have hspaces : OnlySpaces (trim (collapse s)) := (onlySpaces_collapse s).mono (trim_subset _)
  have hsqueeze : squeeze (trim (collapse s)) = squeeze s := by rw [squeeze_trim, squeeze_collapse]
  have herase : eraseSpace (trim (collapse s)) = squeeze s := by rw [eraseSpace_eq_squeeze hspaces, hsqueeze]
  have hs : s ≠ [] := by
    rintro rfl
    exact h rfl
  have hraw : trim (collapse s) ≠ [] := by
    intro hnil
    rw [hnil] at hsqueeze
    exact h hsqueeze.symm
  have htokens := splitParts_squeeze hspaces
  rw [hsqueeze] at htokens
  unfold mtstandNormalize
  rw [if_neg hs]
  simp only [hraw, if_false, herase]
  split
  · -- without an `x` the text is its only token
    rename_i hno
    have htoken : IsToken isX (squeeze s) := by
      refine ⟨h, fun c hc => ?_⟩
      rw [← hsqueeze] at hc
      simp only [Bool.not_eq_true', List.any_eq_false] at hno
      simpa using hno c (List.mem_filter.1 hc).1
    rw [normalForm, tokens_of_isToken htoken, if_neg (List.cons_ne_nil _ _), keepDims_singleton, join_singleton]
  · split
    · rename_i hparts
      rw [hparts, List.map_nil] at htokens
      rw [normalForm, if_pos htokens.symm]
    · rename_i first rest hparts
      rw [hparts] at htokens
      have hpart := isPart_of_mem hspaces
      rw [hparts, List.forall_mem_cons] at hpart
      rw [assemble_eq hpart.1 hpart.2, htokens, normalForm, if_neg (by rw [← htokens]; exact List.cons_ne_nil _ _)]

end FlameSdd.MtStand
