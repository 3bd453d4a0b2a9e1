import FlameSdd.SysLib.JsonScan
/-!
# Quotes exchanged in a JSON text

What a decoder reads of the text of an object in which every apostrophe was
made a quote. The escapes of the text stay whole, so no string that is read
holds an apostrophe: `loads_exchange_iff`.
-/

namespace SysLib.JsonText

/-! ## Whole escapes -/

/-- Every apostrophe becomes a quote. -/
def exchange (s : Bytes) : Bytes := s.map fun c => if c = 0x27 then 0x22 else c

/-- A text without apostrophes in which every backslash starts an escape, and
`\u` is used for control characters only. -/
inductive Aligned : Bytes → Prop
  | nil : Aligned []
  | raw {c : UInt8} {s : Bytes} (hback : c ≠ 0x5c) (hquote : c ≠ 0x27) (h : Aligned s) : Aligned (c :: s)
  | short {e b : UInt8} {s : Bytes} (he : unescape e = some b) (h : Aligned s) : Aligned (0x5c :: e :: s)
  | control {a b c d : UInt8} {u : Nat} {s : Bytes} (hu : hex4 a b c d = some u) (hlt : u < 0x20) (h : Aligned s) :
    Aligned (0x5c :: 0x75 :: a :: b :: c :: d :: s)

theorem Aligned.append {s t : Bytes} (hs : Aligned s) (ht : Aligned t) : Aligned (s ++ t) := by
  induction hs with
  | nil => exact ht
  | raw hback hquote _ ih => exact .raw hback hquote ih
  | short he _ ih => exact .short he ih
  | control hu hlt _ ih => exact .control hu hlt ih

theorem Aligned.tail {c : UInt8} {s : Bytes} (h : Aligned (c :: s)) (hc : c ≠ 0x5c) : Aligned s := by
  cases h with
  | raw _ _ h => exact h
  | short => exact absurd rfl hc
  | control => exact absurd rfl hc

/-- What is left behind bytes that are no backslash. -/
theorem Aligned.drop {p s : Bytes} (h : Aligned (p ++ s)) (hp : ∀ c ∈ p, c ≠ 0x5c) : Aligned s := by
  induction p with
  | nil => exact h
  | cons c p ih => exact ih (Aligned.tail h (hp c List.mem_cons_self)) fun d hd => hp d (List.mem_cons_of_mem _ hd)

theorem hexDigit_control {c : UInt8} (h : c < 0x20) : hexDigit (c / 16) ≠ 0x27 ∧ hexDigit (c % 16) ≠ 0x27 := by
  have hlt : c.toNat < 32 := UInt8.lt_iff_toNat_lt.1 h
  have hall : ∀ n < 32, hexDigit (UInt8.ofNat n / 16) ≠ 0x27 ∧ hexDigit (UInt8.ofNat n % 16) ≠ 0x27 := by decide
  simpa using hall c.toNat hlt

theorem aligned_escape (c : UInt8) : Aligned (exchange (escape c)) := by
  have short : ∀ e b, unescape e = some b → e ≠ 0x27 → Aligned (exchange [0x5c, e]) := by
    intro e b he hne
    have hexch : exchange [0x5c, e] = [0x5c, e] := by simp [exchange, hne]
    rw [hexch]
    exact .short he .nil
  unfold escape
  repeat' split
  · exact short 0x62 0x08 rfl (by decide)
  · exact short 0x74 0x09 rfl (by decide)
  · exact short 0x6e 0x0a rfl (by decide)
  · exact short 0x66 0x0c rfl (by decide)
  · exact short 0x72 0x0d rfl (by decide)
  · exact short 0x22 0x22 rfl (by decide)
  · exact short 0x5c 0x5c rfl (by decide)
  · rename_i h
    obtain ⟨hhigh, hlow⟩ := hexDigit_control h
    have hexch : exchange [0x5c, 0x75, 0x30, 0x30, hexDigit (c / 16), hexDigit (c % 16)] =
        [0x5c, 0x75, 0x30, 0x30, hexDigit (c / 16), hexDigit (c % 16)] := by
      simp [exchange, hhigh, hlow]
    rw [hexch]
    exact .control (hex4_control h).1 (UInt8.lt_iff_toNat_lt.1 h) .nil
  · rename_i hback _
    by_cases hq : c = 0x27
    · subst hq
      exact .raw (by decide) (by decide) .nil
    · have hexch : exchange [c] = [c] := by simp [exchange, hq]
      rw [hexch]
      exact .raw hback hq .nil

@[simp] theorem exchange_append (s t : Bytes) : exchange (s ++ t) = exchange s ++ exchange t := List.map_append

theorem aligned_escaped (s : Bytes) : Aligned (exchange (s.flatMap escape)) := by
  induction s with
  | nil => exact .nil
  | cons c s ih =>
    rw [List.flatMap_cons, exchange_append]
    exact (aligned_escape c).append ih

theorem aligned_printTail (s : Bytes) : Aligned (exchange (printTail s)) := by
  rw [printTail, exchange_append]
  exact (aligned_escaped s).append (.raw (by decide) (by decide) .nil)

theorem aligned_printString (s : Bytes) : Aligned (exchange (printString s)) :=
  .raw (by decide) (by decide) (aligned_printTail s)

/-- A text of neither backslashes nor apostrophes. -/
theorem aligned_of_plain {s : Bytes} (h : ∀ c ∈ s, c ≠ 0x5c ∧ c ≠ 0x27) : Aligned (exchange s) := by
  induction s with
  | nil => exact .nil
  | cons c s ih =>
    obtain ⟨hback, hquote⟩ := h c List.mem_cons_self
    have hexch : exchange (c :: s) = c :: exchange s := by simp [exchange, hquote]
    rw [hexch]
    exact .raw hback hquote (ih fun d hd => h d (List.mem_cons_of_mem _ hd))

theorem decimalInt_plain (i : Int) : ∀ c ∈ decimalInt i, c ≠ 0x5c ∧ c ≠ 0x27 := by
  intro c hc
  rcases decimalInt_mem hc with rfl | hd
  · decide
  · constructor
    · rintro rfl
      cases hd
    · rintro rfl
      cases hd

theorem aligned_printScalar (v : Scalar) : Aligned (exchange (printScalar v)) := by
  cases v with
  | bool b => cases b <;> exact aligned_of_plain (by decide +kernel)
  | int i => exact aligned_of_plain (decimalInt_plain i)
  | str s => exact aligned_printString s

theorem aligned_print (m : Object) : Aligned (exchange (print m)) := by
  refine print_ind (P := fun s => Aligned (exchange s)) ?_ ?_ ?_
  · intro s t hs ht
    rw [exchange_append]
    exact hs.append ht
  · intro c hc
    exact aligned_of_plain (by revert c; decide +kernel)
  · exact fun e _ => ⟨aligned_printString e.1, aligned_printScalar e.2⟩

/-! ## What is read of such a text -/

theorem prepend_eq_some {s t rest : Bytes} {r : Option (Bytes × Bytes)} (h : prepend s r = some (t, rest)) :
    ∃ u, r = some (u, rest) ∧ t = s ++ u := by
  obtain ⟨⟨u, rest'⟩, hr, heq⟩ := Option.map_eq_some_iff.1 h
  obtain ⟨rfl, rfl⟩ := Prod.mk.inj heq
  exact ⟨u, hr, rfl⟩

theorem unescape_ne {e b : UInt8} (h : unescape e = some b) : b ≠ 0x27 := by
  rintro rfl
  unfold unescape at h
  repeat' split at h
  all_goals cases h

/-- A string in front of `y` ends there, or goes on in `y`. -/
def EndsAt (y t rest : Bytes) : Prop :=
  (∃ x, Aligned x ∧ rest = x ++ y ∧ 0x27 ∉ t) ∨ ∃ u t', 0x27 ∉ u ∧ t = u ++ t' ∧ scanString none y = some (t', rest)

theorem EndsAt.more {y t rest p : Bytes} (h : EndsAt y t rest) (hp : 0x27 ∉ p) : EndsAt y (p ++ t) rest := by
  rcases h with ⟨x, hx, hrest, hclean⟩ | ⟨u, t', hu, rfl, hy⟩
  · exact .inl ⟨x, hx, hrest, by simp [hp, hclean]⟩
  · exact .inr ⟨p ++ u, t', by simp [hp, hu], by simp, hy⟩

theorem scanString_aligned {x : Bytes} (h : Aligned x) {y t rest : Bytes}
    (hs : scanString none (x ++ y) = some (t, rest)) : EndsAt y t rest := by
  induction h generalizing t with
  | nil => exact .inr ⟨[], t, List.not_mem_nil, rfl, hs⟩
  | @raw c x hback hquote hx ih =>
    by_cases hc : c = 0x22
    · subst hc
      rw [List.cons_append, scanString_quote] at hs
      obtain ⟨rfl, rfl⟩ := Prod.mk.inj (Option.some.inj hs)
      exact .inl ⟨x, hx, rfl, List.not_mem_nil⟩
    · rw [List.cons_append, scanString_raw hc hback] at hs
      split at hs
      · cases hs
      · obtain ⟨t', ht', rfl⟩ := prepend_eq_some hs
        exact (ih ht').more (by simpa using Ne.symm hquote)
  | short he hx ih =>
    rw [List.cons_append, List.cons_append, scanString_unescape he] at hs
    obtain ⟨t', ht', rfl⟩ := prepend_eq_some hs
    exact (ih ht').more (by simpa using Ne.symm (unescape_ne he))
  | @control a b c d u x hu hlt hx ih =>
    have hhigh : isHigh u = false := by
      simp [isHigh]
      omega
    have hbyte : (0x27 : UInt8) ∉ encode u := by
      have hall : ∀ n < 32, (0x27 : UInt8) ∉ encode n := by decide
      exact hall u hlt
    simp only [List.cons_append] at hs
    rw [scanString_hex4 hu hhigh] at hs
    obtain ⟨t', ht', rfl⟩ := prepend_eq_some hs
    exact (ih ht').more hbyte

/-- Neither quotes nor backslashes. -/
def Plain (p : Bytes) : Prop := ∀ c ∈ p, c ≠ 0x22 ∧ c ≠ 0x5c

theorem Plain.append {p q : Bytes} (hp : Plain p) (hq : Plain q) : Plain (p ++ q) := by
  intro c hc
  rcases List.mem_append.1 hc with hc | hc
  · exact hp c hc
  · exact hq c hc

theorem plain_takeWhile {f : UInt8 → Bool} (hf : ∀ c, f c = true → c ≠ 0x22 ∧ c ≠ 0x5c) (s : Bytes) :
    Plain (s.takeWhile f) := fun c hc => hf c (List.mem_takeWhile_imp hc)

theorem isdigit_plain (c : UInt8) (h : isdigit c = true) : c ≠ 0x22 ∧ c ≠ 0x5c := by
  constructor
  · rintro rfl
    cases h
  · rintro rfl
    cases h

theorem isBlank_plain (c : UInt8) (h : isBlank c = true) : c ≠ 0x22 ∧ c ≠ 0x5c := by
  constructor
  · rintro rfl
    cases h
  · rintro rfl
    cases h

/-- A token at the start of a text, without quotes or backslashes. -/
def Token (p s : Bytes) : Prop := Plain p ∧ p <+: s

theorem Token.append {p q s : Bytes} (hp : Token p s) (hq : Token q (s.drop p.length)) : Token (p ++ q) s := by
  obtain ⟨hplain, t, rfl⟩ := hp
  rw [List.drop_left] at hq
  exact ⟨hplain.append hq.1, (List.prefix_append_right_inj p).2 hq.2⟩

theorem token_nil (s : Bytes) : Token [] s := ⟨nofun, List.nil_prefix⟩

theorem token_digits (s : Bytes) : Token (s.takeWhile isdigit) s :=
  ⟨plain_takeWhile isdigit_plain s, List.takeWhile_prefix _⟩

theorem token_byte {c : UInt8} (hc : c ≠ 0x22 ∧ c ≠ 0x5c) (s : Bytes) : Token [c] (c :: s) :=
  ⟨fun d hd => by rwa [List.mem_singleton.1 hd], ⟨s, rfl⟩⟩

theorem token_minus (s : Bytes) : Token (minus s) s := by
  unfold minus
  split
  · exact token_byte (by decide) _
  · exact token_nil s

theorem token_integerDigits (s : Bytes) : Token (integerDigits s) s := by
  unfold integerDigits
  split
  · rename_i h
    cases s with
    | nil => cases h
    | cons c s =>
      obtain rfl := Option.some.inj h
      exact token_byte (by decide) s
  · exact token_digits s

theorem token_fraction (s : Bytes) : Token (fraction s) s := by
  unfold fraction
  split
  · split
    · exact token_nil _
    · exact (token_byte (by decide) _).append (token_digits _)
  · exact token_nil s

theorem token_expSign (s : Bytes) : Token (expSign s) s := by
  unfold expSign
  split
  · exact token_byte (by decide) _
  · exact token_byte (by decide) _
  · exact token_nil s

theorem token_exponent (s : Bytes) : Token (exponent s) s := by
  unfold exponent
  split
  · rename_i c s
    split
    · rename_i hc
      dsimp only
      split
      · exact token_nil _
      · have hplain : c ≠ 0x22 ∧ c ≠ 0x5c := by
          rcases hc with rfl | rfl
          · decide
          · decide
        exact (token_byte hplain s).append ((token_expSign s).append (token_digits _))
    · exact token_nil _
  · exact token_nil _

/-- A word or a number is a token, and neither a string nor an object. -/
theorem scanPlain_token {s rest : Bytes} {v : Value} (h : scanPlain s = some (v, rest)) :
    (∃ p, Plain p ∧ s = p ++ rest) ∧ (∀ t, v ≠ .str t) ∧ ∀ m, v ≠ .obj m := by
  have hrest : ∀ {p : Bytes}, Token p s → rest = s.drop p.length → ∃ p, Plain p ∧ s = p ++ rest := by
    rintro p ⟨hp, t, rfl⟩ rfl
    exact ⟨p, hp, by rw [List.drop_left]⟩
  unfold scanPlain at h
  split at h
  · rename_i w hw
    obtain ⟨rfl, rfl⟩ := Prod.mk.inj (Option.some.inj h)
    have hmem := List.mem_of_find?_eq_some hw
    have hpre : w.1 <+: s := by
      have hfound := List.find?_some hw
      exact List.isPrefixOf_iff_prefix.1 hfound
    have hplain : ∀ p ∈ words.map Prod.fst, ∀ c ∈ p, c ≠ 0x22 ∧ c ≠ 0x5c := by decide +kernel
    refine ⟨hrest ⟨hplain _ (List.mem_map_of_mem hmem), hpre⟩ rfl, ?_⟩
    simp only [words, List.mem_cons, List.not_mem_nil, or_false] at hmem
    rcases hmem with rfl | rfl | rfl | rfl | rfl | rfl <;> exact ⟨nofun, nofun⟩
  · unfold scanNumber at h
    dsimp only at h
    have hint := (token_minus s).append (token_integerDigits _)
    split at h
    · cases h
    · split at h
      · obtain ⟨rfl, rfl⟩ := Prod.mk.inj (Option.some.inj h)
        exact ⟨hrest hint rfl, nofun, nofun⟩
      · obtain ⟨rfl, rfl⟩ := Prod.mk.inj (Option.some.inj h)
        have hfrac := (token_fraction _).append (token_exponent ((s.drop (minus s ++
          integerDigits (s.drop (minus s).length)).length).drop (fraction (s.drop (minus s ++
          integerDigits (s.drop (minus s).length)).length)).length))
        refine ⟨hrest (hint.append hfrac) ?_, nofun, nofun⟩
        rw [List.drop_drop, ← List.length_append]

/-! ## No apostrophe comes out -/

theorem Aligned.skipBlanks {s : Bytes} (h : Aligned s) : Aligned (skipBlanks s) := by
  have hsplit : s.takeWhile isBlank ++ JsonText.skipBlanks s = s := List.takeWhile_append_dropWhile
  rw [← hsplit] at h
  exact h.drop fun c hc => (plain_takeWhile isBlank_plain s c hc).2

/-- What stands behind a byte that is left after blanks. -/
theorem Aligned.behind {s u : Bytes} {c : UInt8} (h : Aligned s) (hs : JsonText.skipBlanks s = c :: u)
    (hc : c ≠ 0x5c) : Aligned u := by
  have hskip := h.skipBlanks
  rw [hs] at hskip
  exact hskip.tail hc

/-- A member without an apostrophe in its key, or in its value where that is a string. -/
def CleanMember (e : Bytes × Value) : Prop := 0x27 ∉ e.1 ∧ ∀ t, e.2 = .str t → 0x27 ∉ t

theorem scanString_clean {s t rest : Bytes} (h : Aligned s) (hs : scanString none s = some (t, rest)) :
    Aligned rest ∧ 0x27 ∉ t := by
  rcases scanString_aligned h (y := []) (by rwa [List.append_nil]) with ⟨x, hx, rfl, ht⟩ | ⟨u, t', -, -, hno⟩
  · exact ⟨by rwa [List.append_nil], ht⟩
  · cases hno

/-- An aligned text is read into aligned rests, and into strings and keys
without apostrophes. -/
theorem scan_clean (fuel : Nat) :
    (∀ s v rest, Aligned s → scanValue fuel s = some (v, rest) → Aligned rest ∧ ∀ t, v = .str t → 0x27 ∉ t) ∧
    (∀ s m rest, Aligned s → scanMembers fuel s = some (m, rest) → Aligned rest ∧ ∀ e ∈ m, CleanMember e) ∧
    ∀ s l rest, Aligned s → scanItems fuel s = some (l, rest) → Aligned rest := by
  induction fuel with
  | zero =>
    refine ⟨?_, ?_, ?_⟩
    · intro s v rest _ h
      simp [scanValue] at h
    · intro s m rest _ h
      simp [scanMembers] at h
    · intro s l rest _ h
      simp [scanItems] at h
  | succ fuel ih =>
    obtain ⟨ihValue, ihMembers, ihItems⟩ := ih
    refine ⟨?_, ?_, ?_⟩
    · intro s v rest hs h
      rcases scanValue_cases h with ⟨t, u, rfl, ht, rfl⟩ | ⟨u, rfl, hobj⟩ | ⟨u, rfl, harr⟩ | ⟨-, hplain⟩
      · obtain ⟨hrest, hclean⟩ := scanString_clean (hs.tail (by decide)) ht
        refine ⟨hrest, ?_⟩
        rintro _ ⟨⟩
        exact hclean
      · have hu := hs.tail (by decide)
        rcases hobj with ⟨hclose, rfl⟩ | ⟨m, hm, rfl⟩
        · exact ⟨hu.behind hclose (by decide), fun t ht => by cases ht⟩
        · exact ⟨(ihMembers _ m rest hu.skipBlanks hm).1, fun t ht => by cases ht⟩
      · have hu := hs.tail (by decide)
        rcases harr with ⟨hclose, rfl⟩ | ⟨l, hl, rfl⟩
        · exact ⟨hu.behind hclose (by decide), fun t ht => by cases ht⟩
        · exact ⟨ihItems _ l rest hu.skipBlanks hl, fun t ht => by cases ht⟩
      · obtain ⟨⟨p, hp, rfl⟩, hstr, -⟩ := scanPlain_token hplain
        exact ⟨hs.drop fun c hc => (hp c hc).2, fun t ht => absurd ht (hstr t)⟩
    · intro s m rest hs h
      obtain ⟨s₁, k, s₂, s₃, v, s₄, rfl, hk, hcolon, hv, hrest⟩ := scanMembers_cases h
      obtain ⟨hs₂, hkey⟩ := scanString_clean (hs.tail (by decide)) hk
      obtain ⟨hs₄, hval⟩ := ihValue _ v s₄ (hs₂.behind hcolon (by decide)).skipBlanks hv
      rcases hrest with ⟨hclose, rfl⟩ | ⟨s₅, m', hcomma, hm', rfl⟩
      · refine ⟨hs₄.behind hclose (by decide), ?_⟩
        rintro e he
        obtain rfl := List.mem_singleton.1 he
        exact ⟨hkey, hval⟩
      · obtain ⟨hrest, hclean⟩ := ihMembers _ m' rest (hs₄.behind hcomma (by decide)).skipBlanks hm'
        refine ⟨hrest, ?_⟩
        rintro e he
        rcases List.mem_cons.1 he with rfl | he
        · exact ⟨hkey, hval⟩
        · exact hclean e he
    · intro s l rest hs h
      obtain ⟨v, s₁, hv, hrest⟩ := scanItems_cases h
      obtain ⟨hs₁, -⟩ := ihValue _ v s₁ hs hv
      rcases hrest with ⟨hclose, -⟩ | ⟨s₂, l', hcomma, hl', -⟩
      · exact hs₁.behind hclose (by decide)
      · exact ihItems _ l' rest (hs₁.behind hcomma (by decide)).skipBlanks hl'

theorem mem_setKey {m : List (Bytes × Value)} {e x : Bytes × Value} (h : x ∈ setKey m e) : x ∈ m ∨ x = e := by
  unfold setKey at h
  split at h
  · obtain ⟨y, hy, hx⟩ := List.mem_map.1 h
    split at hx
    · exact .inr hx.symm
    · exact .inl (hx ▸ hy)
  · rcases List.mem_append.1 h with h | h
    · exact .inl h
    · exact .inr (List.mem_singleton.1 h)

theorem mem_dict {m : List (Bytes × Value)} {x : Bytes × Value} (h : x ∈ dict m) : x ∈ m := by
  have hfold : ∀ (m acc : List (Bytes × Value)), x ∈ m.foldl setKey acc → x ∈ acc ∨ x ∈ m := by
    intro m
    induction m with
    | nil => exact fun acc h => .inl h
    | cons e m ih =>
      intro acc h
      rcases ih _ h with h | h
      · rcases mem_setKey h with h | rfl
        · exact .inl h
        · exact .inr List.mem_cons_self
      · exact .inr (List.mem_cons_of_mem _ h)
  exact (hfold m [] h).resolve_left List.not_mem_nil

/-- The object that an aligned text spells is clean. -/
theorem loads_clean {s : Bytes} {m : List (Bytes × Value)} (hs : Aligned s) (h : loads s = some (.obj m)) :
    ∀ e ∈ m, CleanMember e := by
  unfold loads at h
  split at h
  · rename_i v rest hscan
    split at h
    · obtain rfl := Option.some.inj h
      rcases scanValue_cases hscan with ⟨_, _, _, _, hv⟩ | ⟨u, hu, ⟨-, hv⟩ | ⟨m', hm', hv⟩⟩ |
        ⟨_, _, ⟨_, hv⟩ | ⟨_, _, hv⟩⟩ | ⟨-, hplain⟩
      · cases hv
      · obtain rfl : m = [] := by
          injection hv
        exact nofun
      · obtain rfl : m = dict m' := by
          injection hv
        have halign := hs.skipBlanks
        rw [hu] at halign
        intro e he
        exact ((scan_clean _).2.1 _ m' rest (halign.tail (by decide)).skipBlanks hm').2 e (mem_dict he)
      · cases hv
      · cases hv
      · exact absurd rfl ((scanPlain_token hplain).2.2 m)
    · cases h
  · cases h

/-- No key and no string value of an object holds an apostrophe. -/
def Object.NoApostrophe (m : Object) : Prop := ∀ e ∈ m, 0x27 ∉ e.1 ∧ ∀ t, e.2 = .str t → 0x27 ∉ t

theorem exchange_eq {s : Bytes} (h : 0x27 ∉ s) : exchange s = s := by
  have hid : ∀ c ∈ s, (if c = 0x27 then 0x22 else c) = c := by
    intro c hc
    rw [if_neg]
    rintro rfl
    exact h hc
  rw [exchange, List.map_congr_left hid, List.map_id']

theorem printTail_noApostrophe {s : Bytes} (h : 0x27 ∉ s) : 0x27 ∉ printTail s := by
  have hescape : ∀ c, c ≠ 0x27 → 0x27 ∉ escape c := by
    intro c hc
    unfold escape
    repeat' split
    all_goals try decide
    · rename_i hlt
      obtain ⟨hhigh, hlow⟩ := hexDigit_control hlt
      simp [hhigh.symm, hlow.symm]
    · simpa using hc.symm
  intro hmem
  rcases List.mem_append.1 hmem with hmem | hmem
  · obtain ⟨c, hc, hin⟩ := List.mem_flatMap.1 hmem
    refine hescape c ?_ hin
    rintro rfl
    exact h hc
  · exact absurd hmem (by decide)

theorem print_noApostrophe {m : Object} (h : m.NoApostrophe) : 0x27 ∉ print m := by
  have hstring : ∀ {s : Bytes}, 0x27 ∉ s → 0x27 ∉ printString s := by
    intro s hs hmem
    rcases List.mem_cons.1 hmem with hmem | hmem
    · cases hmem
    · exact printTail_noApostrophe hs hmem
  refine print_ind (P := fun s => 0x27 ∉ s) ?_ ?_ ?_
  · intro s t hs ht
    simp [hs, ht]
  · decide +kernel
  · intro e he
    obtain ⟨hkey, hval⟩ := h e he
    refine ⟨hstring hkey, ?_⟩
    cases hv : e.2 with
    | bool b => cases b <;> decide
    | int i => exact fun hmem => (decimalInt_plain i _ hmem).2 rfl
    | str s => exact hstring (hval s hv)

/-- An object whose members all come back holds no apostrophe. -/
theorem noApostrophe_of_loads {m : Object} {d : List (Bytes × Value)} (h : loads (exchange (print m)) = some (.obj d))
    (hsub : ∀ e ∈ m.value, e ∈ d) : m.NoApostrophe := by
  intro e he
  have hmem : (e.1, e.2.value) ∈ m.value := List.mem_map_of_mem (f := fun e => (e.1, Scalar.value e.2)) he
  obtain ⟨hkey, hval⟩ := loads_clean (aligned_print m) h _ (hsub _ hmem)
  refine ⟨hkey, ?_⟩
  intro t ht
  exact hval t (by rw [ht]; rfl)

/-- The object comes back through the exchange of quotes exactly when it holds
no apostrophe. -/
theorem loads_exchange_iff {m : Object} (h : (m.map Prod.fst).Nodup) :
    loads (exchange (print m)) = some (.obj m.value) ↔ m.NoApostrophe := by
  constructor
  · exact fun hload => noApostrophe_of_loads hload fun _ he => he
  · intro hno
    rw [exchange_eq (print_noApostrophe hno), loads_print h]

end SysLib.JsonText
