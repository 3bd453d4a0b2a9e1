import FlameSdd.SysLib.JsonText
/-!
# What the decoder reads

What each scanner can have done when it succeeds, and the round trip: of what the
serialiser writes, the decoder reads the members back.
-/

namespace SysLib.JsonText

/-! ## What the scanners can do -/

/-- A value: a string, an object, an array, or a word or number. -/
theorem scanValue_cases {fuel : Nat} {s rest : Bytes} {v : Value} (h : scanValue (fuel + 1) s = some (v, rest)) :
    (∃ t u, s = 0x22 :: u ∧ scanString none u = some (t, rest) ∧ v = .str t) ∨
    (∃ u, s = 0x7b :: u ∧ ((skipBlanks u = 0x7d :: rest ∧ v = .obj []) ∨
      ∃ m, scanMembers fuel (skipBlanks u) = some (m, rest) ∧ v = .obj (dict m))) ∨
    (∃ u, s = 0x5b :: u ∧ ((skipBlanks u = 0x5d :: rest ∧ v = .arr []) ∨
      ∃ l, scanItems fuel (skipBlanks u) = some (l, rest) ∧ v = .arr l)) ∨
    (s.head? ≠ some 0x7b ∧ scanPlain s = some (v, rest)) := by
  rw [scanValue.eq_def] at h
  dsimp only at h
  split at h
  · cases h
  · rename_i c u
    split at h
    · rename_i hc
      obtain ⟨⟨t, r⟩, ht, heq⟩ := Option.map_eq_some_iff.1 h
      obtain ⟨rfl, rfl⟩ := Prod.mk.inj heq
      exact .inl ⟨t, u, by rw [hc], ht, rfl⟩
    · split at h
      · rename_i hc
        refine .inr (.inl ⟨u, by rw [hc], ?_⟩)
        split at h
        · rename_i hclose
          obtain ⟨rfl, rfl⟩ := Prod.mk.inj (Option.some.inj h)
          exact .inl ⟨hclose, rfl⟩
        · obtain ⟨⟨m, r⟩, hm, heq⟩ := Option.map_eq_some_iff.1 h
          obtain ⟨rfl, rfl⟩ := Prod.mk.inj heq
          exact .inr ⟨m, hm, rfl⟩
      · rename_i hbrace
        split at h
        · rename_i hc
          refine .inr (.inr (.inl ⟨u, by rw [hc], ?_⟩))
          split at h
          · rename_i hclose
            obtain ⟨rfl, rfl⟩ := Prod.mk.inj (Option.some.inj h)
            exact .inl ⟨hclose, rfl⟩
          · obtain ⟨⟨l, r⟩, hl, heq⟩ := Option.map_eq_some_iff.1 h
            obtain ⟨rfl, rfl⟩ := Prod.mk.inj heq
            exact .inr ⟨l, hl, rfl⟩
        · exact .inr (.inr (.inr ⟨by simpa using hbrace, h⟩))

/-- The members of an object: a key, a colon, a value, and the end or more members. -/
theorem scanMembers_cases {fuel : Nat} {s rest : Bytes} {m : List (Bytes × Value)}
    (h : scanMembers (fuel + 1) s = some (m, rest)) :
    ∃ s₁ k s₂ s₃ v s₄, s = 0x22 :: s₁ ∧ scanString none s₁ = some (k, s₂) ∧ skipBlanks s₂ = 0x3a :: s₃ ∧
      scanValue fuel (skipBlanks s₃) = some (v, s₄) ∧
      ((skipBlanks s₄ = 0x7d :: rest ∧ m = [(k, v)]) ∨
        ∃ s₅ m', skipBlanks s₄ = 0x2c :: s₅ ∧ scanMembers fuel (skipBlanks s₅) = some (m', rest) ∧
          m = (k, v) :: m') := by
  rw [scanMembers.eq_def] at h
  dsimp only at h
  split at h
  · rename_i s₁
    split at h
    · cases h
    · rename_i k s₂ hk
      split at h
      · rename_i s₃ hcolon
        split at h
        · cases h
        · rename_i v s₄ hv
          refine ⟨s₁, k, s₂, s₃, v, s₄, rfl, hk, hcolon, hv, ?_⟩
          split at h
          · rename_i hclose
            obtain ⟨rfl, rfl⟩ := Prod.mk.inj (Option.some.inj h)
            exact .inl ⟨hclose, rfl⟩
          · rename_i s₅ hcomma
            obtain ⟨⟨m', r⟩, hm, heq⟩ := Option.map_eq_some_iff.1 h
            obtain ⟨rfl, rfl⟩ := Prod.mk.inj heq
            exact .inr ⟨s₅, m', hcomma, hm, rfl⟩
          · cases h
      · cases h
  · cases h

/-- The items of an array: a value, and the end or more items. -/
theorem scanItems_cases {fuel : Nat} {s rest : Bytes} {l : List Value}
    (h : scanItems (fuel + 1) s = some (l, rest)) :
    ∃ v s₁, scanValue fuel s = some (v, s₁) ∧
      ((skipBlanks s₁ = 0x5d :: rest ∧ l = [v]) ∨
        ∃ s₂ l', skipBlanks s₁ = 0x2c :: s₂ ∧ scanItems fuel (skipBlanks s₂) = some (l', rest) ∧ l = v :: l') := by
  rw [scanItems.eq_def] at h
  dsimp only at h
  split at h
  · cases h
  · rename_i v s₁ hv
    refine ⟨v, s₁, hv, ?_⟩
    split at h
    · rename_i hclose
      obtain ⟨rfl, rfl⟩ := Prod.mk.inj (Option.some.inj h)
      exact .inl ⟨hclose, rfl⟩
    · rename_i s₂ hcomma
      obtain ⟨⟨l', r⟩, hl, heq⟩ := Option.map_eq_some_iff.1 h
      obtain ⟨rfl, rfl⟩ := Prod.mk.inj heq
      exact .inr ⟨s₂, l', hcomma, hl, rfl⟩
    · cases h

/-- A text that starts with a brace spells an object. -/
theorem loads_brace {u : Bytes} {v : Value} (h : loads (0x7b :: u) = some v) :
    ∃ rest, skipBlanks rest = [] ∧ ((skipBlanks u = 0x7d :: rest ∧ v = .obj []) ∨
      ∃ fuel m, scanMembers fuel (skipBlanks u) = some (m, rest) ∧ v = .obj (dict m)) := by
  have hbrace : skipBlanks (0x7b :: u) = 0x7b :: u := rfl
  rw [loads, hbrace] at h
  split at h
  · rename_i w rest hscan
    split at h
    · rename_i hend
      obtain rfl := Option.some.inj h
      refine ⟨rest, hend, ?_⟩
      rcases scanValue_cases hscan with ⟨_, _, hu, -⟩ | ⟨_, hu, hobj⟩ | ⟨_, hu, -⟩ | ⟨hhead, -⟩
      · cases hu
      · obtain rfl := (List.cons.inj hu).2
        exact hobj.imp_right fun ⟨m, hm⟩ => ⟨_, m, hm⟩
      · cases hu
      · exact absurd rfl hhead
    · cases h
  · cases h

/-! ## What was written is read back -/

theorem hex4_control {c : UInt8} (h : c < 0x20) :
    hex4 0x30 0x30 (hexDigit (c / 16)) (hexDigit (c % 16)) = some c.toNat ∧ encode c.toNat = [c] ∧
      isHigh c.toNat = false := by
  have hlt : c.toNat < 32 := UInt8.lt_iff_toNat_lt.1 h
  have hall : ∀ n < 32, hex4 0x30 0x30 (hexDigit (UInt8.ofNat n / 16)) (hexDigit (UInt8.ofNat n % 16)) = some n ∧
      encode n = [UInt8.ofNat n] ∧ isHigh n = false := by decide
  simpa using hall c.toNat hlt

theorem scanString_quote (rest : Bytes) : scanString none (0x22 :: rest) = some ([], rest) := by
  rw [scanString.eq_def]
  simp

theorem scanString_raw {c : UInt8} (hquote : c ≠ 0x22) (hback : c ≠ 0x5c) (rest : Bytes) :
    scanString none (c :: rest) = if c < 0x20 then none else prepend [c] (scanString none rest) := by
  rw [scanString.eq_def]
  simp [hquote, hback]

theorem scanString_unescape {e b : UInt8} (h : unescape e = some b) (rest : Bytes) :
    scanString none (0x5c :: e :: rest) = prepend [b] (scanString none rest) := by
  have he : e ≠ 0x75 := by
    rintro rfl
    cases h
  rw [scanString.eq_def]
  simp [he, h]

theorem scanString_hex4 {a b c d : UInt8} {u : Nat} (h : hex4 a b c d = some u) (hu : isHigh u = false)
    (rest : Bytes) :
    scanString none (0x5c :: 0x75 :: a :: b :: c :: d :: rest) = prepend (encode u) (scanString none rest) := by
  rw [scanString.eq_def]
  simp [h, hu]

theorem scanString_escape (c : UInt8) (rest : Bytes) :
    scanString none (escape c ++ rest) = prepend [c] (scanString none rest) := by
  have short : ∀ e b, unescape e = some b → c = b →
      scanString none ([0x5c, e] ++ rest) = prepend [c] (scanString none rest) := by
    rintro e b h rfl
    exact scanString_unescape h rest
  unfold escape
  repeat' split
  · exact short 0x62 0x08 rfl ‹_›
  · exact short 0x74 0x09 rfl ‹_›
  · exact short 0x6e 0x0a rfl ‹_›
  · exact short 0x66 0x0c rfl ‹_›
  · exact short 0x72 0x0d rfl ‹_›
  · exact short 0x22 0x22 rfl ‹_›
  · exact short 0x5c 0x5c rfl ‹_›
  · rename_i h
    obtain ⟨hhex, hbyte, hhigh⟩ := hex4_control h
    rw [← hbyte]
    exact scanString_hex4 hhex hhigh rest
  · rename_i hquote hback hctrl
    rw [List.singleton_append, scanString_raw hquote hback, if_neg hctrl]

theorem scanString_printTail (s rest : Bytes) : scanString none (printTail s ++ rest) = some (s, rest) := by
  induction s with
  | nil => exact scanString_quote rest
  | cons c s ih =>
    rw [printTail, List.append_assoc] at ih
    rw [printTail, List.flatMap_cons, List.append_assoc, List.append_assoc, scanString_escape, ih]
    rfl

/-- No number goes on in the text. -/
def Stops (s : Bytes) : Prop := ∀ c ∈ s.head?, isdigit c = false ∧ c ≠ 0x2e ∧ c ≠ 0x65 ∧ c ≠ 0x45

theorem takeWhile_decimal (n : Nat) {rest : Bytes} (h : Stops rest) :
    (decimal n ++ rest).takeWhile isdigit = decimal n := by
  rw [List.takeWhile_append_of_pos (decimal_isdigit n)]
  cases rest with
  | nil => simp
  | cons c rest => simp [(h c rfl).1]

theorem integerDigits_decimal (n : Nat) {rest : Bytes} (h : Stops rest) :
    integerDigits (decimal n ++ rest) = decimal n := by
  unfold integerDigits
  by_cases hn : n = 0
  · subst hn
    rfl
  · rw [List.head?_append_of_ne_nil _ (decimal_ne_nil n), if_neg (decimal_head? hn), takeWhile_decimal n h]

theorem fraction_stops {rest : Bytes} (h : Stops rest) : fraction rest = [] := by
  unfold fraction
  split
  · exact absurd rfl (h _ rfl).2.1
  · rfl

theorem exponent_stops {rest : Bytes} (h : Stops rest) : exponent rest = [] := by
  cases rest with
  | nil => rfl
  | cons c rest =>
    obtain ⟨-, -, h1, h2⟩ := h c rfl
    simp [exponent, h1, h2]

theorem minus_decimal (n : Nat) (rest : Bytes) : minus (decimal n ++ rest) = [] := by
  cases hd : decimal n with
  | nil => exact absurd hd (decimal_ne_nil n)
  | cons c t =>
    have hc := decimal_isdigit n c (by rw [hd]; exact List.mem_cons_self)
    rw [List.cons_append]
    unfold minus
    split
    · rename_i heq
      rw [(List.cons.inj heq).1] at hc
      cases hc
    · rfl

theorem scanNumber_decimalInt (i : Int) {rest : Bytes} (h : Stops rest) :
    scanNumber (decimalInt i ++ rest) = some (.int i, rest) := by
  cases i with
  | ofNat n =>
    simp only [decimalInt, scanNumber, minus_decimal, List.length_nil, List.drop_zero, integerDigits_decimal n h,
      List.nil_append, List.drop_left, fraction_stops h, exponent_stops h, decimal_ne_nil, if_false, if_true,
      digitsVal_decimal, List.append_nil]
    rfl
  | negSucc n =>
    have hminus : minus (decimalInt (.negSucc n) ++ rest) = [0x2d] := rfl
    have hdrop : (decimalInt (.negSucc n) ++ rest).drop 1 = decimal (n + 1) ++ rest := rfl
    have hall : (decimalInt (.negSucc n) ++ rest).drop ([0x2d] ++ decimal (n + 1)).length = rest :=
      List.drop_left
    simp only [scanNumber, hminus, List.length_singleton, hdrop, integerDigits_decimal _ h, hall, fraction_stops h,
      exponent_stops h, decimal_ne_nil, if_false, if_true, digitsVal_decimal, List.append_nil, List.length_nil,
      List.drop_zero, reduceCtorEq]
    rfl

/-- No word is a digit or a minus sign and a digit. -/
theorem scanPlain_number {sign : Bytes} (hsign : sign = [] ∨ sign = [0x2d]) {c : UInt8} (hc : isdigit c = true)
    (rest : Bytes) : scanPlain (sign ++ c :: rest) = scanNumber (sign ++ c :: rest) := by
  have hwords : ∀ w ∈ words.map Prod.fst, ∀ a ∈ w.head?, isdigit a = false ∧
      (a = 0x2d → ∀ b ∈ w.tail.head?, isdigit b = false) := by decide +kernel
  have hlen : ∀ w ∈ words.map Prod.fst, 2 ≤ w.length := by decide
  have hnone : words.find? (fun w => w.1.isPrefixOf (sign ++ c :: rest)) = none := by
    rw [List.find?_eq_none]
    intro w hw hpre
    have hmem : w.1 ∈ words.map Prod.fst := List.mem_map_of_mem hw
    obtain ⟨t, ht⟩ := List.isPrefixOf_iff_prefix.1 hpre
    have hlong := hlen _ hmem
    obtain ⟨a, b, u, hu⟩ : ∃ a b u, w.1 = a :: b :: u := by
      match hw1 : w.1, hlong with
      | a :: b :: u, _ => exact ⟨a, b, u, rfl⟩
    obtain ⟨ha, hb⟩ := hwords _ hmem a (by rw [hu]; rfl)
    rw [hu] at ht
    rcases hsign with rfl | rfl
    · obtain ⟨rfl, -⟩ := List.cons.inj ht
      rw [ha] at hc
      exact Bool.noConfusion hc
    · obtain ⟨rfl, htail⟩ := List.cons.inj ht
      obtain ⟨rfl, -⟩ := List.cons.inj (show b :: (u ++ t) = c :: rest from htail)
      rw [hb rfl b (by rw [hu]; rfl)] at hc
      exact Bool.noConfusion hc
  rw [scanPlain, hnone]

/-- How a printed number starts. -/
theorem decimalInt_cons (i : Int) :
    ∃ sign c t, decimalInt i = sign ++ c :: t ∧ (sign = [] ∨ sign = [0x2d]) ∧ isdigit c = true := by
  have hdecimal : ∀ n, ∃ c t, decimal n = c :: t ∧ isdigit c = true := by
    intro n
    cases hd : decimal n with
    | nil => exact absurd hd (decimal_ne_nil n)
    | cons c t => exact ⟨c, t, rfl, decimal_isdigit n c (by rw [hd]; exact List.mem_cons_self)⟩
  cases i with
  | ofNat n =>
    obtain ⟨c, t, hd, hc⟩ := hdecimal n
    exact ⟨[], c, t, hd, .inl rfl, hc⟩
  | negSucc n =>
    obtain ⟨c, t, hd, hc⟩ := hdecimal (n + 1)
    exact ⟨[0x2d], c, t, by rw [decimalInt, hd]; rfl, .inr rfl, hc⟩

theorem scanValue_printScalar (fuel : Nat) (v : Scalar) {rest : Bytes} (h : Stops rest) :
    scanValue (fuel + 1) (printScalar v ++ rest) = some (v.value, rest) := by
  cases v with
  | bool b => cases b <;> rfl
  | str s =>
    simp only [printScalar, printString, List.cons_append]
    rw [scanValue.eq_def]
    simp [scanString_printTail, Scalar.value]
  | int i =>
    have hnum := scanNumber_decimalInt i h
    obtain ⟨sign, c, t, hi, hsign, hc⟩ := decimalInt_cons i
    rw [hi, List.append_assoc, List.cons_append, ← scanPlain_number hsign hc] at hnum
    rw [printScalar, hi, List.append_assoc, List.cons_append, Scalar.value, ← hnum]
    have hne : ∀ d, isdigit d = false → c ≠ d := by
      rintro d hd rfl
      rw [hc] at hd
      exact Bool.noConfusion hd
    rcases hsign with rfl | rfl
    · rw [List.nil_append, scanValue.eq_def]
      simp [hne 0x22 rfl, hne 0x7b rfl, hne 0x5b rfl]
    · rw [List.singleton_append, scanValue.eq_def]
      simp

theorem skipBlanks_cons {c : UInt8} (h : isBlank c = false) (s : Bytes) : skipBlanks (c :: s) = c :: s := by
  rw [skipBlanks, List.dropWhile_cons_of_neg (by simp [h])]

theorem skipBlanks_printScalar (v : Scalar) (rest : Bytes) :
    skipBlanks (printScalar v ++ rest) = printScalar v ++ rest := by
  cases v with
  | bool b => cases b <;> rfl
  | str s => exact skipBlanks_cons rfl _
  | int i =>
    obtain ⟨sign, c, t, hi, hsign, hc⟩ := decimalInt_cons i
    have hblank : isBlank c = false := by
      rw [← Bool.not_eq_true]
      intro hb
      simp only [isBlank, Bool.or_eq_true, beq_iff_eq] at hb
      rcases hb with ((rfl | rfl) | rfl) | rfl <;> cases hc
    rw [printScalar, hi]
    rcases hsign with rfl | rfl
    · exact skipBlanks_cons hblank _
    · exact skipBlanks_cons rfl _

theorem stops_printRest (m : Object) (rest : Bytes) : Stops (printRest m ++ rest) := by
  intro c hc
  cases m with
  | nil =>
    obtain rfl : 0x7d = c := Option.some.inj hc
    decide
  | cons e m =>
    obtain rfl : 0x2c = c := Option.some.inj hc
    decide

theorem scanMembers_print (m : Object) (e : Bytes × Scalar) (fuel : Nat) (h : m.length + 1 < fuel) (rest : Bytes) :
    scanMembers fuel (printMember e ++ (printRest m ++ rest)) = some (Object.value (e :: m), rest) := by
  induction m generalizing e fuel with
  | nil =>
    obtain ⟨fuel, rfl⟩ : ∃ f, fuel = f + 2 := ⟨fuel - 2, by simp at h; omega⟩
    rw [scanMembers.eq_def]
    simp only [printMember, printString, List.cons_append, List.append_assoc, scanString_printTail]
    rw [skipBlanks_cons rfl]
    simp only [skipBlanks_printScalar, scanValue_printScalar fuel e.2 (stops_printRest [] rest)]
    rfl
  | cons e' m ih =>
    rw [List.length_cons] at h
    obtain ⟨fuel, rfl⟩ : ∃ f, fuel = f + 2 := ⟨fuel - 2, by omega⟩
    have htail := ih e' (fuel + 1) (by omega)
    rw [scanMembers.eq_def]
    simp only [printMember, printString, List.cons_append, List.append_assoc, scanString_printTail]
    rw [skipBlanks_cons rfl]
    simp only [skipBlanks_printScalar, scanValue_printScalar fuel e.2 (stops_printRest (e' :: m) rest)]
    have hrest : printRest (e' :: m) ++ rest = 0x2c :: (printMember e' ++ (printRest m ++ rest)) := by
      simp [printRest]
    rw [hrest, skipBlanks_cons rfl]
    have hmember : skipBlanks (printMember e' ++ (printRest m ++ rest)) = printMember e' ++ (printRest m ++ rest) :=
      skipBlanks_cons rfl _
    simp only [hmember, htail]
    rfl

theorem foldl_setKey (acc : List (Bytes × Value)) {m : List (Bytes × Value)} (h : ((acc ++ m).map Prod.fst).Nodup) :
    m.foldl setKey acc = acc ++ m := by
  induction m generalizing acc with
  | nil => simp
  | cons e m ih =>
    have hnew : acc.any (fun x => x.1 = e.1) = false := by
      rw [← Bool.not_eq_true, List.any_eq_true]
      rintro ⟨x, hx, heq⟩
      rw [List.map_append, List.nodup_append] at h
      exact h.2.2 x.1 (List.mem_map_of_mem hx) e.1 (by simp) (of_decide_eq_true heq)
    have hset : setKey acc e = acc ++ [e] := by
      rw [setKey, hnew]
      rfl
    rw [List.foldl_cons, hset, ih _ (by simpa using h), List.append_assoc]
    rfl

/-- A dictionary of different keys is the list of its entries. -/
theorem dict_of_nodup {m : List (Bytes × Value)} (h : (m.map Prod.fst).Nodup) : dict m = m := by
  rw [dict, foldl_setKey [] h, List.nil_append]

theorem length_printRest (m : Object) : m.length < (printRest m).length := by
  induction m with
  | nil => simp [printRest]
  | cons e m ih =>
    simp only [printRest, List.length_cons, List.length_append]
    omega

theorem scanValue_object {fuel : Nat} {s rest : Bytes} {m : List (Bytes × Value)}
    (h : scanMembers fuel (skipBlanks s) = some (m, rest)) :
    scanValue (fuel + 1) (0x7b :: s) = some (.obj (dict m), rest) := by
  have hquote : ∀ t, skipBlanks s ≠ 0x7d :: t := by
    intro t ht
    rw [ht] at h
    cases fuel <;> simp [scanMembers] at h
  rw [scanValue.eq_def]
  simp only
  rw [if_neg (by decide), if_true, h]
  rfl

/-- The text of an object reads back as the object. -/
theorem loads_print {m : Object} (h : (m.map Prod.fst).Nodup) : loads (print m) = some (.obj m.value) := by
  cases m with
  | nil => rfl
  | cons e m =>
    have hlen := length_printRest m
    have hscan := scanMembers_print m e (2 * (print (e :: m)).length + 1)
      (by simp only [print, List.length_cons, List.length_append]; omega) []
    have hkeys : dict (Object.value (e :: m)) = Object.value (e :: m) := by
      apply dict_of_nodup
      rwa [Object.value, List.map_map]
    have hobj := scanValue_object (s := printMember e ++ printRest m) (by rwa [List.append_nil] at hscan)
    rw [hkeys] at hobj
    have hprint : skipBlanks (print (e :: m)) = 0x7b :: (printMember e ++ printRest m) := skipBlanks_cons rfl _
    rw [loads, hprint, hobj]
    rfl

end SysLib.JsonText
