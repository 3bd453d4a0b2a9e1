import FlameSdd.SysLib.JsonQuotes
/-!
# Members behind a string that may hold anything

The first string of an object may hold apostrophes that become quotes. Where
its text is still read, the members behind that string are read as they were
written: `loads_exchange_tail`.
-/

namespace SysLib.JsonText

/-! ## Members as they were written -/

theorem skipBlanks_printMember (e : Bytes × Scalar) (s : Bytes) :
    skipBlanks (printMember e ++ s) = printMember e ++ s := skipBlanks_cons rfl _

/-- Members that are read at all are read as they were printed. -/
theorem scanMembers_print_of_some (m : Object) (e : Bytes × Scalar) {fuel : Nat} {l : List (Bytes × Value)}
    {rest : Bytes} (h : scanMembers fuel (printMember e ++ printRest m) = some (l, rest)) :
    l = Object.value (e :: m) ∧ rest = [] := by
  induction m generalizing e fuel l with
  | nil =>
    obtain _ | _ | fuel := fuel
    · simp [scanMembers] at h
    · obtain ⟨s₁, k, s₂, s₃, v, s₄, -, -, -, hv, -⟩ := scanMembers_cases h
      simp [scanValue] at hv
    · have hprint := scanMembers_print [] e (fuel + 2) (by simp) []
      rw [List.append_nil, h] at hprint
      exact Prod.mk.inj (Option.some.inj hprint)
  | cons e' m ih =>
    obtain _ | _ | fuel := fuel
    · simp [scanMembers] at h
    · obtain ⟨s₁, k, s₂, s₃, v, s₄, -, -, -, hv, -⟩ := scanMembers_cases h
      simp [scanValue] at hv
    · obtain ⟨s₁, k, s₂, s₃, v, s₄, hs, hk, hcolon, hv, hrest⟩ := scanMembers_cases h
      have hstart : printMember e ++ printRest (e' :: m) =
          0x22 :: (printTail e.1 ++ 0x3a :: (printScalar e.2 ++ printRest (e' :: m))) := by
        simp [printMember, printString]
      obtain rfl := (List.cons.inj (hstart.symm.trans hs)).2
      rw [scanString_printTail] at hk
      obtain ⟨rfl, rfl⟩ := Prod.mk.inj (Option.some.inj hk)
      rw [skipBlanks_cons rfl] at hcolon
      obtain rfl := (List.cons.inj hcolon).2
      have hstops : Stops (printRest (e' :: m)) := by
        simpa using stops_printRest (e' :: m) []
      rw [skipBlanks_printScalar, scanValue_printScalar fuel e.2 hstops] at hv
      obtain ⟨rfl, rfl⟩ := Prod.mk.inj (Option.some.inj hv)
      have hcomma : printRest (e' :: m) = 0x2c :: (printMember e' ++ printRest m) := rfl
      rw [hcomma, skipBlanks_cons rfl] at hrest
      rcases hrest with ⟨hclose, -⟩ | ⟨s₅, l', hs₅, hl', rfl⟩
      · cases hclose
      · obtain rfl := (List.cons.inj hs₅).2
        rw [skipBlanks_printMember] at hl'
        obtain ⟨rfl, rfl⟩ := ih e' hl'
        exact ⟨rfl, rfl⟩

/-- A member is no item: a colon follows its key. -/
theorem scanItems_printMember (e : Bytes × Scalar) (fuel : Nat) (s : Bytes) :
    scanItems fuel (printMember e ++ s) = none := by
  by_contra hsome
  obtain ⟨⟨l, rest⟩, h⟩ := Option.ne_none_iff_exists'.1 hsome
  obtain _ | _ | fuel := fuel
  · simp [scanItems] at h
  · obtain ⟨v, s₁, hv, -⟩ := scanItems_cases h
    simp [scanValue] at hv
  · obtain ⟨v, s₁, hv, hrest⟩ := scanItems_cases h
    have hstart : printMember e ++ s = 0x22 :: (printTail e.1 ++ 0x3a :: (printScalar e.2 ++ s)) := by
      simp [printMember, printString]
    rw [hstart, scanValue.eq_def] at hv
    simp only [if_true, scanString_printTail, Option.map_some, Option.some.injEq, Prod.mk.injEq] at hv
    obtain ⟨-, rfl⟩ := hv
    rw [skipBlanks_cons rfl] at hrest
    rcases hrest with ⟨hclose, -⟩ | ⟨_, _, hcomma, -⟩
    · cases hclose
    · cases hcomma

/-! ## Where a scanner can stop -/

/-- The text of an object from the quote that ends a string on. -/
def tailText (m : Object) : Bytes := 0x22 :: printRest m

/-- What a scanner that starts in front of `tailText m` can leave: it stops in
front of it, behind its first quote, behind its second one, or at the end. -/
inductive Left (m : Object) : Bytes → Prop
  | before {x : Bytes} (h : Aligned x) : Left m (x ++ tailText m)
  | behind : Left m (printRest m)
  | key {c : UInt8} {s : Bytes} (h : isalpha c = true) : Left m (c :: s)
  | done : Left m []

theorem skipBlanks_tailText (x : Bytes) (m : Object) : skipBlanks (x ++ tailText m) = skipBlanks x ++ tailText m := by
  induction x with
  | nil => exact skipBlanks_cons rfl _
  | cons c x ih =>
    cases hc : isBlank c with
    | true => simpa [skipBlanks, hc] using ih
    | false => rw [List.cons_append, skipBlanks_cons hc, skipBlanks_cons hc, List.cons_append]

/-- Another byte than a quote stands in front of the tail. -/
theorem before_tailText {x s : Bytes} {m : Object} {c : UInt8} (h : x ++ tailText m = c :: s) (hc : c ≠ 0x22) :
    ∃ y, x = c :: y ∧ s = y ++ tailText m := by
  cases x with
  | nil => exact absurd (List.cons.inj h).1.symm hc
  | cons d x =>
    obtain ⟨rfl, rfl⟩ := List.cons.inj h
    exact ⟨x, rfl, rfl⟩

/-- In front of the tail, behind blanks and a mark. -/
theorem aligned_behind {x s : Bytes} {m : Object} {c : UInt8} (hx : Aligned x)
    (h : skipBlanks (x ++ tailText m) = c :: s) (hc : c ≠ 0x22 ∧ c ≠ 0x5c) : ∃ y, Aligned y ∧ s = y ++ tailText m := by
  rw [skipBlanks_tailText] at h
  obtain ⟨y, hy, rfl⟩ := before_tailText h hc.1
  have hskip := hx.skipBlanks
  rw [hy] at hskip
  exact ⟨y, hskip.tail hc.2, rfl⟩

/-- A mark that follows stands in front of the tail, or is the comma in it. -/
theorem Left.mark {m : Object} {rest s : Bytes} {c : UInt8} (h : Left m rest) (hc : c ∈ [0x2c, 0x3a, 0x5d, 0x7d])
    (hs : skipBlanks rest = c :: s) :
    (∃ y, Aligned y ∧ s = y ++ tailText m) ∨ ((c = 0x2c ∨ c = 0x7d) ∧ rest = printRest m ∧ printRest m = c :: s) := by
  have hplain : ∀ c ∈ [0x2c, 0x3a, 0x5d, 0x7d], c ≠ (0x22 : UInt8) ∧ c ≠ 0x5c ∧ isalpha c = false := by decide +kernel
  obtain ⟨hquote, hback, halpha⟩ := hplain c hc
  cases h with
  | before hx => exact .inl (aligned_behind hx hs ⟨hquote, hback⟩)
  | behind =>
    refine .inr ?_
    cases m with
    | nil =>
      obtain ⟨rfl, rfl⟩ := List.cons.inj hs
      exact ⟨.inr rfl, rfl, rfl⟩
    | cons e m =>
      have hcomma : printRest (e :: m) = 0x2c :: (printMember e ++ printRest m) := rfl
      rw [hcomma, skipBlanks_cons rfl] at hs
      obtain ⟨rfl, rfl⟩ := List.cons.inj hs
      exact ⟨.inl rfl, rfl, rfl⟩
  | @key d s' hd =>
    have hblank : isBlank d = false := by
      rw [← Bool.not_eq_true]
      intro hb
      simp only [isBlank, Bool.or_eq_true, beq_iff_eq] at hb
      rcases hb with ((rfl | rfl) | rfl) | rfl <;> cases hd
    rw [skipBlanks_cons hblank] at hs
    obtain ⟨rfl, -⟩ := List.cons.inj hs
    rw [hd] at halpha
    cases halpha
  | done => cases hs

/-- A token in front of the tail does not reach into it. -/
theorem scanPlain_tailText {x rest : Bytes} {m : Object} {v : Value} (hx : Aligned x)
    (h : scanPlain (x ++ tailText m) = some (v, rest)) : Left m rest := by
  obtain ⟨p, hp, heq⟩ := (scanPlain_token h).1
  rcases List.append_eq_append_iff.1 heq with ⟨a, rfl, htail⟩ | ⟨y, rfl, rfl⟩
  · -- the token would hold the quote of the tail
    cases a with
    | nil =>
      obtain rfl : tailText m = rest := htail
      exact .before (x := []) .nil
    | cons d a =>
      obtain rfl : 0x22 = d := (List.cons.inj htail).1
      exact absurd rfl (hp 0x22 (by simp)).1
  · exact .before (hx.drop fun d hd => (hp d hd).2)

section
variable {e : Bytes × Scalar} {m : Object} {c : UInt8} {k : Bytes} (hkey : e.1 = c :: k) (hc : isalpha c = true)
include hkey hc

/-- A string from the tail on ends in front of the next key. -/
theorem scanString_printRest {t rest : Bytes} (h : scanString none (printRest (e :: m)) = some (t, rest)) :
    Left (e :: m) rest := by
  have hescape : escape c = [c] := by
    have hne : ∀ d : UInt8, isalpha d = false → c ≠ d := by
      rintro d hd rfl
      rw [hc] at hd
      cases hd
    have hlow : ¬ c < 0x20 := by
      intro hlt
      have hall : ∀ n < 32, isalpha (UInt8.ofNat n) = false := by decide
      have hfalse := hall c.toNat (UInt8.lt_iff_toNat_lt.1 hlt)
      rw [UInt8.ofNat_toNat, hc] at hfalse
      cases hfalse
    simp [escape, hne 0x08 rfl, hne 0x09 rfl, hne 0x0a rfl, hne 0x0c rfl, hne 0x0d rfl, hne 0x22 rfl, hne 0x5c rfl,
      hlow]
  have htext : printRest (e :: m) = 0x2c :: 0x22 ::
      c :: (k.flatMap escape ++ [0x22] ++ 0x3a :: printScalar e.2 ++ printRest m) := by
    simp [printRest, printMember, printString, printTail, hkey, hescape]
  rw [htext, scanString_raw (by decide) (by decide), if_neg (by decide), scanString_quote] at h
  obtain ⟨-, rfl⟩ := Prod.mk.inj (Option.some.inj h)
  exact .key hc

/-- A string in front of the tail ends there, or with the quote of the tail. -/
theorem scanString_tailText {x u t rest : Bytes} (hx : Aligned x) (hu : x ++ tailText (e :: m) = 0x22 :: u)
    (ht : scanString none u = some (t, rest)) : Left (e :: m) rest := by
  cases x with
  | nil =>
    obtain rfl := (List.cons.inj hu).2
    exact scanString_printRest hkey hc ht
  | cons d x =>
    obtain ⟨rfl, rfl⟩ := List.cons.inj hu
    rcases scanString_aligned (hx.tail (by decide)) ht with ⟨y, hy, rfl, -⟩ | ⟨-, t', -, -, hquote⟩
    · exact .before hy
    · rw [tailText, scanString_quote] at hquote
      obtain ⟨-, rfl⟩ := Prod.mk.inj (Option.some.inj hquote)
      exact .behind

/-- What starts in front of the tail stops before it, or an object takes all of
its members. -/
theorem scan_tail (fuel : Nat) :
    (∀ x v rest, Aligned x → scanValue fuel (x ++ tailText (e :: m)) = some (v, rest) → Left (e :: m) rest) ∧
    (∀ x l rest, Aligned x → scanMembers fuel (x ++ tailText (e :: m)) = some (l, rest) →
      (∃ y, Aligned y ∧ rest = y ++ tailText (e :: m)) ∨ (rest = [] ∧ ∃ pre, l = pre ++ Object.value (e :: m))) ∧
    ∀ x l rest, Aligned x → scanItems fuel (x ++ tailText (e :: m)) = some (l, rest) →
      ∃ y, Aligned y ∧ rest = y ++ tailText (e :: m) := by
  induction fuel with
  | zero =>
    refine ⟨?_, ?_, ?_⟩
    · intro x v rest _ h
      simp [scanValue] at h
    · intro x l rest _ h
      simp [scanMembers] at h
    · intro x l rest _ h
      simp [scanItems] at h
  | succ fuel ih =>
    obtain ⟨ihValue, ihMembers, ihItems⟩ := ih
    refine ⟨?_, ?_, ?_⟩
    · intro x v rest hx h
      rcases scanValue_cases h with ⟨t, u, hu, ht, -⟩ | ⟨u, hu, hobj⟩ | ⟨u, hu, harr⟩ | ⟨-, hplain⟩
      · exact scanString_tailText hkey hc hx hu ht
      · obtain ⟨y, rfl, rfl⟩ := before_tailText hu (by decide)
        have hy := hx.tail (by decide)
        rcases hobj with ⟨hclose, -⟩ | ⟨l, hl, -⟩
        · obtain ⟨z, hz, rfl⟩ := aligned_behind hy hclose (by decide)
          exact .before hz
        · rw [skipBlanks_tailText] at hl
          rcases ihMembers _ l rest hy.skipBlanks hl with ⟨z, hz, rfl⟩ | ⟨rfl, -⟩
          · exact .before hz
          · exact .done
      · obtain ⟨y, rfl, rfl⟩ := before_tailText hu (by decide)
        have hy := hx.tail (by decide)
        rcases harr with ⟨hclose, -⟩ | ⟨l, hl, -⟩
        · obtain ⟨z, hz, rfl⟩ := aligned_behind hy hclose (by decide)
          exact .before hz
        · rw [skipBlanks_tailText] at hl
          obtain ⟨z, hz, rfl⟩ := ihItems _ l rest hy.skipBlanks hl
          exact .before hz
      · exact scanPlain_tailText hx hplain
    · intro x l rest hx h
      obtain ⟨s₁, k', s₂, s₃, v, s₄, hs, hk, hcolon, hv, hrest⟩ := scanMembers_cases h
      obtain ⟨y, hy, rfl⟩ : ∃ y, Aligned y ∧ s₃ = y ++ tailText (e :: m) := by
        rcases (scanString_tailText hkey hc hx hs hk).mark (by decide) hcolon with hy | ⟨hno | hno, -⟩
        · exact hy
        · cases hno
        · cases hno
      rw [skipBlanks_tailText] at hv
      have hleft := ihValue _ v s₄ hy.skipBlanks hv
      rcases hrest with ⟨hclose, rfl⟩ | ⟨s₅, l', hcomma, hl', rfl⟩
      · rcases hleft.mark (by decide) hclose with hz | ⟨-, -, hno⟩
        · exact .inl hz
        · cases hno
      · rcases hleft.mark (by decide) hcomma with ⟨z, hz, rfl⟩ | ⟨-, -, htail⟩
        · rw [skipBlanks_tailText] at hl'
          rcases ihMembers _ l' rest hz.skipBlanks hl' with hbefore | ⟨rfl, pre, rfl⟩
          · exact .inl hbefore
          · exact .inr ⟨rfl, (k', v) :: pre, rfl⟩
        · obtain rfl : printMember e ++ printRest m = s₅ := (List.cons.inj htail).2
          rw [skipBlanks_printMember] at hl'
          obtain ⟨rfl, rfl⟩ := scanMembers_print_of_some m e hl'
          exact .inr ⟨rfl, [(k', v)], rfl⟩
    · intro x l rest hx h
      obtain ⟨v, s₁, hv, hrest⟩ := scanItems_cases h
      have hleft := ihValue _ v s₁ hx hv
      rcases hrest with ⟨hclose, -⟩ | ⟨s₂, l', hcomma, hl', -⟩
      · rcases hleft.mark (by decide) hclose with hz | ⟨-, -, hno⟩
        · exact hz
        · cases hno
      · rcases hleft.mark (by decide) hcomma with ⟨z, hz, rfl⟩ | ⟨-, -, htail⟩
        · rw [skipBlanks_tailText] at hl'
          exact ihItems _ l' rest hz.skipBlanks hl'
        · -- an item would be the key, with its colon behind it
          obtain rfl : printMember e ++ printRest m = s₂ := (List.cons.inj htail).2
          rw [skipBlanks_printMember, scanItems_printMember] at hl'
          cases hl'

/-- The members behind a string that held anything: what was read for that
string and put in front of them can add members, never change or drop one. -/
theorem loads_exchange_tail {first s : Bytes} {v : Value} (hclean : Object.NoApostrophe (e :: m))
    (h : loads (exchange (print ((first, .str s) :: e :: m))) = some v) :
    ∃ pre, v = .obj (dict (pre ++ Object.value (e :: m))) := by
  have hrest : 0x27 ∉ tailText (e :: m) := by
    have hprint := print_noApostrophe hclean
    intro hmem
    rcases List.mem_cons.1 hmem with hmem | hmem
    · cases hmem
    · rcases List.mem_append.1 hmem with hmem | hmem
      · rcases List.mem_cons.1 hmem with hmem | hmem
        · cases hmem
        · exact hprint (by simp [print, hmem])
      · exact hprint (by simp [print, hmem])
  have htext : exchange (print ((first, .str s) :: e :: m)) =
      0x7b :: (exchange (printString first ++ 0x3a :: 0x22 :: s.flatMap escape) ++ tailText (e :: m)) := by
    rw [← exchange_eq hrest, ← exchange_append]
    simp [print, printMember, printScalar, printString, printTail, tailText, exchange]
  have halign : Aligned (exchange (printString first ++ 0x3a :: 0x22 :: s.flatMap escape)) := by
    rw [exchange_append]
    exact (aligned_printString first).append
      (.raw (by decide) (by decide) (.raw (by decide) (by decide) (aligned_escaped s)))
  have hnonblank : ∀ y : Bytes, skipBlanks (y ++ tailText (e :: m)) ≠ [] := by
    intro y hnil
    rw [skipBlanks_tailText] at hnil
    cases (List.append_eq_nil_iff.1 hnil).2
  rw [htext] at h
  obtain ⟨rest, hend, ⟨hclose, -⟩ | ⟨fuel, l, hl, rfl⟩⟩ := loads_brace h
  · obtain ⟨y, -, rfl⟩ := aligned_behind halign hclose (by decide)
    exact absurd hend (hnonblank y)
  · rw [skipBlanks_tailText] at hl
    rcases (scan_tail hkey hc _).2.1 _ l rest halign.skipBlanks hl with ⟨y, -, rfl⟩ | ⟨-, pre, rfl⟩
    · exact absurd hend (hnonblank y)
    · exact ⟨pre, rfl⟩

end

/-! ## Looking a member up -/

theorem lookup_replace (m : List (Bytes × Value)) (e : Bytes × Value) (k : Bytes) :
    (m.map fun x => if x.1 = e.1 then e else x).lookup k =
      if k = e.1 then (m.lookup k).map fun _ => e.2 else m.lookup k := by
  obtain ⟨a, b⟩ := e
  induction m with
  | nil => simp
  | cons x m ih =>
    obtain ⟨y, v⟩ := x
    rw [List.map_cons]
    by_cases hy : y = a
    · subst hy
      by_cases hk : k = y
      · simp [hk]
      · have hbeq : (k == y) = false := by simpa using hk
        simpa [List.lookup_cons, hk, hbeq] using ih
    · by_cases hk : k = y
      · subst hk
        simp [hy]
      · have hbeq : (k == y) = false := by simpa using hk
        simpa [List.lookup_cons, hy, hbeq] using ih

theorem lookup_setKey (m : List (Bytes × Value)) (e : Bytes × Value) (k : Bytes) :
    (setKey m e).lookup k = if k = e.1 then some e.2 else m.lookup k := by
  obtain ⟨a, b⟩ := e
  unfold setKey
  split
  · rename_i hmem
    rw [lookup_replace]
    split
    · rename_i hk
      obtain ⟨x, hx, heq⟩ := List.any_eq_true.1 hmem
      have hsome : (m.lookup k).isSome = true := by
        rw [List.lookup_isSome_iff]
        exact ⟨x, hx, by simpa [hk] using (of_decide_eq_true heq).symm⟩
      obtain ⟨v, hv⟩ := Option.isSome_iff_exists.1 hsome
      rw [hv]
      rfl
    · rfl
  · rename_i hmem
    rw [List.lookup_append]
    by_cases hk : k = a
    · have hnone : m.lookup k = none := by
        rw [List.lookup_eq_none_iff]
        intro x hx
        rw [hk, bne_iff_ne]
        intro heq
        exact hmem (List.any_eq_true.2 ⟨x, hx, decide_eq_true heq.symm⟩)
      rw [hnone, if_pos hk, hk, List.lookup_cons_self]
      rfl
    · have hbeq : (k == a) = false := by simpa using hk
      rw [if_neg hk, List.lookup_cons, hbeq]
      exact Option.or_none

/-- The last of two equal keys counts. -/
theorem lookup_dict_append (pre : List (Bytes × Value)) {m : List (Bytes × Value)} (h : (m.map Prod.fst).Nodup)
    {k : Bytes} {v : Value} (hk : m.lookup k = some v) : (dict (pre ++ m)).lookup k = some v := by
  have hfold : ∀ acc, (m.foldl setKey acc).lookup k = (m.lookup k).or (acc.lookup k) := by
    clear hk
    induction m with
    | nil => exact fun acc => by simp
    | cons e m ih =>
      intro acc
      obtain ⟨a, b⟩ := e
      rw [List.map_cons, List.nodup_cons] at h
      rw [List.foldl_cons, ih h.2, lookup_setKey]
      by_cases hka : k = a
      · have hnone : m.lookup k = none := by
          rw [List.lookup_eq_none_iff]
          intro x hx
          rw [hka, bne_iff_ne]
          rintro rfl
          have hmem : x.1 ∈ m.map Prod.fst := List.mem_map_of_mem hx
          exact h.1 hmem
        rw [hnone, if_pos hka, hka, List.lookup_cons_self]
        rfl
      · have hbeq : (k == a) = false := by simpa using hka
        rw [if_neg hka, List.lookup_cons, hbeq]
  rw [dict, List.foldl_append, hfold, hk]
  rfl

theorem lookup_eq_some_iff_mem {α β : Type} [BEq α] [LawfulBEq α] {m : List (α × β)} (h : (m.map Prod.fst).Nodup)
    {k : α} {v : β} : m.lookup k = some v ↔ (k, v) ∈ m := by
  induction m with
  | nil => simp
  | cons e m ih =>
    obtain ⟨a, b⟩ := e
    rw [List.map_cons, List.nodup_cons] at h
    by_cases hka : k = a
    · subst hka
      have hnone : (k, v) ∉ m := fun hmem => h.1 (List.mem_map.2 ⟨_, hmem, rfl⟩)
      simp [List.lookup_cons_self, hnone, eq_comm]
    · have hbeq : (k == a) = false := by simpa using hka
      simp [List.lookup_cons, hbeq, ih h.2, hka]

/-- The order of the members does not matter. -/
theorem lookup_perm {α β : Type} [BEq α] [LawfulBEq α] {m m' : List (α × β)} (hperm : m.Perm m')
    (h : (m.map Prod.fst).Nodup) (k : α) : m.lookup k = m'.lookup k := by
  have h' : (m'.map Prod.fst).Nodup := (hperm.map Prod.fst).nodup_iff.1 h
  apply Option.ext
  intro v
  rw [lookup_eq_some_iff_mem h, lookup_eq_some_iff_mem h', hperm.mem_iff]

end SysLib.JsonText
