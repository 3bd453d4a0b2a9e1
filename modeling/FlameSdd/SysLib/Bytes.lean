import FlameSdd.SysLib.Tokens
import Mathlib.Data.Nat.Digits.Lemmas
import Mathlib.Data.List.TakeWhile
import Mathlib.Data.List.DropRight
/-!
# Byte strings

The C library's view of text: byte strings, character classes of the "C"
locale, `strtol` and decimal output.
-/

namespace SysLib

/-- A `char` array or a `std::string`. -/
abbrev Bytes := List UInt8

/-- The bytes of an ASCII text. -/
def ascii (s : String) : Bytes := s.toList.map Char.toUInt8

/-! ## Character classes -/

def isspace (c : UInt8) : Bool := c == 32 || (9 ≤ c && c ≤ 13)

def isdigit (c : UInt8) : Bool := 48 ≤ c && c ≤ 57

def isalpha (c : UInt8) : Bool := (65 ≤ c && c ≤ 90) || (97 ≤ c && c ≤ 122)

def toupper (c : UInt8) : UInt8 := if 97 ≤ c && c ≤ 122 then c - 32 else c

theorem isdigit_iff {c : UInt8} : isdigit c = true ↔ 48 ≤ c.toNat ∧ c.toNat ≤ 57 := by
  simp [isdigit, UInt8.le_iff_toNat_le]

theorem isdigit_ascii {c : UInt8} (h : isdigit c = true) : c < 0x80 := by unfold isdigit at h; grind

/-! ## Reading numbers -/

/-- The value of a run of digits. -/
def digitsVal (s : Bytes) : Nat := s.foldl (fun n c => 10 * n + (c.toNat - 48)) 0

/-- The digits `strtol` converts, if there are any. -/
def leadingDigits (s : Bytes) : Option Nat :=
  if s.takeWhile isdigit = [] then none else some (digitsVal (s.takeWhile isdigit))

/-- `strtol` in base ten: blanks, a sign, then as many digits as there are;
`none` when nothing was converted. -/
def strtol (s : Bytes) : Option Int :=
  match s.dropWhile isspace with
  | 43 :: r => (leadingDigits r).map Int.ofNat
  | 45 :: r => (leadingDigits r).map fun n => -Int.ofNat n
  | r => (leadingDigits r).map Int.ofNat

/-- The text starts with a number, after blanks and one sign at most. -/
def hasNumber (s : Bytes) : Bool := (strtol s).isSome

theorem digitsVal_append (s t : Bytes) :
    digitsVal (s ++ t) = t.foldl (fun n c => 10 * n + (c.toNat - 48)) (digitsVal s) := by
  simp [digitsVal, List.foldl_append]

theorem digitsVal_lt {s : Bytes} (h : ∀ c ∈ s, isdigit c = true) : digitsVal s < 10 ^ s.length := by
  induction s using List.reverseRecOn with
  | nil => simp [digitsVal]
  | append_singleton s c ih =>
    have hs := ih fun d hd => h d (by simp [hd])
    have hc := isdigit_iff.1 (h c (by simp))
    rw [digitsVal_append]
    simp only [List.foldl_cons, List.foldl_nil, List.length_append, List.length_singleton, pow_succ]
    omega

theorem leadingDigits_lt {s : Bytes} {n : Nat} (h : leadingDigits s = some n) : n < 10 ^ s.length := by
  unfold leadingDigits at h
  split at h
  · cases h
  · simp only [Option.some.injEq] at h
    subst h
    refine (digitsVal_lt fun c hc => List.mem_takeWhile_imp hc).trans_le ?_
    exact Nat.pow_le_pow_right (by omega) (List.takeWhile_sublist _).length_le

/-- A text of `k` bytes spells a number below `10 ^ k`. -/
theorem strtol_bound {s : Bytes} {i : Int} (h : strtol s = some i) : i.natAbs < 10 ^ s.length := by
  have hlen : (s.dropWhile isspace).length ≤ s.length := (List.dropWhile_sublist _).length_le
  have key : ∀ r : Bytes, r.length ≤ s.length → ∀ n, leadingDigits r = some n → n < 10 ^ s.length :=
    fun r hr n hn => (leadingDigits_lt hn).trans_le (Nat.pow_le_pow_right (by omega) hr)
  unfold strtol at h
  split at h
  · rename_i r hr
    obtain ⟨n, hn, rfl⟩ := Option.map_eq_some_iff.1 h
    simpa using key r (by rw [hr, List.length_cons] at hlen; omega) n hn
  · rename_i r hr
    obtain ⟨n, hn, rfl⟩ := Option.map_eq_some_iff.1 h
    simpa using key r (by rw [hr, List.length_cons] at hlen; omega) n hn
  · obtain ⟨n, hn, rfl⟩ := Option.map_eq_some_iff.1 h
    simpa using key _ hlen n hn

/-- Digits are read as the number they spell. -/
theorem strtol_digits {s : Bytes} (hne : s ≠ []) (h : ∀ c ∈ s, isdigit c = true) :
    strtol s = some (digitsVal s : Int) := by
  obtain ⟨c, t, rfl⟩ := List.exists_cons_of_ne_nil hne
  have hc := h c List.mem_cons_self
  have hspace : isspace c = false := by
    unfold isdigit at hc
    unfold isspace
    grind
  have hdrop : (c :: t).dropWhile isspace = c :: t := List.dropWhile_cons_of_neg (by simp [hspace])
  have hall : (c :: t).takeWhile isdigit = c :: t := List.takeWhile_eq_self_iff.2 h
  have hlead : leadingDigits (c :: t) = some (digitsVal (c :: t)) := by
    rw [leadingDigits, hall, if_neg (List.cons_ne_nil c t)]
  unfold strtol
  rw [hdrop]
  split
  · rename_i heq
    obtain rfl := (List.cons.inj heq).1
    cases hc
  · rename_i heq
    obtain rfl := (List.cons.inj heq).1
    cases hc
  · rw [hlead]
    rfl

theorem takeWhile_digits {s t : Bytes} {c : UInt8} (hs : ∀ d ∈ s, isdigit d = true) (hc : isdigit c = false) :
    (s ++ c :: t).takeWhile isdigit = s := by
  rw [List.takeWhile_append_of_pos hs]
  simp [hc]

/-- Digits end where something else starts. -/
theorem digits_append_inj {s s' t t' : Bytes} {c c' : UInt8} (hs : ∀ d ∈ s, isdigit d = true)
    (hs' : ∀ d ∈ s', isdigit d = true) (hc : isdigit c = false) (hc' : isdigit c' = false)
    (h : s ++ c :: t = s' ++ c' :: t') : s = s' ∧ c = c' ∧ t = t' := by
  have heq : s = s' := by rw [← takeWhile_digits hs hc, h, takeWhile_digits hs' hc']
  subst heq
  exact ⟨rfl, List.cons.inj (List.append_cancel_left h)⟩

/-- Leading zeros do not count. -/
theorem digitsVal_zeros (k : Nat) (s : Bytes) : digitsVal (List.replicate k 48 ++ s) = digitsVal s := by
  induction k with
  | zero => rfl
  | succ k ih => exact ih

/-! ## Cutting at a byte -/

/-- A text is cut at its first `c` in one way. -/
theorem append_cons_inj {s s' t t' : Bytes} {c : UInt8} (hs : c ∉ s) (hs' : c ∉ s') (h : s ++ c :: t = s' ++ c :: t') :
    s = s' ∧ t = t' := by
  have hsplit := congrArg (List.splitOn c) h
  rw [List.splitOn_append_cons_self_of_not_mem hs, List.splitOn_append_cons_self_of_not_mem hs'] at hsplit
  obtain rfl := (List.cons.inj hsplit).1
  exact ⟨rfl, (List.cons.inj (List.append_cancel_left h)).2⟩

theorem not_mem_of_mem_splitOn {s t : Bytes} {c : UInt8} (h : t ∈ s.splitOn c) : c ∉ t := by
  intro hc
  have hno := Tokens.splitOnP_no_sep s t h c hc
  simp at hno

/-! ## Writing numbers -/

/-- What `std::to_string` and `{}` print for an unsigned number. -/
def decimal (n : Nat) : Bytes :=
  if n = 0 then [48] else (Nat.digits 10 n).reverse.map fun d => (48 + d).toUInt8

/-- The same for a signed number. -/
def decimalInt : Int → Bytes
  | .ofNat n => decimal n
  | .negSucc n => 45 :: decimal (n + 1)

theorem decimal_isdigit (n : Nat) : ∀ c ∈ decimal n, isdigit c = true := by
  intro c hc
  unfold decimal at hc
  split at hc
  · simp only [List.mem_singleton] at hc; subst hc; decide
  · obtain ⟨d, hd, rfl⟩ := List.mem_map.1 hc
    have hlt : d < 10 := Nat.digits_lt_base (by omega) (List.mem_reverse.1 hd)
    rw [isdigit_iff]
    simp only [UInt8.toNat_ofNat', Nat.toUInt8]
    omega

theorem digitsVal_digits {l : List Nat} (h : ∀ d ∈ l, d < 10) :
    digitsVal (l.reverse.map fun d => (48 + d).toUInt8) = Nat.ofDigits 10 l := by
  induction l with
  | nil => rfl
  | cons d l ih =>
    have hd : d < 10 := h d List.mem_cons_self
    have hbyte : (48 + d).toUInt8.toNat = 48 + d := by
      simp only [Nat.toUInt8, UInt8.toNat_ofNat']
      omega
    rw [List.reverse_cons, List.map_append, digitsVal_append, ih fun e he => h e (List.mem_cons_of_mem _ he),
      Nat.ofDigits_cons]
    simp only [List.map_cons, List.map_nil, List.foldl_cons, List.foldl_nil, hbyte]
    omega

theorem decimalInt_mem {i : Int} {c : UInt8} (h : c ∈ decimalInt i) : c = 45 ∨ isdigit c = true := by
  cases i with
  | ofNat n => exact .inr (decimal_isdigit n c h)
  | negSucc n => exact (List.mem_cons.1 h).imp_right (decimal_isdigit _ c)

/-- A printed number reads back. -/
theorem digitsVal_decimal (n : Nat) : digitsVal (decimal n) = n := by
  unfold decimal
  split
  · rename_i h
    subst h
    rfl
  · rw [digitsVal_digits fun d hd => Nat.digits_lt_base (by omega) hd, Nat.ofDigits_digits]

theorem length_decimal_le {n k : Nat} (hk : 0 < k) (h : n < 10 ^ k) : (decimal n).length ≤ k := by
  unfold decimal
  split
  · exact hk
  · rw [List.length_map, List.length_reverse]
    exact (Nat.digits_length_le_iff (by omega) n).2 h

theorem decimal_injective : Function.Injective decimal := by
  intro n m h
  rw [← digitsVal_decimal n, h, digitsVal_decimal]

theorem decimal_ne_nil (n : Nat) : decimal n ≠ [] := by
  unfold decimal
  split
  · simp
  · rename_i h
    simpa using Nat.digits_ne_nil_iff_ne_zero.2 h

/-- A printed number has no leading zero. -/
theorem decimal_head? {n : Nat} (h : n ≠ 0) : (decimal n).head? ≠ some 48 := by
  rw [decimal, if_neg h, List.head?_map, List.head?_reverse,
    List.getLast?_eq_some_getLast (Nat.digits_ne_nil_iff_ne_zero.2 h)]
  have hne := Nat.getLast_digit_ne_zero 10 h
  have hlt := Nat.digits_lt_base (b := 10) (by omega) (List.getLast_mem (Nat.digits_ne_nil_iff_ne_zero.2 h))
  intro heq
  have hbyte := congrArg UInt8.toNat (Option.some.inj heq)
  simp only [Nat.toUInt8, UInt8.toNat_ofNat'] at hbyte
  have h48 : (48 : UInt8).toNat = 48 := rfl
  omega

end SysLib
