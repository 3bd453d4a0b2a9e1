import FlameSdd.SysLib.Utf8
/-!
# Characters of a text

What a program that works on characters sees of a byte string: the decoded
characters, where a byte that belongs to none stands for itself as a surrogate,
and which of them are decimal digits in whatever script.
-/

namespace SysLib.Unicode

open SysLib.Utf8

/-- A byte that belongs to no character. -/
def surrogate (b : UInt8) : Nat := 0xDC00 + b.toNat

/-- What the first byte of a character has of its number. -/
def leadBits (b : UInt8) : Nat :=
  if b < 0x80 then b.toNat
  else if b < 0xE0 then b.toNat - 0xC0
  else if b < 0xF0 then b.toNat - 0xE0
  else b.toNat - 0xF0

/-- The characters from the middle of one on, of which `pending` was read. -/
def decodeFrom (pending : Bytes) (value : Nat) (q : State) : Bytes → List Nat
  | [] => pending.map surrogate
  | b :: s =>
    match step q b with
    | some q' =>
      let value := if q.owed = 0 then leadBits b else 64 * value + (b.toNat - 0x80)
      if q'.owed = 0 then value :: decodeFrom [] 0 start s else decodeFrom (pending ++ [b]) value q' s
    | none =>
      pending.map surrogate ++
        -- the byte that breaks off a character may begin one
        match lead b with
        | some q' => if q'.owed = 0 then leadBits b :: decodeFrom [] 0 start s else decodeFrom [b] (leadBits b) q' s
        | none => surrogate b :: decodeFrom [] 0 start s

def codePoints (s : Bytes) : List Nat := decodeFrom [] 0 start s

/-- An ASCII text. -/
def points (s : String) : List Nat := (ascii s).map UInt8.toNat

/-- The zeros; the other nine digits of a script are behind its zero. -/
def decimalZeros : List Nat :=
  [0x30, 0x660, 0x6F0, 0x7C0, 0x966, 0x9E6, 0xA66, 0xAE6, 0xB66, 0xBE6, 0xC66, 0xCE6, 0xD66, 0xDE6, 0xE50,
    0xED0, 0xF20, 0x1040, 0x1090, 0x17E0, 0x1810, 0x1946, 0x19D0, 0x1A80, 0x1A90, 0x1B50, 0x1BB0, 0x1C40,
    0x1C50, 0xA620, 0xA8D0, 0xA900, 0xA9D0, 0xA9F0, 0xAA50, 0xABF0, 0xFF10, 0x104A0, 0x10D30, 0x11066, 0x110F0,
    0x11136, 0x111D0, 0x112F0, 0x11450, 0x114D0, 0x11650, 0x116C0, 0x11730, 0x118E0, 0x11950, 0x11C50, 0x11D50,
    0x11DA0, 0x16A60, 0x16AC0, 0x16B50, 0x1D7CE, 0x1D7D8, 0x1D7E2, 0x1D7EC, 0x1D7F6, 0x1E140, 0x1E2F0, 0x1E950,
    0x1FBF0]

def decimalZero? (c : Nat) : Option Nat := decimalZeros.find? fun z => z ≤ c && c < z + 10

/-- `\d` matches the character. -/
def isDecimal (c : Nat) : Bool := (decimalZero? c).isSome

/-- The number that decimal digits spell. -/
def decimalVal (s : List Nat) : Nat := s.foldl (fun n c => 10 * n + (c - (decimalZero? c).getD 0)) 0

/-- The white space that may stand around a number. -/
def isBlank (c : Nat) : Bool :=
  (0x9 ≤ c && c ≤ 0xD) || c == 0x20 || c == 0x85 || c == 0xA0 || c == 0x1680 || (0x2000 ≤ c && c ≤ 0x200A) ||
    c == 0x2028 || c == 0x2029 || c == 0x202F || c == 0x205F || c == 0x3000

/-- The number that digits spell, with single underscores between them. -/
def digitGroups (s : List Nat) : Option Nat :=
  if (s.splitOn 0x5F).all fun group => !group.isEmpty && group.all isDecimal then
    some (decimalVal (s.splitOn 0x5F).flatten)
  else none

/-- `int` of a text: white space around it, a sign, digits. -/
def toInt (s : List Nat) : Option Int :=
  match (s.dropWhile isBlank).rdropWhile isBlank with
  | 0x2B :: digits => (digitGroups digits).map Int.ofNat
  | 0x2D :: digits => (digitGroups digits).map fun n => -Int.ofNat n
  | digits => (digitGroups digits).map Int.ofNat

/-- The characters of an ASCII text are its bytes. -/
theorem codePoints_ascii {s : Bytes} (h : ∀ c ∈ s, c < 0x80) : codePoints s = s.map UInt8.toNat := by
  unfold codePoints
  induction s with
  | nil => rfl
  | cons b s ih =>
    have hb := h b List.mem_cons_self
    simp only [decodeFrom, step_start_ascii hb, List.map_cons]
    rw [ih fun c hc => h c (List.mem_cons_of_mem b hc)]
    simp [start, leadBits, hb]

theorem decimalZero?_digit {c : UInt8} (h : isdigit c = true) : decimalZero? c.toNat = some 0x30 := by
  have hc := isdigit_iff.1 h
  rw [decimalZero?, decimalZeros, List.find?_cons_of_pos]
  simp only [Bool.and_eq_true, decide_eq_true_eq]
  omega

theorem isDecimal_digit {c : UInt8} (h : isdigit c = true) : isDecimal c.toNat = true := by
  rw [isDecimal, decimalZero?_digit h]
  rfl

theorem decimalVal_digits {s : Bytes} (h : ∀ c ∈ s, isdigit c = true) :
    decimalVal (s.map UInt8.toNat) = digitsVal s := by
  unfold decimalVal digitsVal
  rw [List.foldl_map]
  apply List.foldl_ext
  intro n c hc
  rw [decimalZero?_digit (h c hc)]
  rfl

/-- Digits stop at what is no digit. -/
theorem decimal_split {w : List Nat} (hw : ∀ c ∈ w, isDecimal c = true) {c : Nat} (hc : isDecimal c = false)
    (s : List Nat) : (w ++ c :: s).takeWhile isDecimal = w ∧ (w ++ c :: s).dropWhile isDecimal = c :: s := by
  rw [List.takeWhile_append_of_pos hw, List.dropWhile_append_of_pos hw]
  simp [hc]

theorem isDecimal_decimal (n : Nat) : ∀ c ∈ (decimal n).map UInt8.toNat, isDecimal c = true := by
  intro c hc
  obtain ⟨b, hb, rfl⟩ := List.mem_map.1 hc
  exact isDecimal_digit (decimal_isdigit n b hb)

theorem decimalVal_decimal (n : Nat) : decimalVal ((decimal n).map UInt8.toNat) = n := by
  rw [decimalVal_digits (decimal_isdigit n), digitsVal_decimal]

theorem digitGroups_decimal (n : Nat) : digitGroups ((decimal n).map UInt8.toNat) = some n := by
  have hsep : 0x5F ∉ (decimal n).map UInt8.toNat := by
    intro h
    obtain ⟨c, hc, heq⟩ := List.mem_map.1 h
    have hdigit := isdigit_iff.1 (decimal_isdigit n c hc)
    omega
  have hall : ((decimal n).map UInt8.toNat).all isDecimal = true := List.all_eq_true.2 (isDecimal_decimal n)
  rw [digitGroups, List.splitOn_eq_singleton hsep, if_pos]
  · simp [decimalVal_decimal]
  · simpa [decimal_ne_nil] using hall

/-- A printed number reads back. -/
theorem toInt_decimalInt (i : Int) : toInt (codePoints (decimalInt i)) = some i := by
  have hascii : ∀ c ∈ decimalInt i, c < 0x80 := by
    intro c hc
    rcases decimalInt_mem hc with rfl | hdigit
    · decide
    · exact isdigit_ascii hdigit
  have hblank : ∀ c ∈ (decimalInt i).map UInt8.toNat, isBlank c = false := by
    intro c hc
    obtain ⟨d, hd, rfl⟩ := List.mem_map.1 hc
    rcases decimalInt_mem hd with rfl | hdigit
    · decide
    · have hd := isdigit_iff.1 hdigit
      simp [isBlank]
      omega
  have hstrip : (((decimalInt i).map UInt8.toNat).dropWhile isBlank).rdropWhile isBlank =
      (decimalInt i).map UInt8.toNat := by
    rw [List.dropWhile_eq_self_iff.2, List.rdropWhile_eq_self_iff.2]
    · intro hne
      rw [hblank _ (List.getLast_mem hne)]
      decide
    · intro hpos
      rw [hblank _ (List.getElem_mem hpos)]
      decide
  rw [codePoints_ascii hascii, toInt, hstrip]
  cases i with
  | negSucc n =>
    have h45 : (45 : UInt8).toNat = 0x2D := rfl
    simp only [decimalInt, List.map_cons, h45, digitGroups_decimal]
    rfl
  | ofNat n =>
    -- a digit comes first, not a sign
    obtain ⟨c, s, hcons⟩ := List.exists_cons_of_ne_nil (decimal_ne_nil n)
    have hdigit := isdigit_iff.1 (decimal_isdigit n c (by simp [hcons]))
    have hgroups := digitGroups_decimal n
    simp only [decimalInt]
    rw [hcons, List.map_cons] at hgroups ⊢
    split
    · rename_i heq
      obtain ⟨heq, -⟩ := List.cons.inj heq
      omega
    · rename_i heq
      obtain ⟨heq, -⟩ := List.cons.inj heq
      omega
    · rw [hgroups]
      rfl

example : codePoints (ascii "3_" ++ [0xEF, 0xBC, 0x95, 0xFF]) = [0x33, 0x5F, 0xFF15, 0xDCFF] := by decide
example : decimalVal [0xFF15, 0x30] = 50 := by decide

end SysLib.Unicode
