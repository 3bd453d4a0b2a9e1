import FlameSdd.SysLib.Utf8
/-!
# The text of a JSON object

A serialiser that writes a flat object without blanks, escaping what JSON
requires, and a decoder that reads any value, as Python's does: blanks between
tokens, `\u` escapes with surrogate pairs, the non-finite numbers, and of two
equal keys the last one.
-/

namespace SysLib.JsonText

/-! ## Values -/

/-- What a text spells. A number with a fraction or an exponent is kept as it
is spelled. -/
inductive Value where
  | null
  | bool (b : Bool)
  | int (i : Int)
  | float (text : Bytes)
  | str (s : Bytes)
  | arr (items : List Value)
  | obj (members : List (Bytes × Value))

/-- A value without members. -/
inductive Scalar where
  | bool (b : Bool)
  | int (i : Int)
  | str (s : Bytes)
  deriving DecidableEq

def Scalar.value : Scalar → Value
  | .bool b => .bool b
  | .int i => .int i
  | .str s => .str s

/-- A flat object. -/
abbrev Object := List (Bytes × Scalar)

def Object.value (m : Object) : List (Bytes × Value) := m.map fun e => (e.1, e.2.value)

/-! ## Writing -/

def hexDigit (n : UInt8) : UInt8 := if n < 10 then 48 + n else 87 + n

/-- One byte of a string. -/
def escape (c : UInt8) : Bytes :=
  if c = 0x08 then [0x5c, 0x62]
  else if c = 0x09 then [0x5c, 0x74]
  else if c = 0x0a then [0x5c, 0x6e]
  else if c = 0x0c then [0x5c, 0x66]
  else if c = 0x0d then [0x5c, 0x72]
  else if c = 0x22 then [0x5c, 0x22]
  else if c = 0x5c then [0x5c, 0x5c]
  else if c < 0x20 then [0x5c, 0x75, 0x30, 0x30, hexDigit (c / 16), hexDigit (c % 16)]
  else [c]

/-- A string from its first character on, with the quote that ends it. -/
def printTail (s : Bytes) : Bytes := s.flatMap escape ++ [0x22]

def printString (s : Bytes) : Bytes := 0x22 :: printTail s

def printScalar : Scalar → Bytes
  | .bool true => ascii "true"
  | .bool false => ascii "false"
  | .int i => decimalInt i
  | .str s => printString s

def printMember (e : Bytes × Scalar) : Bytes := printString e.1 ++ 0x3a :: printScalar e.2

/-- The members behind the first one, with the brace that ends the object. -/
def printRest : Object → Bytes
  | [] => [0x7d]
  | e :: m => 0x2c :: printMember e ++ printRest m

def print : Object → Bytes
  | [] => [0x7b, 0x7d]
  | e :: m => 0x7b :: printMember e ++ printRest m

section
variable {P : Bytes → Prop} (append : ∀ s t, P s → P t → P (s ++ t)) (mark : ∀ c ∈ [0x2c, 0x3a, 0x7b, 0x7d], P [c])
include append mark

theorem printMember_ind {e : Bytes × Scalar} (hkey : P (printString e.1)) (hval : P (printScalar e.2)) :
    P (printMember e) :=
  append _ _ hkey (append [0x3a] _ (mark _ (by decide)) hval)

theorem printRest_ind {m : Object} (h : ∀ e ∈ m, P (printString e.1) ∧ P (printScalar e.2)) : P (printRest m) := by
  induction m with
  | nil => exact mark _ (by decide)
  | cons e m ih =>
    obtain ⟨hkey, hval⟩ := h e List.mem_cons_self
    have hmember := printMember_ind append mark hkey hval
    have htail := ih fun x hx => h x (List.mem_cons_of_mem _ hx)
    exact append (0x2c :: printMember e) _ (append [0x2c] _ (mark _ (by decide)) hmember) htail

/-- What the marks and the printed members have, and texts that are joined
keep, the text of an object has. -/
theorem print_ind {m : Object} (h : ∀ e ∈ m, P (printString e.1) ∧ P (printScalar e.2)) : P (print m) := by
  cases m with
  | nil => exact append [0x7b] [0x7d] (mark _ (by decide)) (mark _ (by decide))
  | cons e m =>
    obtain ⟨hkey, hval⟩ := h e List.mem_cons_self
    have hmember := printMember_ind append mark hkey hval
    have htail := printRest_ind append mark fun x hx => h x (List.mem_cons_of_mem _ hx)
    exact append (0x7b :: printMember e) _ (append [0x7b] _ (mark _ (by decide)) hmember) htail

end

/-- The keys and the strings of an object are UTF-8. -/
def Object.isUtf8 (m : Object) : Bool :=
  m.all fun e => Utf8.valid e.1 && match e.2 with
    | .str s => Utf8.valid s
    | _ => true

theorem valid_printString {s : Bytes} (h : Utf8.valid s = true) : Utf8.valid (printString s) = true := by
  have hdigit : ∀ c : UInt8, c < 0x20 → hexDigit (c / 16) < 0x80 ∧ hexDigit (c % 16) < 0x80 := by
    intro c hc
    have hlt : c.toNat < 32 := UInt8.lt_iff_toNat_lt.1 hc
    have hall : ∀ n < 32, hexDigit (UInt8.ofNat n / 16) < 0x80 ∧ hexDigit (UInt8.ofNat n % 16) < 0x80 := by decide
    simpa using hall c.toNat hlt
  have hescape : ∀ c, escape c = [c] ∨ (c < 0x80 ∧ ∀ d ∈ escape c, d < 0x80) := by
    intro c
    unfold escape
    repeat' split
    · exact .inr (by subst c; decide +kernel)
    · exact .inr (by subst c; decide +kernel)
    · exact .inr (by subst c; decide +kernel)
    · exact .inr (by subst c; decide +kernel)
    · exact .inr (by subst c; decide +kernel)
    · exact .inr (by subst c; decide +kernel)
    · exact .inr (by subst c; decide +kernel)
    · rename_i hc
      obtain ⟨hhigh, hlow⟩ := hdigit c hc
      exact .inr ⟨UInt8.lt_trans hc (by decide), by simp [hhigh, hlow]⟩
    · exact .inl rfl
  have htail : Utf8.valid (printTail s) = true := Utf8.valid_append (Utf8.valid_flatMap hescape h) rfl
  rw [printString, Utf8.valid_cons_ascii (by decide), htail]

/-- The text of such an object is UTF-8 itself. -/
theorem valid_print {m : Object} (h : m.isUtf8 = true) : Utf8.valid (print m) = true := by
  refine print_ind (P := fun s => Utf8.valid s = true) ?_ ?_ ?_
  · exact fun s t hs ht => Utf8.valid_append hs ht
  · decide +kernel
  · intro e he
    have hmem := List.all_eq_true.1 h e he
    rw [Bool.and_eq_true] at hmem
    refine ⟨valid_printString hmem.1, ?_⟩
    cases hv : e.2 with
    | bool b => cases b <;> rfl
    | int i =>
      apply Utf8.valid_ascii
      intro c hc
      rcases decimalInt_mem hc with rfl | hd
      · decide
      · have hle := (isdigit_iff.1 hd).2
        exact UInt8.lt_iff_toNat_lt.2 (by simp; omega)
    | str s =>
      have hs := hmem.2
      rw [hv] at hs
      exact valid_printString hs

/-! ## Reading strings -/

def hexVal (c : UInt8) : Option Nat :=
  if isdigit c then some (c.toNat - 48)
  else if 0x61 ≤ c && c ≤ 0x66 then some (c.toNat - 87)
  else if 0x41 ≤ c && c ≤ 0x46 then some (c.toNat - 55)
  else none

def hex4 (a b c d : UInt8) : Option Nat := do
  let a ← hexVal a
  let b ← hexVal b
  let c ← hexVal c
  let d ← hexVal d
  return ((a * 16 + b) * 16 + c) * 16 + d

/-- The bytes of a code point; a surrogate gets the three bytes of its number. -/
def encode (u : Nat) : Bytes :=
  if u < 0x80 then [u.toUInt8]
  else if u < 0x800 then [(0xc0 + u / 64).toUInt8, (0x80 + u % 64).toUInt8]
  else if u < 0x10000 then [(0xe0 + u / 4096).toUInt8, (0x80 + u / 64 % 64).toUInt8, (0x80 + u % 64).toUInt8]
  else [(0xf0 + u / 262144).toUInt8, (0x80 + u / 4096 % 64).toUInt8, (0x80 + u / 64 % 64).toUInt8,
    (0x80 + u % 64).toUInt8]

def isHigh (u : Nat) : Bool := 0xd800 ≤ u && u < 0xdc00

def isLow (u : Nat) : Bool := 0xdc00 ≤ u && u < 0xe000

def unescape (c : UInt8) : Option UInt8 :=
  if c = 0x22 then some 0x22
  else if c = 0x5c then some 0x5c
  else if c = 0x2f then some 0x2f
  else if c = 0x62 then some 0x08
  else if c = 0x66 then some 0x0c
  else if c = 0x6e then some 0x0a
  else if c = 0x72 then some 0x0d
  else if c = 0x74 then some 0x09
  else none

/-- What was read, put in front of what follows. -/
def prepend (s : Bytes) (r : Option (Bytes × Bytes)) : Option (Bytes × Bytes) := r.map fun (t, rest) => (s ++ t, rest)

/-- A string behind its opening quote, and what is left behind the closing one.
`high` is a surrogate that waits for its other half. -/
def scanString : Option Nat → Bytes → Option (Bytes × Bytes)
  | _, [] => none
  | high, c :: rest =>
    let waiting := high.elim [] encode
    if c = 0x22 then some (waiting, rest)
    else if c = 0x5c then
      match rest with
      | [] => none
      | e :: rest =>
        if e = 0x75 then
          match rest with
          | a :: b :: c :: d :: rest =>
            match hex4 a b c d with
            | none => none
            | some u =>
              match high with
              | some h =>
                if isLow u then prepend (encode (0x10000 + (h - 0xd800) * 1024 + (u - 0xdc00))) (scanString none rest)
                else if isHigh u then prepend waiting (scanString (some u) rest)
                else prepend (waiting ++ encode u) (scanString none rest)
              | none =>
                if isHigh u then scanString (some u) rest else prepend (encode u) (scanString none rest)
          | _ => none
        else
          match unescape e with
          | none => none
          | some b => prepend (waiting ++ [b]) (scanString none rest)
    else if c < 0x20 then none
    else prepend (waiting ++ [c]) (scanString none rest)

/-! ## Reading values -/

def isBlank (c : UInt8) : Bool := c == 0x20 || c == 0x09 || c == 0x0a || c == 0x0d

def skipBlanks (s : Bytes) : Bytes := s.dropWhile isBlank

/-- The fraction at the start of a text, if digits follow its point. -/
def fraction : Bytes → Bytes
  | 0x2e :: s => if s.takeWhile isdigit = [] then [] else 0x2e :: s.takeWhile isdigit
  | _ => []

/-- The sign of an exponent. -/
def expSign : Bytes → Bytes
  | 0x2b :: _ => [0x2b]
  | 0x2d :: _ => [0x2d]
  | _ => []

def exponent : Bytes → Bytes
  | c :: s =>
    if c = 0x65 ∨ c = 0x45 then
      let sign := expSign s
      let digits := (s.drop sign.length).takeWhile isdigit
      if digits = [] then [] else c :: sign ++ digits
    else []
  | [] => []

/-- The digits before the point: none follow a leading zero. -/
def integerDigits (s : Bytes) : Bytes :=
  if s.head? = some 0x30 then [0x30] else s.takeWhile isdigit

def minus : Bytes → Bytes
  | 0x2d :: _ => [0x2d]
  | _ => []

/-- A number at the start of a text. -/
def scanNumber (s : Bytes) : Option (Value × Bytes) :=
  let sign := minus s
  let digits := integerDigits (s.drop sign.length)
  let rest := s.drop (sign ++ digits).length
  let frac := fraction rest
  let expo := exponent (rest.drop frac.length)
  if digits = [] then none
  else if frac ++ expo = [] then
    some (.int (if sign = [] then digitsVal digits else -digitsVal digits), rest)
  else some (.float (sign ++ digits ++ frac ++ expo), rest.drop (frac ++ expo).length)

/-- The words that stand for a value. -/
def words : List (Bytes × Value) :=
  [(ascii "null", .null), (ascii "true", .bool true), (ascii "false", .bool false),
   (ascii "NaN", .float (ascii "NaN")), (ascii "Infinity", .float (ascii "Infinity")),
   (ascii "-Infinity", .float (ascii "-Infinity"))]

/-- A word or a number. -/
def scanPlain (s : Bytes) : Option (Value × Bytes) :=
  match words.find? fun w => w.1.isPrefixOf s with
  | some w => some (w.2, s.drop w.1.length)
  | none => scanNumber s

/-- A dictionary after one more entry: a key that is there keeps its place. -/
def setKey (m : List (Bytes × Value)) (e : Bytes × Value) : List (Bytes × Value) :=
  if m.any fun x => x.1 = e.1 then m.map fun x => if x.1 = e.1 then e else x else m ++ [e]

/-- The dictionary of the members of an object text. -/
def dict (m : List (Bytes × Value)) : List (Bytes × Value) := m.foldl setKey []

mutual
/-- A value at the start of a text; `fuel` bounds the tokens read. -/
def scanValue : Nat → Bytes → Option (Value × Bytes)
  | 0, _ => none
  | fuel + 1, s =>
    match s with
    | [] => none
    | c :: rest =>
      if c = 0x22 then (scanString none rest).map fun (t, rest) => (.str t, rest)
      else if c = 0x7b then
        match skipBlanks rest with
        | 0x7d :: rest => some (.obj [], rest)
        | rest => (scanMembers fuel rest).map fun (m, rest) => (.obj (dict m), rest)
      else if c = 0x5b then
        match skipBlanks rest with
        | 0x5d :: rest => some (.arr [], rest)
        | rest => (scanItems fuel rest).map fun (l, rest) => (.arr l, rest)
      else scanPlain s

/-- The members of an object, up to its closing brace. -/
def scanMembers : Nat → Bytes → Option (List (Bytes × Value) × Bytes)
  | 0, _ => none
  | fuel + 1, s =>
    match s with
    | 0x22 :: rest =>
      match scanString none rest with
      | none => none
      | some (k, rest) =>
        match skipBlanks rest with
        | 0x3a :: rest =>
          match scanValue fuel (skipBlanks rest) with
          | none => none
          | some (v, rest) =>
            match skipBlanks rest with
            | 0x7d :: rest => some ([(k, v)], rest)
            | 0x2c :: rest => (scanMembers fuel (skipBlanks rest)).map fun (m, rest) => ((k, v) :: m, rest)
            | _ => none
        | _ => none
    | _ => none

/-- The items of an array, up to its closing bracket. -/
def scanItems : Nat → Bytes → Option (List Value × Bytes)
  | 0, _ => none
  | fuel + 1, s =>
    match scanValue fuel s with
    | none => none
    | some (v, rest) =>
      match skipBlanks rest with
      | 0x5d :: rest => some ([v], rest)
      | 0x2c :: rest => (scanItems fuel (skipBlanks rest)).map fun (l, rest) => (v :: l, rest)
      | _ => none
end

/-- The value of a text that holds nothing else. -/
def loads (s : Bytes) : Option Value :=
  match scanValue (2 * s.length + 2) (skipBlanks s) with
  | some (v, rest) => if skipBlanks rest = [] then some v else none
  | none => none

end SysLib.JsonText
