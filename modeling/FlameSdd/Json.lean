import FlameSdd.SysLib.Utf8
/-!
# Exceptions and JSON values

A `json` value as the components read it: `contains`, `operator[]`, `value` and
`get`, each with the exception it throws on a value of another type.
-/
open SysLib

namespace FlameSdd

/-- The exceptions the components meet, by class. -/
inductive Exn where
  | invalidArgument
  | outOfRange
  | parseError
  | typeError
  | filesystemError
  | zmqError
  deriving DecidableEq, Repr

theorem bind_eq_ok {α β : Type} {x : Except Exn α} {f : α → Except Exn β} {b : β} (h : (x >>= f) = .ok b) :
    ∃ a, x = .ok a ∧ f a = .ok b := by
  cases x with
  | error e => cases h
  | ok a => exact ⟨a, rfl, h⟩

/-- How a worker thread stands: its loop may end at an exception that is caught
outside of it, and an exception that nobody catches ends the process. -/
inductive Worker where
  | running
  | ended
  | terminated
  deriving DecidableEq, Repr

/-- A JSON value. A floating-point number is kept by its integer part, which is
all that `get<int>` reads of it. -/
inductive Json where
  | null
  | bool (b : Bool)
  | int (i : Int)
  | float (trunc : Int)
  | str (s : Bytes)
  | arr (items : List Json)
  | obj (members : List (String × Json))

namespace Json

/-- The member `k` of an object. -/
def member? : Json → String → Option Json
  | .obj m, k => m.lookup k
  | _, _ => none

def contains (j : Json) (k : String) : Bool := (j.member? k).isSome

/-- `operator[]`: a missing member of an object reads as null. -/
def index : Json → String → Except Exn Json
  | .obj m, k => .ok ((m.lookup k).getD .null)
  | .null, _ => .ok .null
  | _, _ => .error .typeError

def getString : Json → Except Exn Bytes
  | .str s => .ok s
  | _ => .error .typeError

def getBool : Json → Except Exn Bool
  | .bool b => .ok b
  | _ => .error .typeError

/-- A number of any kind, a boolean among them. -/
def getNumber : Json → Except Exn Int
  | .int i => .ok i
  | .float i => .ok i
  | .bool b => .ok (if b then 1 else 0)
  | _ => .error .typeError

def getInt (j : Json) : Except Exn Int := (fun i => i.bmod (2 ^ 32)) <$> j.getNumber

/-- Unlike `get<int>`, `get<long>` refuses a boolean. -/
def getLong : Json → Except Exn Int
  | .int i => .ok (i.bmod (2 ^ 64))
  | .float i => .ok (i.bmod (2 ^ 64))
  | _ => .error .typeError

/-- `value(k, d)`: the default `d` when an object has no member `k`. -/
def value {α : Type} (get : Json → Except Exn α) (j : Json) (k : String) (d : α) : Except Exn α :=
  match j with
  | .obj m => match m.lookup k with
    | some v => get v
    | none => .ok d
  | _ => .error .typeError

def valueString : Json → String → Bytes → Except Exn Bytes := value getString

def valueBool : Json → String → Bool → Except Exn Bool := value getBool

/-! ## Members that are there -/

theorem index_of_member {data : Json} {k : String} {j : Json} (h : data.member? k = some j) :
    data.index k = .ok j := by
  cases data with
  | obj m =>
    have hlookup : m.lookup k = some j := h
    simp [index, hlookup]
  | _ => simp [member?] at h

theorem valueString_of_member {data : Json} {k : String} {j : Json} (h : data.member? k = some j) (d : Bytes) :
    data.valueString k d = j.getString := by
  cases data with
  | obj m =>
    have hlookup : m.lookup k = some j := h
    simp [valueString, value, hlookup]
  | _ => simp [member?] at h

/-! ## What `get` accepts -/

def isBool : Json → Bool
  | .bool _ => true
  | _ => false

/-- `get<int>` takes a boolean for a number. -/
def isNumber : Json → Bool
  | .int _ => true
  | .float _ => true
  | .bool _ => true
  | _ => false

theorem getBool_ok_iff (j : Json) : (∃ b, j.getBool = .ok b) ↔ j.isBool = true := by
  cases j <;> simp [getBool, isBool]

theorem getInt_ok_iff (j : Json) : (∃ i, j.getInt = .ok i) ↔ j.isNumber = true := by
  cases j <;> simp [getInt, getNumber, isNumber, Functor.map, Except.map]

/-! ## Serialising -/

mutual
/-- `dump` throws on a text that is not UTF-8; every other value prints. -/
def dumps : Json → Bool
  | .str s => Utf8.valid s
  | .arr l => dumpsItems l
  | .obj m => dumpsMembers m
  | _ => true

def dumpsItems : List Json → Bool
  | [] => true
  | j :: l => dumps j && dumpsItems l

def dumpsMembers : List (String × Json) → Bool
  | [] => true
  | (_, j) :: m => dumps j && dumpsMembers m
end

/-- `dump`, as far as it can fail; the text itself is read back by `parse` as
the value it was made from. -/
def dump (j : Json) : Except Exn Json := if j.dumps then .ok j else .error .typeError

@[simp] theorem dumps_str (s : Bytes) : dumps (.str s) = Utf8.valid s := by simp [dumps]
@[simp] theorem dumps_int (i : Int) : dumps (.int i) = true := by simp [dumps]
@[simp] theorem dumps_obj (m : List (String × Json)) : dumps (.obj m) = dumpsMembers m := by simp [dumps]
@[simp] theorem dumpsMembers_nil : dumpsMembers [] = true := by simp [dumpsMembers]
@[simp] theorem dumpsMembers_cons (k : String) (j : Json) (m : List (String × Json)) :
    dumpsMembers ((k, j) :: m) = (dumps j && dumpsMembers m) := by simp [dumpsMembers]

theorem dump_ok_iff {j j' : Json} : j.dump = .ok j' ↔ j.dumps = true ∧ j' = j := by
  unfold dump
  cases j.dumps with
  | true => simp only [if_true, Except.ok.injEq, true_and]; exact eq_comm
  | false => simp

end Json

/-- A message payload as `json::parse` sees it: `none` when it is no JSON. -/
abbrev Payload := Option Json

end FlameSdd
