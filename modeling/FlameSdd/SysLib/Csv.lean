import Mathlib.Data.List.Basic
/-!
# Comma-separated values

A writer that quotes the fields that need it, and a reader that goes through the
lines of a text character by character. The reader yields the rows that were
written: `read_write`.
-/

namespace SysLib.Csv

variable {α : Type} [DecidableEq α]

/-- The characters with a meaning. -/
structure Dialect (α : Type) where
  delimiter : α
  quotechar : α
  cr : α
  lf : α
  nodup : [delimiter, quotechar, cr, lf].Nodup

variable (d : Dialect α)

/-! ## The writer -/

/-- The character makes its field quoted. -/
def special (c : α) : Bool := c = d.delimiter || c = d.quotechar || c = d.cr || c = d.lf

/-- Every quote is doubled. -/
def double (s : List α) : List α := s.flatMap fun c => if c = d.quotechar then [c, c] else [c]

def quote (s : List α) : List α := d.quotechar :: (double d s ++ [d.quotechar])

/-- A field of a row; an empty one is quoted where it stands alone. -/
def writeField (alone : Bool) (s : List α) : List α := if s.any (special d) || alone && s.isEmpty then quote d s else s

/-- The fields that follow a field. -/
def writeRest (row : List (List α)) : List α := row.flatMap fun s => d.delimiter :: writeField d false s

def writeRow : List (List α) → List α
  | [] => [d.cr, d.lf]
  | s :: row => writeField d row.isEmpty s ++ (writeRest d row ++ [d.cr, d.lf])

def write (rows : List (List (List α))) : List α := rows.flatMap (writeRow d)

/-! ## The reader -/

inductive Mode where
  | startRecord
  | startField
  | inField
  | inQuotedField
  | quoteInQuotedField
  | eatCrnl
  deriving DecidableEq

structure Reader (α : Type) where
  mode : Mode
  field : List α
  fields : List (List α)
  rows : List (List (List α))

def Reader.init : Reader α := ⟨.startRecord, [], [], []⟩

namespace Reader

def add (r : Reader α) (c : α) (mode : Mode) : Reader α := { r with mode, field := r.field ++ [c] }

def save (r : Reader α) (mode : Mode) : Reader α := { r with mode, field := [], fields := r.fields ++ [r.field] }

/-- The row is complete. -/
def emit (r : Reader α) : Reader α := { r with fields := [], field := [], rows := r.rows ++ [r.fields] }

/-- At a character where a field is expected. -/
def start (r : Reader α) (c : α) : Reader α :=
  if c = d.lf ∨ c = d.cr then r.save .eatCrnl
  else if c = d.quotechar then { r with mode := .inQuotedField }
  else if c = d.delimiter then r.save .startField
  else r.add c .inField

/-- A character. -/
def char (r : Reader α) (c : α) : Option (Reader α) :=
  match r.mode with
  | .startRecord => some (if c = d.lf ∨ c = d.cr then { r with mode := .eatCrnl } else r.start d c)
  | .startField => some (r.start d c)
  | .inField =>
    some (if c = d.lf ∨ c = d.cr then r.save .eatCrnl
      else if c = d.delimiter then r.save .startField else r.add c .inField)
  | .inQuotedField => some (if c = d.quotechar then { r with mode := .quoteInQuotedField } else r.add c .inQuotedField)
  | .quoteInQuotedField =>
    some (if c = d.quotechar then r.add c .inQuotedField
      else if c = d.delimiter then r.save .startField
      else if c = d.lf ∨ c = d.cr then r.save .eatCrnl else r.add c .inField)
  -- a new line inside a line
  | .eatCrnl => if c = d.lf ∨ c = d.cr then some r else none

/-- The end of a line, which ends the row unless a field is quoted. -/
def endLine (r : Reader α) : Reader α :=
  match r.mode with
  | .startRecord => r.emit
  | .startField | .inField | .quoteInQuotedField => (r.save .startRecord).emit
  | .inQuotedField => r
  | .eatCrnl => { r with mode := .startRecord }.emit

end Reader

/-- Goes through a text. A line ends at a line feed, at a carriage return that no
line feed follows, and at the end of the text. -/
def run : Reader α → List α → Option (Reader α)
  | r, [] => some r
  | r, c :: text =>
    (r.char d c).bind fun r' =>
      if c = d.lf ∨ c = d.cr ∧ text.head? ≠ some d.lf ∨ text = [] then run r'.endLine text else run r' text

/-- The rows; a row with an open quote ends at the end of the text. -/
def Reader.finish (r : Reader α) : List (List (List α)) :=
  if r.mode = .inQuotedField then r.rows ++ [r.fields ++ [r.field]] else r.rows

def read (text : List α) : Option (List (List (List α))) := (run d .init text).map Reader.finish

/-! ## What the reader makes of a field -/

variable {d}

omit [DecidableEq α] in
theorem Dialect.distinct (d : Dialect α) : d.quotechar ≠ d.delimiter ∧ d.delimiter ≠ d.lf ∧ d.delimiter ≠ d.cr ∧
    d.quotechar ≠ d.lf ∧ d.quotechar ≠ d.cr ∧ d.cr ≠ d.lf := by
  have h := d.nodup
  simp only [List.nodup_cons, List.mem_cons, List.not_mem_nil, or_false, not_or] at h
  exact ⟨Ne.symm h.1.1, h.1.2.2, h.1.2.1, h.2.1.2, h.2.1.1, h.2.2.1⟩

theorem special_eq_false {c : α} (h : special d c = false) :
    c ≠ d.delimiter ∧ c ≠ d.quotechar ∧ c ≠ d.cr ∧ c ≠ d.lf := by
  simpa [special, not_or, and_assoc] using h

/-- A character that ends no line. -/
theorem run_cons {r : Reader α} (r' : Reader α) {c : α} {text : List α} (hlf : c ≠ d.lf) (hcr : c ≠ d.cr)
    (htext : text ≠ []) (h : r.char d c = some r') : run d r (c :: text) = run d r' text := by
  simp [run, h, hlf, hcr, htext]

/-- The end of a line changes nothing where a field is quoted. -/
theorem run_quoted {r : Reader α} (r' : Reader α) {c : α} {text : List α} (h : r.char d c = some r')
    (hmode : r'.mode = .inQuotedField) : run d r (c :: text) = run d r' text := by
  have hend : r'.endLine = r' := by simp [Reader.endLine, hmode]
  simp [run, h, hend]

theorem run_crlf {r : Reader α} (r' r'' : Reader α) {text : List α} (h : r.char d d.cr = some r')
    (h' : r'.char d d.lf = some r'') :
    run d r (d.cr :: d.lf :: text) = run d r''.endLine text := by
  have hne := d.distinct.2.2.2.2.2
  simp [run, h, h', hne]

/-- What is inside the quotes. -/
theorem run_double (s : List α) {r : Reader α} {text : List α} (hmode : r.mode = .inQuotedField) :
    run d r (double d s ++ text) = run d { r with field := r.field ++ s } text := by
  obtain ⟨-, -, -, hlf, hcr, -⟩ := d.distinct
  induction s generalizing r with
  | nil => simp [double]
  | cons c s ih =>
    by_cases hc : c = d.quotechar
    · subst hc
      have hcons : double d (d.quotechar :: s) ++ text = d.quotechar :: d.quotechar :: (double d s ++ text) := by
        simp [double]
      rw [hcons, run_cons { r with mode := .quoteInQuotedField } hlf hcr (List.cons_ne_nil _ _)
        (by simp [Reader.char, hmode])]
      rw [run_quoted (r.add d.quotechar .inQuotedField) (by simp [Reader.char, Reader.add]) rfl]
      rw [ih rfl]
      simp [Reader.add, hmode]
    · have hcons : double d (c :: s) ++ text = c :: (double d s ++ text) := by simp [double, hc]
      rw [hcons, run_quoted (r.add c .inQuotedField) (by simp [Reader.char, hmode, hc]) rfl, ih rfl]
      simp [Reader.add, hmode]

/-- What needs no quotes, after its first character. -/
theorem run_plain (s : List α) {r : Reader α} {text : List α} (hs : ∀ c ∈ s, special d c = false)
    (hmode : r.mode = .inField) (htext : text ≠ []) :
    run d r (s ++ text) = run d { r with field := r.field ++ s } text := by
  induction s generalizing r with
  | nil => simp
  | cons c s ih =>
    obtain ⟨hc, hs⟩ := List.forall_mem_cons.1 hs
    obtain ⟨hdelim, hquote, hcr, hlf⟩ := special_eq_false hc
    rw [List.cons_append, run_cons (r.add c .inField) hlf hcr (by simp [htext])
      (by simp [Reader.char, hmode, hlf, hcr, hdelim]), ih hs rfl]
    simp [Reader.add, hmode]

/-- A reader where a field was read to its end. -/
structure HasField (r : Reader α) (s : List α) (r' : Reader α) : Prop where
  mode : r'.mode = .startField ∨ r'.mode = .inField ∨ r'.mode = .quoteInQuotedField
  field : r'.field = s
  fields : r'.fields = r.fields
  rows : r'.rows = r.rows

theorem run_writeField (alone : Bool) (s : List α) {r : Reader α} {text : List α} (hmode : r.mode = .startField)
    (hfield : r.field = []) (htext : text ≠ []) :
    ∃ r', HasField r s r' ∧ run d r (writeField d alone s ++ text) = run d r' text := by
  obtain ⟨-, -, -, hlf, hcr, -⟩ := d.distinct
  rw [writeField]
  split
  · refine ⟨{ r with mode := .quoteInQuotedField, field := s }, ⟨.inr (.inr rfl), rfl, rfl, rfl⟩, ?_⟩
    have hquote : quote d s ++ text = d.quotechar :: (double d s ++ d.quotechar :: text) := by simp [quote]
    rw [hquote, run_quoted { r with mode := .inQuotedField }
      (by simp [Reader.char, Reader.start, hmode, hlf, hcr]) rfl, run_double s rfl]
    rw [run_cons { r with mode := .quoteInQuotedField, field := s } hlf hcr htext
      (by simp [Reader.char, hfield])]
  · rename_i hplain
    cases s with
    | nil => exact ⟨r, ⟨.inl hmode, hfield, rfl, rfl⟩, rfl⟩
    | cons c s =>
      have hall : ∀ b ∈ c :: s, special d b = false := by simpa using hplain
      obtain ⟨hc, hs⟩ := List.forall_mem_cons.1 hall
      obtain ⟨hdelim, hquote, hccr, hclf⟩ := special_eq_false hc
      refine ⟨{ r with mode := .inField, field := c :: s }, ⟨.inr (.inl rfl), rfl, rfl, rfl⟩, ?_⟩
      rw [List.cons_append, run_cons (r.add c .inField) hclf hccr (by simp [htext])
        (by simp [Reader.char, Reader.start, hmode, hclf, hccr, hquote, hdelim]), run_plain s hs rfl htext]
      simp [Reader.add, hfield]

theorem HasField.delimiter {r r' : Reader α} {s text : List α} (h : HasField r s r') (htext : text ≠ []) :
    run d r' (d.delimiter :: text) = run d ⟨.startField, [], r.fields ++ [s], r.rows⟩ text := by
  obtain ⟨hquote, hlf, hcr, -⟩ := d.distinct
  obtain ⟨hmode, rfl, hfields, hrows⟩ := h
  refine run_cons _ hlf hcr htext ?_
  rw [← hfields, ← hrows]
  rcases hmode with hmode | hmode | hmode <;>
    simp [Reader.char, Reader.start, Reader.save, hmode, hlf, hcr, hquote.symm]

theorem HasField.newline {r r' : Reader α} {s : List α} (h : HasField r s r') (text : List α) :
    run d r' (d.cr :: d.lf :: text) = run d ⟨.startRecord, [], [], r.rows ++ [r.fields ++ [s]]⟩ text := by
  obtain ⟨-, -, hdcr, -, hqcr, -⟩ := d.distinct
  obtain ⟨hmode, rfl, hfields, hrows⟩ := h
  have hsave : r'.char d d.cr = some (r'.save .eatCrnl) := by
    rcases hmode with hmode | hmode | hmode <;>
      simp [Reader.char, Reader.start, Reader.save, hmode, hdcr.symm, hqcr.symm]
  rw [run_crlf _ (r'.save .eatCrnl) hsave (by simp [Reader.char, Reader.save]), ← hfields, ← hrows]
  rfl

/-! ## What the reader makes of rows -/

theorem writeRest_ne_nil (row : List (List α)) (text : List α) :
    writeRest d row ++ (d.cr :: d.lf :: text) ≠ [] := by simp

/-- The fields after the first, up to the end of the row. -/
theorem run_writeRest {row : List (List α)} {r r' : Reader α} {s : List α} (h : HasField r s r') (text : List α) :
    run d r' (writeRest d row ++ (d.cr :: d.lf :: text)) =
      run d ⟨.startRecord, [], [], r.rows ++ [r.fields ++ s :: row]⟩ text := by
  induction row generalizing r r' s with
  | nil => exact h.newline text
  | cons t row ih =>
    have hcons : writeRest d (t :: row) ++ (d.cr :: d.lf :: text) =
        d.delimiter :: (writeField d false t ++ (writeRest d row ++ (d.cr :: d.lf :: text))) := by simp [writeRest]
    rw [hcons, h.delimiter (by simp)]
    obtain ⟨r'', hfield, hrun⟩ := run_writeField (d := d) false t
      (r := ⟨.startField, [], r.fields ++ [s], r.rows⟩) rfl rfl (writeRest_ne_nil row text)
    rw [hrun, ih hfield]
    simp

/-- At the start of a row any character but a new line is one where a field is
expected. -/
theorem run_startRecord (row : List (List α)) (s text : List α) (rows : List (List (List α))) :
    run d ⟨.startRecord, [], [], rows⟩ (writeRow d (s :: row) ++ text) =
      run d ⟨.startField, [], [], rows⟩ (writeRow d (s :: row) ++ text) := by
  obtain ⟨-, hdlf, hdcr, hlf, hcr, -⟩ := d.distinct
  have hhead : ∃ c rest, writeRow d (s :: row) ++ text = c :: rest ∧ c ≠ d.lf ∧ c ≠ d.cr := by
    rw [writeRow, writeField]
    split
    · exact ⟨d.quotechar, _, rfl, hlf, hcr⟩
    · rename_i hplain
      cases s with
      | nil =>
        cases row with
        | nil => simp at hplain
        | cons t row => exact ⟨d.delimiter, _, rfl, hdlf, hdcr⟩
      | cons c s =>
        have hall : ∀ b ∈ c :: s, special d b = false := by simpa using hplain
        obtain ⟨-, -, hccr, hclf⟩ := special_eq_false (hall c List.mem_cons_self)
        exact ⟨c, _, rfl, hclf, hccr⟩
  obtain ⟨c, rest, hcons, hclf, hccr⟩ := hhead
  have hstart : Reader.start d ⟨.startRecord, [], [], rows⟩ c = Reader.start d ⟨.startField, [], [], rows⟩ c := rfl
  rw [hcons]
  simp [run, Reader.char, hclf, hccr, hstart]

theorem run_writeRow (row : List (List α)) (text : List α) (rows : List (List (List α))) :
    run d ⟨.startRecord, [], [], rows⟩ (writeRow d row ++ text) = run d ⟨.startRecord, [], [], rows ++ [row]⟩ text := by
  cases row with
  | nil =>
    rw [writeRow, List.cons_append, List.cons_append, List.nil_append]
    rw [run_crlf ⟨.eatCrnl, [], [], rows⟩ ⟨.eatCrnl, [], [], rows⟩ (by simp [Reader.char])
      (by simp [Reader.char])]
    rfl
  | cons s row =>
    rw [run_startRecord, writeRow, List.append_assoc, List.append_assoc]
    obtain ⟨r', hfield, hrun⟩ := run_writeField (d := d) row.isEmpty s
      (r := ⟨.startField, [], [], rows⟩) rfl rfl (writeRest_ne_nil row text)
    exact hrun.trans (run_writeRest hfield text)

/-- The reader yields the rows that were written. -/
theorem read_write (rows : List (List (List α))) : read d (write d rows) = some rows := by
  have hrun : ∀ before, run d ⟨.startRecord, [], [], before⟩ (write d rows) =
      some ⟨.startRecord, [], [], before ++ rows⟩ := by
    induction rows with
    | nil => simp [write, run]
    | cons row rows ih =>
      intro before
      rw [write, List.flatMap_cons, run_writeRow]
      simpa [write] using ih (before ++ [row])
  rw [read, Reader.init, hrun]
  rfl

end SysLib.Csv
