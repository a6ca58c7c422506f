import Mathlib.Data.List.Basic

/-!
# Comma-separated values

The format of RFC 4180: records end with a line break, fields are separated by commas, and a
field stands bare, if it contains no comma, quote or line-break character, or between quotes,
its own quotes doubled.  A line feed alone counts as a line break.

* `Text` — the grammar: the texts of a list of rows.
* `read` — a reader, as an automaton over the characters.
* `read_text` — the reader recovers the rows of every text; so no text has two readings
  (`Text.unique`).
-/

set_option autoImplicit false

namespace Csv

abbrev Row := List (List Char)

/-! ## Grammar -/

/-- A field that may stand without quotes. -/
def Bare (f : List Char) : Prop := ∀ c ∈ f, c ≠ ',' ∧ c ≠ '"' ∧ c ≠ '\r' ∧ c ≠ '\n'

instance (f : List Char) : Decidable (Bare f) := List.decidableBAll _ f

/-- The content of a quoted field. -/
def doubled (f : List Char) : List Char := f.flatMap fun c => if c = '"' then ['"', '"'] else [c]

inductive FieldText : List Char → List Char → Prop where
  | bare {f : List Char} (h : Bare f) : FieldText f f
  | quoted (f : List Char) : FieldText f ('"' :: (doubled f ++ ['"']))

inductive LineBreak : List Char → Prop where
  | lf : LineBreak ['\n']
  | crlf : LineBreak ['\r', '\n']

/-- A record with its line break. -/
inductive RowText : Row → List Char → Prop where
  | last {f w b : List Char} : FieldText f w → LineBreak b → RowText [f] (w ++ b)
  | cons {f w v : List Char} {row : Row} : FieldText f w → RowText row v →
      RowText (f :: row) (w ++ ',' :: v)

inductive Text : List Row → List Char → Prop where
  | nil : Text [] []
  | cons {row : Row} {rows : List Row} {w v : List Char} : RowText row w → Text rows v →
      Text (row :: rows) (w ++ v)

theorem Text.append {rows rows' : List Row} {w w' : List Char} (h : Text rows w)
    (h' : Text rows' w') : Text (rows ++ rows') (w ++ w') := by
  induction h with
  | nil => exact h'
  | cons hrow _ ih =>
    rw [List.append_assoc]
    exact .cons hrow ih

/-! ## Reader -/

/-- Where the reader stands in a field. -/
inductive Mode where
  | start
  | bare
  | quoted
  /-- behind a quote inside a quoted field -/
  | closing
  /-- behind a carriage return -/
  | ending
  deriving DecidableEq, Repr

/-- What has been read: the rows, the fields of the unfinished row, the unfinished field. -/
structure State where
  rows : List Row := []
  row : Row := []
  field : List Char := []
  mode : Mode := .start
  deriving DecidableEq, Repr

namespace State

def endField (s : State) : State :=
  { s with row := s.row ++ [s.field], field := [], mode := .start }

def endRow (s : State) : State :=
  { rows := s.rows ++ [s.row ++ [s.field]], row := [], field := [], mode := .start }

def add (s : State) (mode : Mode) (c : Char) : State :=
  { s with field := s.field ++ [c], mode := mode }

/-- A character behind a complete field. -/
def separate (s : State) (c : Char) : Option State :=
  if c = ',' then some s.endField
  else if c = '\n' then some s.endRow
  else if c = '\r' then some { s with mode := .ending }
  else none

def step (s : State) (c : Char) : Option State :=
  match s.mode with
  | .start =>
    if c = '"' then some { s with mode := .quoted }
    else (s.separate c).orElse fun _ => some (s.add .bare c)
  | .bare => if c = '"' then none else (s.separate c).orElse fun _ => some (s.add .bare c)
  | .quoted => some (if c = '"' then { s with mode := .closing } else s.add .quoted c)
  | .closing => if c = '"' then some (s.add .quoted '"') else s.separate c
  | .ending => if c = '\n' then some s.endRow else none

def run : State → List Char → Option State
  | s, [] => some s
  | s, c :: cs => (s.step c).bind fun s => s.run cs

end State

/-- The rows of a text, if it is well formed. -/
def read (w : List Char) : Option (List Row) :=
  (State.run {} w).bind fun s => if s.mode = .start ∧ s.row = [] then some s.rows else none

example : read "a,\"b,\"\"c\r\nd\"\n\r\n".toList =
    some [["a".toList, "b,\"c\r\nd".toList], [[]]] := by decide

/-! ## The reader recovers the rows -/

namespace State

theorem run_append (s : State) (u v : List Char) :
    s.run (u ++ v) = (s.run u).bind fun s => s.run v := by
  induction u generalizing s with
  | nil => rfl
  | cons c u ih =>
    rw [List.cons_append, run, run]
    cases s.step c with
    | none => rfl
    | some s' => exact ih s'

theorem separate_of_bare {s : State} {c : Char} (h : c ≠ ',' ∧ c ≠ '"' ∧ c ≠ '\r' ∧ c ≠ '\n') :
    s.separate c = none := by
  unfold separate
  rw [if_neg h.1, if_neg h.2.2.2, if_neg h.2.2.1]

/-- The reader inside a bare field. -/
theorem run_bare {rows : List Row} {row : Row} {f : List Char} (hf : Bare f) (g : List Char) :
    run ⟨rows, row, g, .bare⟩ f = some ⟨rows, row, g ++ f, .bare⟩ := by
  induction f generalizing g with
  | nil => rw [List.append_nil, run]
  | cons c f ih =>
    have hc := hf c (List.mem_cons_self ..)
    have hstep : step ⟨rows, row, g, .bare⟩ c = some ⟨rows, row, g ++ [c], .bare⟩ := by
      simp only [step, if_neg hc.2.1, separate_of_bare hc]
      rfl
    rw [run, hstep, Option.bind_some, ih fun c' h' => hf c' (List.mem_cons_of_mem _ h'),
      List.append_assoc]
    rfl

/-- The reader inside a quoted field. -/
theorem run_quoted {rows : List Row} {row : Row} (f g : List Char) :
    run ⟨rows, row, g, .quoted⟩ (doubled f) = some ⟨rows, row, g ++ f, .quoted⟩ := by
  induction f generalizing g with
  | nil => rw [List.append_nil]; rfl
  | cons c f ih =>
    have hcons : doubled (c :: f) = (if c = '"' then ['"', '"'] else [c]) ++ doubled f := rfl
    have hone : run ⟨rows, row, g, .quoted⟩ (if c = '"' then ['"', '"'] else [c]) =
        some ⟨rows, row, g ++ [c], .quoted⟩ := by
      by_cases hq : c = '"'
      · rw [if_pos hq, hq]
        rfl
      · rw [if_neg hq]
        simp only [run, step, if_neg hq, Option.bind_some]
        rfl
    rw [hcons, run_append, hone, Option.bind_some, ih, List.append_assoc]
    rfl

/-- Behind a complete field of a row. -/
def Behind (s : State) (rows : List Row) (row : Row) (f : List Char) : Prop :=
  s.rows = rows ∧ s.row = row ∧ s.field = f ∧
    ((s.mode = .start ∧ f = []) ∨ s.mode = .bare ∨ s.mode = .closing)

/-- The text of a field takes the reader behind it. -/
theorem run_field (rows : List Row) (row : Row) {f w : List Char} (h : FieldText f w) :
    ∃ s, run ⟨rows, row, [], .start⟩ w = some s ∧ s.Behind rows row f := by
  cases h with
  | bare hf =>
    cases f with
    | nil => exact ⟨_, rfl, rfl, rfl, rfl, .inl ⟨rfl, rfl⟩⟩
    | cons c f =>
      have hc := hf c (List.mem_cons_self ..)
      have hstep : step ⟨rows, row, [], .start⟩ c = some ⟨rows, row, [c], .bare⟩ := by
        simp only [step, if_neg hc.2.1, separate_of_bare hc]
        rfl
      refine ⟨⟨rows, row, c :: f, .bare⟩, ?_, rfl, rfl, rfl, .inr (.inl rfl)⟩
      rw [run, hstep, Option.bind_some, run_bare fun c' h' => hf c' (List.mem_cons_of_mem _ h')]
      rfl
  | quoted =>
    refine ⟨⟨rows, row, f, .closing⟩, ?_, rfl, rfl, rfl, .inr (.inr rfl)⟩
    have hopen : step ⟨rows, row, [], .start⟩ '"' = some ⟨rows, row, [], .quoted⟩ := rfl
    rw [run, hopen, Option.bind_some, run_append, run_quoted, Option.bind_some]
    rfl

/-- Behind a field, the characters that separate do what they say. -/
theorem Behind.step {s : State} {rows : List Row} {row : Row} {f : List Char}
    (h : s.Behind rows row f) {c : Char} (hc : c ≠ '"') {s' : State} (hs : s.separate c = some s') :
    s.step c = some s' := by
  obtain ⟨-, -, -, hmode⟩ := h
  unfold State.step
  rcases hmode with ⟨hmode, -⟩ | hmode | hmode <;> rw [hmode] <;> simp only [if_neg hc, hs] <;> rfl

theorem Behind.comma {s : State} {rows : List Row} {row : Row} {f : List Char}
    (h : s.Behind rows row f) : s.step ',' = some ⟨rows, row ++ [f], [], .start⟩ := by
  refine h.step (by decide) ?_
  obtain ⟨rfl, rfl, rfl, -⟩ := h
  rfl

theorem Behind.lineBreak {s : State} {rows : List Row} {row : Row} {f b : List Char}
    (h : s.Behind rows row f) (hb : LineBreak b) :
    s.run b = some ⟨rows ++ [row ++ [f]], [], [], .start⟩ := by
  cases hb with
  | lf =>
    have hstep : s.step '\n' = some s.endRow := h.step (by decide) rfl
    obtain ⟨rfl, rfl, rfl, -⟩ := h
    rw [run, hstep]
    rfl
  | crlf =>
    have hstep : s.step '\r' = some { s with mode := .ending } := h.step (by decide) rfl
    obtain ⟨rfl, rfl, rfl, -⟩ := h
    rw [run, hstep]
    rfl

theorem run_row {rows : List Row} {row : Row} {w : List Char} (h : RowText row w) :
    ∀ before : Row, run ⟨rows, before, [], .start⟩ w = some ⟨rows ++ [before ++ row], [], [], .start⟩ := by
  induction h with
  | last hf hb =>
    intro before
    obtain ⟨s, hrun, hs⟩ := run_field rows before hf
    rw [run_append, hrun, Option.bind_some, hs.lineBreak hb]
  | cons hf _ ih =>
    intro before
    obtain ⟨s, hrun, hs⟩ := run_field rows before hf
    rw [run_append, hrun, Option.bind_some, run, hs.comma, Option.bind_some, ih, List.append_assoc]
    rfl

theorem run_text {rows : List Row} {w : List Char} (h : Text rows w) : ∀ before : List Row,
    run ⟨before, [], [], .start⟩ w = some ⟨before ++ rows, [], [], .start⟩ := by
  induction h with
  | nil =>
    intro before
    rw [List.append_nil, run]
  | cons hrow _ ih =>
    intro before
    rw [run_append, run_row hrow, Option.bind_some, ih, List.append_assoc]
    rfl

end State

/-- **The reader recovers the rows.** -/
theorem read_text {rows : List Row} {w : List Char} (h : Text rows w) : read w = some rows := by
  unfold read
  rw [State.run_text h, Option.bind_some, if_pos ⟨rfl, rfl⟩]
  rfl

/-- **A text has one reading.** -/
theorem Text.unique {rows rows' : List Row} {w : List Char} (h : Text rows w)
    (h' : Text rows' w) : rows = rows' :=
  Option.some.inj ((read_text h).symm.trans (read_text h'))

end Csv
