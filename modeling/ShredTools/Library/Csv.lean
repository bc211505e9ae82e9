import Mathlib.Data.List.Basic
import Mathlib.Tactic.Common

/-!
# Tables written as text

A table is a list of rows, and a row a list of fields.  It is written line by line, with commas
between the fields; a field is written as it is or in quotes, where its own quotes are doubled.  No
field has a line feed, so a line of the text is a row of the table.

`Field`, `Row` and `Table` relate what is written to what it stands for, so that one table has many
texts, and a reader can be proved right for all of them at once.  `Field.newline_notMem` and
`Row.newline_notMem` are what splitting into lines rests on; a row that is written as nothing has a
single field (`Row.length_of_nil`).
-/

namespace Csv

/-- A field whose quotes are doubled. -/
def doubled (field : List Char) : List Char :=
  field.flatMap fun c => if c = '"' then ['"', '"'] else [c]

/-- How a field may be written. -/
inductive Field : String → List Char → Prop
  /-- As it is, if it has none of the characters that mean something. -/
  | bare (field : List Char) (h : ∀ c ∈ field, c ∉ ['"', ',', '\r', '\n']) :
    Field (String.ofList field) field
  /-- In quotes. -/
  | quoted (field : List Char) (h : '\n' ∉ field) :
    Field (String.ofList field) ('"' :: doubled field ++ ['"'])

/-- How a row may be written. -/
inductive Row : List String → List Char → Prop
  /-- A row of one field. -/
  | single {field : String} {text : List Char} (h : Field field text) : Row [field] text
  /-- One more field before the others. -/
  | cons {field : String} {text : List Char} {row : List String} {line : List Char}
    (h : Field field text) (hrow : Row row line) : Row (field :: row) (text ++ ',' :: line)

/-- How a table may be written. -/
inductive Table : List (List String) → List Char → Prop
  /-- Nothing. -/
  | nil : Table [] []
  /-- The last line may do without a line end, if there is anything in it. -/
  | last {row : List String} {line : List Char} (h : Row row line) (hline : line ≠ []) :
    Table [row] line
  /-- One more line before the others. -/
  | cons {row : List String} {line stop : List Char} {rows : List (List String)}
    {text : List Char} (h : Row row line) (hstop : stop = [] ∨ stop = ['\r'])
    (hrows : Table rows text) : Table (row :: rows) (line ++ stop ++ '\n' :: text)

lemma newline_notMem_doubled {field : List Char} (h : '\n' ∉ field) : '\n' ∉ doubled field := by
  unfold doubled
  rw [List.mem_flatMap]
  rintro ⟨c, hc, hmem⟩
  split at hmem
  · simp at hmem
  · rw [List.mem_singleton] at hmem
    exact h (hmem ▸ hc)

/-- A field has no line feed. -/
theorem Field.newline_notMem {field : String} {text : List Char} (h : Field field text) :
    '\n' ∉ text := by
  cases h with
  | bare text h => exact fun hmem => h _ hmem (by simp)
  | quoted field h =>
    have := newline_notMem_doubled h
    simp [this]

/-- A row has no line feed. -/
theorem Row.newline_notMem {row : List String} {line : List Char} (h : Row row line) :
    '\n' ∉ line := by
  induction h with
  | single h => exact h.newline_notMem
  | cons h hrow ih =>
    have := h.newline_notMem
    simp [this, ih]

/-- No field ends in a carriage return. -/
lemma Field.getLast?_ne {field : String} {text : List Char} (h : Field field text) :
    text.getLast? ≠ some '\r' := by
  cases h with
  | bare text h =>
    intro hlast
    exact h _ (List.mem_of_getLast? hlast) (by simp)
  | quoted field h =>
    rw [List.getLast?_concat]
    decide

/-- No row ends in a carriage return. -/
lemma Row.getLast?_ne {row : List String} {line : List Char} (h : Row row line) :
    line.getLast? ≠ some '\r' := by
  induction h with
  | single h => exact h.getLast?_ne
  | @cons field text row line h hrow ih =>
    rw [List.getLast?_append_of_ne_nil _ (List.cons_ne_nil _ _)]
    cases line with
    | nil => simp
    | cons c line => rwa [List.getLast?_cons_cons]

/-- Only a row of one empty field gives an empty line. -/
theorem Row.length_of_nil {row : List String} (h : Row row []) : row.length = 1 := by
  generalize hline : ([] : List Char) = line at h
  cases h with
  | single h => rfl
  | cons h hrow => simp at hline

end Csv
