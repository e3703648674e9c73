/-
This file reads tables of delimited cells, where a cell may stand in quotes and a quote inside
one is written twice.

The reader is a loop over the letters, and what it does with a cell depends on what follows the
cell only at a closing quote. A cell written in quotes, or as it is where no letter in it means
anything to the reader, is read back up to the delimiter or the line feed behind it; from there a
line of cells is read back by induction on the cells, and a table on its lines.
-/

import Mathlib.Data.List.Basic

namespace Oryxis.Library.Delimited

open List

abbrev Cell := List Char

/-- What the reader has of the table so far. -/
structure Reading where
  rows : List (List Cell)
  row : List Cell
  field : Cell
  inQuotes : Bool

def Reading.start : Reading := ⟨[], [], [], false⟩

namespace Reading

variable (reading : Reading)

def push (letter : Char) : Reading := { reading with field := reading.field ++ [letter] }

def endField : Reading := { reading with row := reading.row ++ [reading.field], field := [] }

def endRow : Reading :=
  { reading with
    rows := reading.rows ++ [reading.row ++ [reading.field]]
    row := []
    field := [] }

end Reading

def readFrom (delimiter : Char) : List Char → Reading → Reading
  | [], reading => reading
  | letter :: rest, reading =>
    if reading.inQuotes then
      if letter = '"' then
        match rest with
        | [] => { reading with inQuotes := false }
        | next :: behind =>
          if next = '"' then readFrom delimiter behind (reading.push '"')
          else readFrom delimiter (next :: behind) { reading with inQuotes := false }
      else readFrom delimiter rest (reading.push letter)
    else if letter = '"' && reading.field.isEmpty then
      readFrom delimiter rest { reading with inQuotes := true }
    else if letter = delimiter then readFrom delimiter rest reading.endField
    else if letter = '\r' then readFrom delimiter rest reading
    else if letter = '\n' then readFrom delimiter rest reading.endRow
    else readFrom delimiter rest (reading.push letter)

theorem readFrom_outside (delimiter letter : Char) (rest : List Char) (rows : List (List Cell))
    (row : List Cell) (field : Cell) :
    let reading : Reading := ⟨rows, row, field, false⟩
    readFrom delimiter (letter :: rest) reading =
      if letter = '"' && field.isEmpty then
        readFrom delimiter rest ⟨rows, row, field, true⟩
      else if letter = delimiter then readFrom delimiter rest reading.endField
      else if letter = '\r' then readFrom delimiter rest reading
      else if letter = '\n' then readFrom delimiter rest reading.endRow
      else readFrom delimiter rest (reading.push letter) := by
  cases rest with
  | nil => rfl
  | cons next rest => rfl

theorem readFrom_inside {letter : Char} (ordinary : letter ≠ '"') (delimiter : Char)
    (rest : List Char) (rows : List (List Cell)) (row : List Cell) (field : Cell) :
    readFrom delimiter (letter :: rest) ⟨rows, row, field, true⟩ =
      readFrom delimiter rest ⟨rows, row, field ++ [letter], true⟩ := by
  cases rest with
  | nil => exact if_neg ordinary
  | cons next rest => exact if_neg ordinary

/-- The rows of a text, the last one also without a line feed. -/
def read (delimiter : Char) (text : List Char) : List (List Cell) :=
  let reading := readFrom delimiter text Reading.start
  if !reading.field.isEmpty || !reading.row.isEmpty then
    reading.rows ++ [reading.row ++ [reading.field]]
  else reading.rows

/-! ### Cells -/

/-- Every quote twice. -/
def doubled (cell : Cell) : List Char :=
  cell.flatMap fun letter => if letter = '"' then ['"', '"'] else [letter]

def quoted (cell : Cell) : List Char := ['"'] ++ doubled cell ++ ['"']

/-- Letters that mean something to the reader. -/
def isSpecial (delimiter letter : Char) : Bool :=
  letter = '"' || letter = delimiter || letter = '\r' || letter = '\n'

/-- Texts that stand for a cell. -/
def Stands (delimiter : Char) (written : List Char) (cell : Cell) : Prop :=
  written = quoted cell ∨ written = cell ∧ ∀ letter ∈ cell, isSpecial delimiter letter = false

section Reader

variable {delimiter : Char}

variable {next : Char}

theorem readFrom_doubled (cell : Cell) (other : next ≠ '"') (rest : List Char)
    (rows : List (List Cell)) (row : List Cell) (field : Cell) :
    readFrom delimiter (doubled cell ++ '"' :: next :: rest) ⟨rows, row, field, true⟩ =
      readFrom delimiter (next :: rest) ⟨rows, row, field ++ cell, false⟩ := by
  induction cell generalizing field with
  | nil =>
    rw [append_nil]
    show readFrom delimiter ('"' :: next :: rest) _ = _
    rw [readFrom, if_pos rfl, if_pos rfl, if_neg other]
  | cons letter cell inductionHypothesis =>
    have moved : field ++ letter :: cell = (field ++ [letter]) ++ cell :=
      append_cons field letter cell
    rw [moved, ← inductionHypothesis]
    by_cases quote : letter = '"'
    · subst quote
      show readFrom delimiter ('"' :: '"' :: (doubled cell ++ '"' :: next :: rest)) _ = _
      rw [readFrom, if_pos rfl, if_pos rfl, if_pos rfl]
      rfl
    · have written : doubled (letter :: cell) = letter :: doubled cell := by
        rw [doubled, flatMap_cons, if_neg quote]
        rfl
      rw [written, cons_append, readFrom_inside quote]

variable {cell : Cell}

theorem readFrom_plain (plain : ∀ letter ∈ cell, isSpecial delimiter letter = false)
    (rest : List Char) (rows : List (List Cell)) (row : List Cell) (field : Cell) :
    readFrom delimiter (cell ++ rest) ⟨rows, row, field, false⟩ =
      readFrom delimiter rest ⟨rows, row, field ++ cell, false⟩ := by
  induction cell generalizing field with
  | nil => rw [nil_append, append_nil]
  | cons letter cell inductionHypothesis =>
    obtain ⟨ordinary, others⟩ := forall_mem_cons.mp plain
    simp only [isSpecial, Bool.or_eq_false_iff, decide_eq_false_iff_not] at ordinary
    obtain ⟨⟨⟨quote, delimits⟩, carriage⟩, feed⟩ := ordinary
    rw [append_cons field letter cell, ← inductionHypothesis others, cons_append,
      readFrom_outside, decide_eq_false quote, Bool.false_and, if_neg Bool.false_ne_true,
      if_neg delimits, if_neg carriage, if_neg feed]
    rfl

/-- What stands for a cell is read as the cell up to the letter behind it. -/
theorem readFrom_stands {written : List Char} (stands : Stands delimiter written cell)
    (other : next ≠ '"') (rest : List Char) (rows : List (List Cell)) (row : List Cell) :
    readFrom delimiter (written ++ next :: rest) ⟨rows, row, [], false⟩ =
      readFrom delimiter (next :: rest) ⟨rows, row, cell, false⟩ := by
  rcases stands with rfl | ⟨rfl, plain⟩
  · rw [quoted, append_assoc, append_assoc, singleton_append,
      singleton_append, readFrom_outside]
    exact readFrom_doubled cell other rest rows row []
  · exact readFrom_plain plain (next :: rest) rows row []

variable (notQuote : delimiter ≠ '"') (notFeed : delimiter ≠ '\n')

include notQuote

theorem readFrom_delimiter (rest : List Char) (rows : List (List Cell)) (row : List Cell)
    (cell : Cell) :
    readFrom delimiter (delimiter :: rest) ⟨rows, row, cell, false⟩ =
      readFrom delimiter rest ⟨rows, row ++ [cell], [], false⟩ := by
  rw [readFrom_outside, decide_eq_false notQuote, Bool.false_and, if_neg Bool.false_ne_true,
    if_pos rfl]
  rfl

omit notQuote

include notFeed

theorem readFrom_feed (rest : List Char) (rows : List (List Cell)) (row : List Cell)
    (cell : Cell) :
    readFrom delimiter ('\n' :: rest) ⟨rows, row, cell, false⟩ =
      readFrom delimiter rest ⟨rows ++ [row ++ [cell]], [], [], false⟩ := by
  rw [readFrom_outside, decide_eq_false (by decide), Bool.false_and, if_neg Bool.false_ne_true,
    if_neg (Ne.symm notFeed), if_neg (by decide), if_pos rfl]
  rfl

/-! ### Tables -/

variable {write : Cell → List Char} (stands : ∀ cell, Stands delimiter (write cell) cell)

/-- Cells with delimiters between them, and a line feed. -/
def writeRow (delimiter : Char) (write : Cell → List Char) (cells : List Cell) : List Char :=
  List.intercalate [delimiter] (cells.map write) ++ ['\n']

include notQuote stands

theorem readFrom_writeRow (first : Cell) (others : List Cell) (rest : List Char)
    (rows : List (List Cell)) (row : List Cell) :
    readFrom delimiter (writeRow delimiter write (first :: others) ++ rest) ⟨rows, row, [], false⟩ =
      readFrom delimiter rest ⟨rows ++ [row ++ first :: others], [], [], false⟩ := by
  induction others generalizing first row with
  | nil =>
    rw [writeRow, append_assoc, singleton_append]
    show readFrom delimiter (List.intercalate [delimiter] [write first] ++ _) _ = _
    rw [intercalate_singleton, readFrom_stands (stands first) (by decide),
      readFrom_feed notFeed]
  | cons second others inductionHypothesis =>
    have written : writeRow delimiter write (first :: second :: others) ++ rest =
        write first ++ delimiter :: (writeRow delimiter write (second :: others) ++ rest) := by
      simp only [writeRow, map_cons, intercalate_cons_cons, append_assoc,
        cons_append, nil_append]
    rw [written, readFrom_stands (stands first) notQuote, readFrom_delimiter notQuote,
      inductionHypothesis, append_assoc, singleton_append]

variable {table : List (List Cell)}

theorem readFrom_writeRows (nonempty : ∀ row ∈ table, row ≠ []) (rows : List (List Cell)) :
    readFrom delimiter (table.flatMap (writeRow delimiter write)) ⟨rows, [], [], false⟩ =
      ⟨rows ++ table, [], [], false⟩ := by
  induction table generalizing rows with
  | nil => rw [append_nil]; rfl
  | cons row table inductionHypothesis =>
    obtain ⟨some, others⟩ := forall_mem_cons.mp nonempty
    obtain ⟨first, cells, rfl⟩ := exists_cons_of_ne_nil some
    rw [flatMap_cons, readFrom_writeRow notQuote notFeed stands, inductionHypothesis others,
      nil_append, append_assoc, singleton_append]

/-- A table is read back as it was written. -/
theorem read_writeRows (nonempty : ∀ row ∈ table, row ≠ []) :
    read delimiter (table.flatMap (writeRow delimiter write)) = table := by
  rw [read, Reading.start, readFrom_writeRows notQuote notFeed stands nonempty]
  rfl

end Reader

end Oryxis.Library.Delimited
