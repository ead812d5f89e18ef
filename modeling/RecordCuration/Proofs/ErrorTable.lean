import Mathlib.Tactic
import RecordCuration.Report

/-!
Error tables read back.

A delimited table is read character by character: a delimiter ends a cell, a line break ends a
record, and between quotes both stand for themselves and two quotes for one. What a cell is written
as leaves the reader with the cell, at a place where it can end; so the cells of a written table
come back one by one, whatever is in them, and with them those of an error table.
-/

namespace RecordCuration

namespace Text.Delimited

/-! ### Reading -/

/-- Outside quotes, between quotes, or after a quote that may have closed them. -/
inductive Mode where
  | bare
  | quoted
  | closing
  deriving DecidableEq

/-- The cell in progress, the cells before it in its record, and the records before that one. -/
structure Reading where
  mode : Mode
  cell : List Char
  cells : List (List Char)
  records : List (List (List Char))

namespace Reading

/-- At the start of a record. -/
def fresh (records : List (List (List Char))) : Reading := ⟨.bare, [], [], records⟩

def endCell (s : Reading) : Reading := ⟨.bare, [], s.cells ++ [s.cell], s.records⟩

def endRecord (s : Reading) : Reading := fresh (s.records ++ [s.cells ++ [s.cell]])

def add (s : Reading) (c : Char) : Reading := { s with cell := s.cell ++ [c] }

/-- A quote opens an empty cell, or after another one belongs to the cell. -/
def quote? (s : Reading) : Option Reading :=
  match s.mode, s.cell with
  | .bare, [] => some { s with mode := .quoted }
  | .closing, _ => some { s.add '"' with mode := .quoted }
  | _, _ => none

def step (delimiter : Char) (s : Reading) (c : Char) : Option Reading :=
  if s.mode = .quoted then some (if c = '"' then { s with mode := .closing } else s.add c)
  else if c = delimiter then some s.endCell
  else if c = '\n' then some s.endRecord
  else if c = '"' then s.quote?
  else if s.mode = .bare then some (s.add c)
  else none

/-- The records that were read; the last may lack its line break. -/
def finish (s : Reading) : Option (List (List (List Char))) :=
  if s.mode = .quoted then none
  else if s.mode = .bare ∧ s.cell = [] ∧ s.cells = [] then some s.records
  else some s.endRecord.records

end Reading

open Reading

/-- The records of a table; `none` when quotes stand where they cannot, or are not closed. -/
def read (delimiter : Char) (cs : List Char) : Option (List (List (List Char))) :=
  cs.foldlM (step delimiter) (fresh []) >>= finish

/-! ### Written cells -/

variable {delimiter : Char} {text : List Char} {cells : List (List Char)}
  {records : List (List (List Char))}

lemma step_delimiter {s : Reading} (h : s.mode ≠ .quoted) :
    step delimiter s delimiter = some s.endCell := by
  simp [step, h]

lemma step_newline {s : Reading} (h : s.mode ≠ .quoted) (hline : delimiter ≠ '\n') :
    step delimiter s '\n' = some s.endRecord := by
  simp [step, h, hline.symm]

/-- Text without a mark stands for itself. -/
lemma foldlM_plain (h : needsQuotes delimiter text = false) (content : List Char) :
    text.foldlM (step delimiter) ⟨.bare, content, cells, records⟩ =
      some ⟨.bare, content ++ text, cells, records⟩ := by
  induction text generalizing content with
  | nil => simp
  | cons c text ih =>
    rw [needsQuotes, List.any_cons, Bool.or_eq_false_iff] at h
    obtain ⟨hc, htext⟩ := h
    have hstep : step delimiter ⟨.bare, content, cells, records⟩ c =
        some ⟨.bare, content ++ [c], cells, records⟩ := by
      simp only [Bool.or_eq_false_iff, decide_eq_false_iff_not] at hc
      simp [step, hc, add]
    rw [List.foldlM_cons, hstep]
    simpa using ih htext (content ++ [c])

/-- Between quotes, two quotes stand for one and all else for itself. -/
lemma foldlM_doubleQuotes (hquote : delimiter ≠ '"') (text content : List Char) :
    (doubleQuotes text).foldlM (step delimiter) ⟨.quoted, content, cells, records⟩ =
      some ⟨.quoted, content ++ text, cells, records⟩ := by
  induction text generalizing content with
  | nil => simp [doubleQuotes]
  | cons c text ih =>
    have hcons : doubleQuotes (c :: text) =
        (if c = '"' then ['"', '"'] else [c]) ++ doubleQuotes text := rfl
    have hc : (if c = '"' then ['"', '"'] else [c]).foldlM (step delimiter)
        ⟨.quoted, content, cells, records⟩ = some ⟨.quoted, content ++ [c], cells, records⟩ := by
      split_ifs with h
      · subst h
        simp [step, quote?, add, hquote.symm]
      · simp [step, add, h]
    rw [hcons, List.foldlM_append, hc]
    simpa using ih (content ++ [c])

/-- What a cell is written as is read as the cell, which can end there. -/
lemma foldlM_cell (hquote : delimiter ≠ '"') (text : List Char) (cells : List (List Char))
    (records : List (List (List Char))) : ∃ mode ≠ Mode.quoted,
    (cell delimiter text).foldlM (step delimiter) ⟨.bare, [], cells, records⟩ =
      some ⟨mode, text, cells, records⟩ := by
  unfold cell
  split_ifs with h
  · have hopen : step delimiter ⟨.bare, [], cells, records⟩ '"' =
        some ⟨.quoted, [], cells, records⟩ := by
      simp [step, quote?, hquote.symm]
    have hclose : step delimiter ⟨.quoted, text, cells, records⟩ '"' =
        some ⟨.closing, text, cells, records⟩ := by
      simp [step]
    refine ⟨.closing, by decide, ?_⟩
    rw [List.cons_append, List.foldlM_cons, hopen]
    simp [List.foldlM_append, foldlM_doubleQuotes hquote, hclose]
  · exact ⟨.bare, by decide, by simpa using foldlM_plain (by simpa using h) []⟩

/-! ### Written tables -/

/-- The cells of a record are read one by one, up to its line break. -/
lemma foldlM_record (hquote : delimiter ≠ '"') (hline : delimiter ≠ '\n') (text : List Char)
    (texts before : List (List Char)) :
    (record delimiter (text :: texts)).foldlM (step delimiter) ⟨.bare, [], before, records⟩ =
      some (fresh (records ++ [before ++ text :: texts])) := by
  induction texts generalizing text before with
  | nil =>
    obtain ⟨mode, hmode, hcell⟩ := foldlM_cell hquote text before records
    have hend : step delimiter ⟨mode, text, before, records⟩ '\n' =
        some (fresh (records ++ [before ++ [text]])) := step_newline hmode hline
    simp [record, List.foldlM_append, hcell, hend]
  | cons next texts ih =>
    obtain ⟨mode, hmode, hcell⟩ := foldlM_cell hquote text before records
    have hend : step delimiter ⟨mode, text, before, records⟩ delimiter =
        some ⟨.bare, [], before ++ [text], records⟩ := step_delimiter hmode
    have hcons : record delimiter (text :: next :: texts) =
        cell delimiter text ++ delimiter :: record delimiter (next :: texts) := by
      simp [record, List.intercalate_cons_cons]
    rw [hcons, List.foldlM_append, hcell]
    simpa [hend] using ih next (before ++ [text])

lemma foldlM_table (hquote : delimiter ≠ '"') (hline : delimiter ≠ '\n')
    {written : List (List (List Char))} (h : ∀ cells ∈ written, cells ≠ [])
    (records : List (List (List Char))) :
    (table delimiter written).foldlM (step delimiter) (fresh records) =
      some (fresh (records ++ written)) := by
  induction written generalizing records with
  | nil => simp [table]
  | cons cells written ih =>
    obtain ⟨text, texts, rfl⟩ := List.exists_cons_of_ne_nil (h cells List.mem_cons_self)
    have hrecord : (record delimiter (text :: texts)).foldlM (step delimiter) (fresh records) =
        some (fresh (records ++ [text :: texts])) := foldlM_record hquote hline text texts []
    rw [table, List.flatMap_cons, ← table, List.foldlM_append, hrecord]
    simpa using ih (fun cells hcells => h cells (List.mem_cons_of_mem _ hcells))
      (records ++ [text :: texts])

/-- A written table is read as its records, whatever is in their cells. -/
theorem read_table (hquote : delimiter ≠ '"') (hline : delimiter ≠ '\n')
    (h : ∀ cells ∈ records, cells ≠ []) :
    read delimiter (table delimiter records) = some records := by
  rw [read, foldlM_table hquote hline h]
  simp [fresh, finish]

end Text.Delimited

namespace ErrorTable

/-! ### Error tables -/

/-- The records of a text, by the table's delimiter. -/
def read (t : ErrorTable) (text : String) : Option (List (List String)) :=
  (Text.Delimited.read t.delimiter text.toList).map fun records =>
    records.map fun cells => cells.map String.ofList

lemma length_of_mem_records {t : ErrorTable} {reports : List Report} {cells : List String}
    (h : cells ∈ t.records reports) : cells.length = 7 := by
  simp only [records, List.mem_append, List.mem_flatMap, Report.rows, List.mem_map] at h
  obtain h | ⟨r, -, i, -, rfl⟩ := h
  · split_ifs at h <;> simp_all [Report.columns]
  · rfl

lemma read_write {t : ErrorTable} (hquote : t.delimiter ≠ '"') (hline : t.delimiter ≠ '\n')
    (reports : List Report) : t.read (t.write reports) = some (t.records reports) := by
  have hcells : ∀ cells ∈ (t.records reports).map fun cells => cells.map String.toList,
      cells ≠ [] := by
    rintro _ hmem rfl
    obtain ⟨cells, h, hnil⟩ := List.mem_map.1 hmem
    have := length_of_mem_records h
    simp_all
  have hround : (List.map String.ofList ∘ List.map String.toList) = id := by
    funext cells
    simp [Function.comp_def]
  simp [read, write, Text.Delimited.read_table hquote hline hcells, hround]

/-- **Error tables read back.** Whatever the texts of the issues hold, the table is read as the
record of the columns where it has one, then a record for each issue of each report, in their
order, with the cells of its row. -/
theorem reads_back (t : ErrorTable) (reports : List Report)
    (hquote : t.delimiter ≠ '"') (hline : t.delimiter ≠ '\n') :
    t.read (t.write reports) =
        some ((if t.header then [Report.columns] else []) ++ reports.flatMap Report.rows) ∧
      (∀ r ∈ reports, r.rows.length = r.issues.length) ∧
      ∀ row ∈ reports.flatMap Report.rows, row.length = 7 := by
  refine ⟨read_write hquote hline reports, fun r _ => by simp [Report.rows], fun row h => ?_⟩
  exact length_of_mem_records (t := t) (List.mem_append_right _ h)

def semicolons : ErrorTable := ⟨';', true⟩

/-- An issue with every mark of a table in its texts. -/
def markedReport : Report :=
  ⟨"Granule", "a;b.json",
    [⟨[.key "Note"], .enumMismatch, .arr [.str "x", .null], .str "\"a\";\n\r",
      "no;\nsuch \"a\""⟩]⟩

theorem markedReport_reads_back : semicolons.delimiter ≠ '"' ∧ semicolons.delimiter ≠ '\n' ∧
    semicolons.read (semicolons.write [markedReport]) =
      some [Report.columns, ["Granule", "a;b.json", "no;\nsuch \"a\"", "/Note", "\"a\";\n\r",
        "enum", "[\"x\",null]"]] :=
  ⟨by decide, by decide, (reads_back semicolons [markedReport] (by decide) (by decide)).1⟩

end ErrorTable

end RecordCuration
