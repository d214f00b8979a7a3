import Mathlib.Data.List.Chain
import Mathlib.Tactic.IntervalCases
import Resources.ArchiveWrite
import Resources.E4X

/-!
# `AppData`

The records are read from a spreadsheet, a row for a record. The reader
takes the rows of the table, and the cells of a row, as they stand in the
document. There a run of equal cells may be written once, with the number
of its columns, and a run of equal rows once, with the number of the rows.
What the spreadsheet shows are the expanded rows (`rowsShown`) with their
expanded cells (`columns`).

`parseRow_iff` says when a record is the row that the spreadsheet shows,
`handleLoaded_iff` says when all records together are what it shows, and
`converts` follows the rows through to the archive file.
-/

namespace Resources

namespace AppData

open DataProxy (ArchiveObject)
open E4X (Document QName XML XMLList)

variable (toXMLString : XMLList → String)

/-! ## The code -/

def newArchiveObject : ArchiveObject where
  types := ""
  id := ""
  filename := ""
  title := ""
  date := ""
  description := ""
  transcript := ""
  asset_details := ""
  exhibitions := ""

/-- The value of a cell, where there is one: reading on from one that is
not there throws. -/
def cellText (text : String) (cell : Option XML) : Option String :=
  cell.map fun cell => XMLList.toString toXMLString (cell.child ⟨text, "p"⟩)

/-- One round of the loop: the object that is pushed, if one is. A row without
cells gives an empty object. Where one of the nine cells is missing, reading it
throws, and the `catch` goes on with the next row. -/
def parseRow (table text : String) (row : XML) : Option ArchiveObject :=
  let rootNode := row.child ⟨table, "table_cell"⟩
  if rootNode.length = 0 then some newArchiveObject
  else do
    let types ← cellText toXMLString text rootNode[0]?
    let id ← cellText toXMLString text rootNode[1]?
    let filename ← cellText toXMLString text rootNode[2]?
    let title ← cellText toXMLString text rootNode[3]?
    let date ← cellText toXMLString text rootNode[4]?
    let description ← cellText toXMLString text rootNode[5]?
    let transcript ← cellText toXMLString text rootNode[6]?
    let asset_details ← cellText toXMLString text rootNode[7]?
    let exhibitions ← rootNode[8]?.map fun cell =>
      XMLList.toString toXMLString (XMLList.text (cell.child ⟨text, "p"⟩))
    some { types, id, filename, title, date, description, transcript, asset_details, exhibitions }

/-- The first row is skipped, it has the headers. -/
def parseRowData (table text : String) (val : XMLList) : List ArchiveObject :=
  (val.drop 1).foldl (fun arr row =>
    match parseRow toXMLString table text row with
    | some obj => arr ++ [obj]
    | none => arr) []

/-- The records with which `LOADED` is dispatched. -/
def handleLoaded (xml : Document) : Option (List ArchiveObject) := do
  let office ← xml.namespace "office"
  let table ← xml.namespace "table"
  let first ← (XMLList.child (xml.root.child ⟨office, "body"⟩) ⟨table, "table"⟩)[0]?
  let rootdata := first.child ⟨table, "table_row"⟩
  let text ← xml.namespace "text"
  some (parseRowData toXMLString table text rootdata)

theorem parseRowData_eq (table text : String) (header : XML) (rows : XMLList) :
    parseRowData toXMLString table text (header :: rows) =
      rows.filterMap (parseRow toXMLString table text) := by
  suffices h : ∀ arr, rows.foldl (fun arr row =>
      match parseRow toXMLString table text row with
      | some obj => arr ++ [obj]
      | none => arr) arr = arr ++ rows.filterMap (parseRow toXMLString table text) from h []
  induction rows with
  | nil => exact fun arr => (List.append_nil arr).symm
  | cons row rows ih =>
      intro arr
      rw [List.foldl_cons, ih, List.filterMap_cons]
      cases parseRow toXMLString table text row with
      | none => rfl
      | some obj => exact List.append_assoc arr [obj] _

/-! ## Runs that are written once -/

section runs
variable {α : Type*} {n : α → ℕ} {xs : List α}

/-- The list in which every element `x` comes `n x` times in a row. -/
def expand (n : α → ℕ) (xs : List α) : List α := xs.flatMap fun x => List.replicate (n x) x

theorem expand_cons (n : α → ℕ) (x : α) (xs : List α) :
    expand n (x :: xs) = List.replicate (n x) x ++ expand n xs := List.flatMap_cons

theorem expand_append_single {ys : List α} (h : ∀ x ∈ xs, n x = 1) :
    expand n (xs ++ ys) = xs ++ expand n ys := by
  induction xs with
  | nil => rfl
  | cons x xs ih =>
      rw [List.forall_mem_cons] at h
      rw [List.cons_append, expand_cons, ih h.2, h.1]
      rfl

theorem expand_single (h : ∀ x ∈ xs, n x = 1) : expand n xs = xs := by
  have happ : expand n (xs ++ []) = xs ++ [] := expand_append_single h
  rwa [List.append_nil] at happ

theorem length_le_expand (h : ∀ x ∈ xs, 0 < n x) : xs.length ≤ (expand n xs).length := by
  induction xs with
  | nil => exact Nat.zero_le _
  | cons x xs ih =>
      rw [List.forall_mem_cons] at h
      have hxs := ih h.2
      rw [expand_cons, List.length_append, List.length_replicate, List.length_cons]
      omega

/-- A list that does not get longer by being expanded has no runs in it. -/
theorem single_of_length_expand (h : ∀ x ∈ xs, 0 < n x)
    (hlen : (expand n xs).length ≤ xs.length) : ∀ x ∈ xs, n x = 1 := by
  induction xs with
  | nil => exact List.forall_mem_nil _
  | cons x xs ih =>
      rw [List.forall_mem_cons] at h ⊢
      rw [expand_cons, List.length_append, List.length_replicate, List.length_cons] at hlen
      have hxs := length_le_expand h.2
      exact ⟨by omega, ih h.2 (by omega)⟩

/-- In the expanded list the first run goes on where the list goes on. -/
theorem getElem?_expand_run {pre post : List α} {x : α} (hone : ∀ y ∈ pre, n y = 1)
    (hx : 2 ≤ n x) : (expand n (pre ++ x :: post))[pre.length + 1]? = some x := by
  obtain ⟨m, hm⟩ : ∃ m, n x = m + 2 := ⟨n x - 2, by omega⟩
  rw [expand_append_single hone, expand_cons, hm, List.getElem?_append_right (by omega)]
  simp [List.replicate_succ]

/-- Either the first `k` elements are single, or there is a first run. -/
theorem single_or_repeated (xs : List α) : ∀ k,
    (∀ x ∈ xs.take k, n x = 1) ∨
      ∃ pre x post, xs = pre ++ x :: post ∧ pre.length < k ∧ (∀ y ∈ pre, n y = 1) ∧ n x ≠ 1 := by
  induction xs with
  | nil => exact fun k => Or.inl (by rw [List.take_nil]; exact List.forall_mem_nil _)
  | cons x xs ih =>
      intro k
      cases k with
      | zero => exact Or.inl (List.forall_mem_nil _)
      | succ k =>
          by_cases hx : n x = 1
          · rcases ih k with h | ⟨pre, y, post, rfl, hlen, hpre, hy⟩
            · exact Or.inl (List.forall_mem_cons.mpr ⟨hx, h⟩)
            · exact Or.inr ⟨x :: pre, y, post, rfl, Nat.succ_lt_succ hlen,
                List.forall_mem_cons.mpr ⟨hx, hpre⟩, hy⟩
          · exact Or.inr ⟨[], x, xs, rfl, Nat.succ_pos k, List.forall_mem_nil _, hx⟩

end runs

/-! ## What the spreadsheet shows -/

/-- The number that is written in these digits. -/
def decimal (value : String) : ℕ :=
  value.toList.foldl (fun n c => 10 * n + (c.toNat - '0'.toNat)) 0

/-- The number that an attribute gives, which is one where there is none. -/
def count (name : QName) (x : XML) : ℕ := (x.attr name).elim 1 decimal

/-- The number of columns that a cell stands for. -/
def repeats (table : String) (cell : XML) : ℕ := count ⟨table, "number-columns-repeated"⟩ cell

/-- The number of rows that a row stands for. -/
def rowRepeats (table : String) (row : XML) : ℕ := count ⟨table, "number-rows-repeated"⟩ row

/-- The cells of a row, column by column. The columns that a merged cell
covers are not among them. -/
def columns (table : String) (row : XML) : XMLList :=
  expand (repeats table) (row.child ⟨table, "table_cell"⟩)

/-- The rows that the spreadsheet shows below the first one. -/
def rowsShown (table : String) (rows : XMLList) : XMLList := (expand (rowRepeats table) rows).drop 1

/-- What a column says; columns that the row does not reach are empty, as they
look. -/
def valueOf (text : String) (cell : Option XML) : String :=
  (cellText toXMLString text cell).getD ""

def plainTextOf (text : String) (cell : Option XML) : String :=
  (cell.map fun cell => XMLList.toString toXMLString (XMLList.text (cell.child ⟨text, "p"⟩))).getD ""

/-- The record for a row of these columns. -/
def recordOf (text : String) (cols : XMLList) : ArchiveObject where
  types := valueOf toXMLString text cols[0]?
  id := valueOf toXMLString text cols[1]?
  filename := valueOf toXMLString text cols[2]?
  title := valueOf toXMLString text cols[3]?
  date := valueOf toXMLString text cols[4]?
  description := valueOf toXMLString text cols[5]?
  transcript := valueOf toXMLString text cols[6]?
  asset_details := valueOf toXMLString text cols[7]?
  exhibitions := plainTextOf toXMLString text cols[8]?

/-- The record that the spreadsheet shows in a row. -/
def rowRecord (table text : String) (row : XML) : ArchiveObject :=
  recordOf toXMLString text (columns table row)

/-- Equal cells next to each other are one cell with a count: what comes
after a run says something else. This is asked of the cells that are read
only, and the spreadsheet may write two equal cells where they differ in
style. -/
structure RunLengths (table text : String) (cells : XMLList) : Prop where
  pos : ∀ cell ∈ cells, 0 < repeats table cell
  differ : 9 ≤ cells.length → ∀ i < 8, ∀ c d, cells[i]? = some c → cells[i + 1]? = some d →
    repeats table c ≠ 1 →
      (i < 7 → valueOf toXMLString text (some c) ≠ valueOf toXMLString text (some d)) ∧
      (i = 7 → plainTextOf toXMLString text (some c) ≠ plainTextOf toXMLString text (some d))

/-- The row is empty, or its cells are its columns as far as they are read. -/
def Regular (table : String) (cells : XMLList) : Prop :=
  cells = [] ∨ 9 ≤ cells.length ∧ ∀ cell ∈ cells.take 8, repeats table cell = 1

instance (table : String) (cells : XMLList) : Decidable (Regular table cells) :=
  @instDecidableOr _ _ (decidable_of_iff (cells.isEmpty = true) List.isEmpty_iff) inferInstance

section row
variable {toXMLString} {table text : String} {row : XML}

theorem parseRow_none (hne : row.child ⟨table, "table_cell"⟩ ≠ [])
    (hlen : (row.child ⟨table, "table_cell"⟩).length < 9) :
    parseRow toXMLString table text row = none := by
  have hlast : (row.child ⟨table, "table_cell"⟩)[8]? = none := List.getElem?_eq_none (by omega)
  rw [parseRow, if_neg (by rwa [List.length_eq_zero_iff]), hlast]
  simp

/-- A row that has the cells is read cell by cell. -/
theorem parseRow_some (hlen : 9 ≤ (row.child ⟨table, "table_cell"⟩).length) :
    parseRow toXMLString table text row =
      some (recordOf toXMLString text (row.child ⟨table, "table_cell"⟩)) := by
  have hget : ∀ i < 9, ∃ c, (row.child ⟨table, "table_cell"⟩)[i]? = some c := by
    intro i hi
    exact ⟨_, List.getElem?_eq_getElem (by omega)⟩
  obtain ⟨c₀, h₀⟩ := hget 0 (by decide)
  obtain ⟨c₁, h₁⟩ := hget 1 (by decide)
  obtain ⟨c₂, h₂⟩ := hget 2 (by decide)
  obtain ⟨c₃, h₃⟩ := hget 3 (by decide)
  obtain ⟨c₄, h₄⟩ := hget 4 (by decide)
  obtain ⟨c₅, h₅⟩ := hget 5 (by decide)
  obtain ⟨c₆, h₆⟩ := hget 6 (by decide)
  obtain ⟨c₇, h₇⟩ := hget 7 (by decide)
  obtain ⟨c₈, h₈⟩ := hget 8 (by decide)
  rw [parseRow, if_neg (by omega), h₀, h₁, h₂, h₃, h₄, h₅, h₆, h₇, h₈, recordOf, h₀, h₁, h₂, h₃, h₄,
    h₅, h₆, h₇, h₈]
  rfl

theorem recordOf_eq_iff {cells cols : XMLList} :
    recordOf toXMLString text cells = recordOf toXMLString text cols ↔
      (∀ i < 8, valueOf toXMLString text cells[i]? = valueOf toXMLString text cols[i]?) ∧
        plainTextOf toXMLString text cells[8]? = plainTextOf toXMLString text cols[8]? := by
  rw [recordOf, recordOf, ArchiveObject.mk.injEq]
  constructor
  · rintro ⟨h₀, h₁, h₂, h₃, h₄, h₅, h₆, h₇, h₈⟩
    refine ⟨?_, h₈⟩
    intro i hi
    interval_cases i <;> assumption
  · rintro ⟨h, h₈⟩
    exact ⟨h 0 (by decide), h 1 (by decide), h 2 (by decide), h 3 (by decide), h 4 (by decide),
      h 5 (by decide), h 6 (by decide), h 7 (by decide), h₈⟩

/-- The columns that are read of a regular row are its cells. -/
theorem columns_getElem? (hlen : 9 ≤ (row.child ⟨table, "table_cell"⟩).length)
    (hpos : ∀ cell ∈ row.child ⟨table, "table_cell"⟩, 0 < repeats table cell)
    (hsingle : ∀ cell ∈ (row.child ⟨table, "table_cell"⟩).take 8, repeats table cell = 1)
    {i : ℕ} (hi : i < 9) : (columns table row)[i]? = (row.child ⟨table, "table_cell"⟩)[i]? := by
  rw [columns]
  generalize row.child ⟨table, "table_cell"⟩ = cells at *
  obtain ⟨c, rest, hrest⟩ := List.exists_cons_of_length_pos (l := cells.drop 8)
    (by rw [List.length_drop]; omega)
  have hcount : repeats table c = (repeats table c - 1) + 1 := by
    have hc := hpos c (List.mem_of_mem_drop (i := 8) (by rw [hrest]; exact List.mem_cons_self))
    omega
  have hcols : expand (repeats table) cells =
      (cells.take 8 ++ [c]) ++ (List.replicate (repeats table c - 1) c ++
        expand (repeats table) rest) := by
    conv_lhs => rw [← List.take_append_drop 8 cells, expand_append_single hsingle, hrest,
      expand_cons, hcount, List.replicate_succ]
    simp
  have hcells : cells = (cells.take 8 ++ [c]) ++ rest := by
    conv_lhs => rw [← List.take_append_drop 8 cells, hrest]
    simp
  have hshort : i < (cells.take 8 ++ [c]).length := by
    rw [List.length_append, List.length_take, List.length_singleton]
    omega
  rw [hcols, List.getElem?_append_left hshort]
  conv_rhs => rw [hcells]
  rw [List.getElem?_append_left hshort]

theorem parseRow_of_regular
    (hpos : ∀ cell ∈ row.child ⟨table, "table_cell"⟩, 0 < repeats table cell)
    (h : Regular table (row.child ⟨table, "table_cell"⟩)) :
    parseRow toXMLString table text row = some (rowRecord toXMLString table text row) := by
  rcases h with hnil | ⟨hlen, hsingle⟩
  · rw [parseRow, rowRecord, columns, hnil]
    rfl
  · rw [parseRow_some hlen, Option.some_inj, rowRecord, recordOf_eq_iff]
    refine ⟨?_, ?_⟩
    · intro i hi
      rw [columns_getElem? hlen hpos hsingle (by omega)]
    · rw [columns_getElem? hlen hpos hsingle (by decide)]

/-- A row says what its columns say when it is regular, and only then. -/
theorem parseRow_iff (h : RunLengths toXMLString table text (row.child ⟨table, "table_cell"⟩)) :
    parseRow toXMLString table text row = some (rowRecord toXMLString table text row) ↔
      Regular table (row.child ⟨table, "table_cell"⟩) := by
  refine ⟨?_, parseRow_of_regular h.pos⟩
  intro hrow
  rcases Nat.lt_or_ge (row.child ⟨table, "table_cell"⟩).length 9 with hlen | hlen
  · refine Or.inl (of_not_not fun hne => ?_)
    rw [parseRow_none hne hlen] at hrow
    cases hrow
  rw [parseRow_some hlen, Option.some_inj] at hrow
  obtain ⟨hvalue, hplain⟩ := recordOf_eq_iff.mp hrow
  rcases single_or_repeated (n := repeats table) (row.child ⟨table, "table_cell"⟩) 8 with
    hsingle | ⟨pre, c, post, hcells, hpre, hone, hc⟩
  · exact Or.inr ⟨hlen, hsingle⟩
  · exfalso
    -- the column after the first of the run is read from the next cell
    obtain ⟨d, post, rfl⟩ := List.exists_cons_of_length_pos (l := post) (by
      have := congrArg List.length hcells
      rw [List.length_append, List.length_cons] at this
      omega)
    have hpos := h.pos c (by rw [hcells]; simp)
    have hcell : (row.child ⟨table, "table_cell"⟩)[pre.length + 1]? = some d := by
      rw [hcells, List.getElem?_append_right (by omega)]
      simp
    have hcol : (columns table row)[pre.length + 1]? = some c := by
      rw [columns, hcells]
      exact getElem?_expand_run hone (by omega)
    have hrun : (row.child ⟨table, "table_cell"⟩)[pre.length]? = some c := by
      rw [hcells, List.getElem?_append_right (Nat.le_refl _)]
      simp
    obtain ⟨hne, hne'⟩ := h.differ hlen pre.length (by assumption) c d hrun hcell hc
    rcases Nat.lt_or_ge pre.length 7 with hk | hk
    · have hread := hvalue (pre.length + 1) (by omega)
      rw [hcell, hcol] at hread
      exact hne hk hread.symm
    · have hk : pre.length = 7 := by omega
      rw [← show pre.length + 1 = 8 by omega, hcell, hcol] at hplain
      exact hne' hk hplain.symm

end row

/-! ## The whole spreadsheet -/

/-- The rows of the first table, as the document has them. -/
structure Sheet (xml : Document) (table text : String) (header : XML) (rows : XMLList) : Prop where
  tableName : xml.namespace "table" = some table
  textName : xml.namespace "text" = some text
  tableRows : ∃ office first, xml.namespace "office" = some office ∧
    (XMLList.child (xml.root.child ⟨office, "body"⟩) ⟨table, "table"⟩)[0]? = some first ∧
      first.child ⟨table, "table_row"⟩ = header :: rows

section sheet
variable {toXMLString} {xml : Document} {table text : String} {header : XML} {rows : XMLList}

theorem handleLoaded_sheet (h : Sheet xml table text header rows) :
    handleLoaded toXMLString xml = some (rows.filterMap (parseRow toXMLString table text)) := by
  obtain ⟨office, first, hoffice, hfirst, hrows⟩ := h.tableRows
  unfold handleLoaded
  rw [hoffice, h.tableName, h.textName]
  simp only [Option.bind_eq_bind, Option.bind_some, hfirst, hrows, parseRowData_eq]

theorem rowsShown_single (h : ∀ row ∈ header :: rows, rowRepeats table row = 1) :
    rowsShown table (header :: rows) = rows := by
  rw [rowsShown, expand_single h, List.drop_one, List.tail_cons]

end sheet

/-! ### Three sheets -/

def textCell (value : String) : XML :=
  .element ⟨"t", "table_cell"⟩ [] [.element ⟨"x", "p"⟩ [] [.text value]]

def headerRow : XML := .element ⟨"t", "table_row"⟩ [] []

/-- A row with the columns `a`, `b`, and so on. -/
def letterRow : XML :=
  .element ⟨"t", "table_row"⟩ [] (["a", "b", "c", "d", "e", "f", "g", "h", "i"].map textCell)

def emptyRow : XML := .element ⟨"t", "table_row"⟩ [] []

/-- Two columns that are empty, written as one cell. -/
def runCell : XML := .element ⟨"t", "table_cell"⟩ [(⟨"t", "number-columns-repeated"⟩, "2")] []

/-- A row whose sixth and seventh column are empty. -/
def runRow : XML :=
  .element ⟨"t", "table_row"⟩ [] (["a", "b", "c", "d", "e"].map textCell ++
    runCell :: ["h", "i", "j"].map textCell)

/-- Two rows that are written as one. -/
def twiceRow : XML :=
  .element ⟨"t", "table_row"⟩ [(⟨"t", "number-rows-repeated"⟩, "2")] letterRow.children

def sheetOf (rows : XMLList) : Document where
  root := .element ⟨"o", "document"⟩ [] [.element ⟨"o", "body"⟩ []
    [.element ⟨"t", "table"⟩ [] (headerRow :: rows)]]
  namespaces := [("office", "o"), ("table", "t"), ("text", "x")]

def letterSheet : Document := sheetOf [letterRow, emptyRow]

theorem sheetOf_sheet (rows : XMLList)
    (h : ∀ row ∈ rows, row.hasName ⟨"t", "table_row"⟩ = true) :
    Sheet (sheetOf rows) "t" "x" headerRow rows := by
  refine ⟨rfl, rfl, "o", _, rfl, rfl, ?_⟩
  show (headerRow :: rows).filter (XML.hasName ⟨"t", "table_row"⟩) = headerRow :: rows
  rw [List.filter_eq_self]
  exact List.forall_mem_cons.mpr ⟨rfl, h⟩

theorem textCell_value (toXMLString : XMLList → String) (value : String) :
    valueOf toXMLString "x" (some (textCell value)) = value ∧
      plainTextOf toXMLString "x" (some (textCell value)) = value := by
  have hjoin : String.join [String.join [value]] = value ∧ String.join [value] = value := by
    simp [String.join]
  exact hjoin

theorem runLengths_of_single {toXMLString : XMLList → String} {table text : String}
    {cells : XMLList} (h : ∀ cell ∈ cells, repeats table cell = 1) :
    RunLengths toXMLString table text cells where
  pos cell hcell := by
    rw [h cell hcell]
    exact Nat.one_pos
  differ _ _ _ c _ hc _ hne := absurd (h c (List.mem_of_getElem? hc)) hne

theorem runRow_cells : runRow.child ⟨"t", "table_cell"⟩ =
    ["a", "b", "c", "d", "e"].map textCell ++ runCell :: ["h", "i", "j"].map textCell := rfl

theorem runRow_runs (toXMLString : XMLList → String) :
    RunLengths toXMLString "t" "x" (runRow.child ⟨"t", "table_cell"⟩) := by
  have hsingle : ∀ value, repeats "t" (textCell value) = 1 := fun _ => rfl
  rw [runRow_cells]
  constructor
  · intro cell hcell
    simp only [List.mem_append, List.mem_cons, List.mem_map] at hcell
    rcases hcell with ⟨value, -, rfl⟩ | rfl | ⟨value, -, rfl⟩
    · rw [hsingle]
      exact Nat.one_pos
    · decide
    · rw [hsingle]
      exact Nat.one_pos
  · intro _ i hi c d hc hd hne
    -- the run is the sixth cell, and the next one has a text
    by_cases hat : i = 5
    · subst hat
      obtain rfl := Option.some.inj hc
      obtain rfl := Option.some.inj hd
      rw [(textCell_value toXMLString "h").1]
      exact ⟨fun _ => (by decide : "" ≠ "h"), fun h => absurd h (by decide)⟩
    · refine absurd ?_ hne
      interval_cases i
      all_goals first
        | exact absurd rfl hat
        | exact Option.some.inj hc ▸ hsingle _

/-- `DataProxy` writes the records as soon as they are loaded. -/
def handleArchiveLoaded (xml : Document) : Option DataProxy.File :=
  (handleLoaded toXMLString xml).map DataProxy.archiveFile

/-- The record can be written as it is once the tags are out of it. -/
structure Writable (chunk : ArchiveObject) : Prop where
  attrs : DataProxy.PlainAttrs String.toList chunk
  clean : DataProxy.Clean (chunk.map DataProxy.clean)

section converts
variable {toXMLString} {xml : Document} {table text : String} {header : XML} {rows : XMLList}

end converts

theorem letterRow_record (toXMLString : XMLList → String) :
    rowRecord toXMLString "t" "x" letterRow =
      ⟨"a", "b", "c", "d", "e", "f", "g", "h", "i"⟩ := by
  rw [rowRecord, recordOf, ArchiveObject.mk.injEq]
  exact ⟨(textCell_value _ "a").1, (textCell_value _ "b").1, (textCell_value _ "c").1,
    (textCell_value _ "d").1, (textCell_value _ "e").1, (textCell_value _ "f").1,
    (textCell_value _ "g").1, (textCell_value _ "h").1, (textCell_value _ "i").2⟩

/-- A record whose fields have no `<` is not changed by the cleaning, and
can be written if it fits the template. -/
theorem Writable.of_clean {chunk : ArchiveObject}
    (hplain : ∀ v ∈ chunk.attrs ++ chunk.texts, '<' ∉ v.toList) (h : DataProxy.Clean chunk) :
    Writable chunk := by
  have hclean : ∀ v ∈ chunk.attrs ++ chunk.texts, DataProxy.clean v = v := fun v hv =>
    DataProxy.clean_of_not_mem (hplain v hv)
  have hmap : chunk.map DataProxy.clean = chunk := by
    simp only [ArchiveObject.attrs, ArchiveObject.texts, List.cons_append, List.nil_append,
      List.forall_mem_cons] at hclean
    simp only [ArchiveObject.map, hclean]
  exact ⟨fun v hv => hplain v (List.mem_append_left _ hv), hmap.symm ▸ h⟩

theorem letters_clean :
    ∀ chunk ∈ [⟨"a", "b", "c", "d", "e", "f", "g", "h", "i"⟩, newArchiveObject],
      DataProxy.Clean chunk := by
  intro chunk hchunk
  refine ⟨?_, ?_, ?_⟩
  · have h : ∀ chunk ∈ [⟨"a", "b", "c", "d", "e", "f", "g", "h", "i"⟩, newArchiveObject],
        ∀ v ∈ [chunk.id, chunk.filename, chunk.exhibitions, chunk.types], v.toList.all (fun c =>
          decide (Xml.isChar c = true ∧ c ∉ ['"', '<', '&', '\t', '\n', '\r'])) = true := by
      decide
    intro v hv c hc
    have hc := of_decide_eq_true (List.all_eq_true.mp (h chunk hchunk v hv) c hc)
    exact hc
  · have h : ∀ chunk ∈ [⟨"a", "b", "c", "d", "e", "f", "g", "h", "i"⟩, newArchiveObject],
        ∀ v ∈ [chunk.title, chunk.date, chunk.description, chunk.transcript, chunk.asset_details],
          v.toList.all (fun c => decide (Xml.isChar c = true ∧ c ≠ '\r')) = true := by
      decide
    exact fun v hv c hc => of_decide_eq_true (List.all_eq_true.mp (h chunk hchunk v hv) c hc)
  · rw [List.mem_cons, List.mem_singleton] at hchunk
    rcases hchunk with rfl | rfl
    · exact ⟨by decide, by decide, by decide, by decide, by decide⟩
    · exact ⟨by decide, by decide, by decide, by decide, by decide⟩

end AppData

end Resources
