import TableDoc.Formula.Dependency
import TableDoc.Row
import TableDoc.Span

/-!
# The rows of a document

A `Store` holds the tables of a document with their declared columns and the formulas of the
computed ones. How far the computation has come is a `Progress`: a slot for each row, and the path
of the rows that are being computed. The view of a progress is `Progress.slot`; `slot_set` says what
a change of one slot does.
-/

namespace TableDoc

/-- A row of the document, before its computed columns. -/
structure InputRow where
  /-- The text of the row's key. -/
  key : String
  cells : Row
  span : Span

/-- A table of the document, before its computed columns. -/
structure InputTable where
  name : String
  /-- The names of all columns, computed ones included. -/
  columns : List String
  /-- The computed columns in the order in which they can be computed. -/
  computed : List Formula.Definition
  rows : List InputRow

/-- The tables of a document. -/
structure Store where
  tables : List InputTable

namespace Store

/-- A row, by the numbers of its table and of the row in it. -/
structure RowId where
  table : Nat
  row : Nat
  deriving DecidableEq, Repr

/-- The place of the last item equal to `a`. -/
def lastIndex? [DecidableEq α] (a : α) : List α → Option Nat
  | [] => none
  | b :: bs =>
    match lastIndex? a bs with
    | some i => some (i + 1)
    | none => if b = a then some 0 else none

theorem getElem?_of_lastIndex? [DecidableEq α] {a : α} {as : List α} {i : Nat}
    (h : lastIndex? a as = some i) : as[i]? = some a := by
  induction as generalizing i with
  | nil => simp [lastIndex?] at h
  | cons b bs ih =>
    rw [lastIndex?] at h
    split at h
    · next j hj => cases h; simpa using ih hj
    · split at h
      · next hb => cases h; simp [hb]
      · cases h

theorem lastIndex?_eq_none_iff [DecidableEq α] {a : α} {as : List α} :
    lastIndex? a as = none ↔ a ∉ as := by
  induction as with
  | nil => simp [lastIndex?]
  | cons b bs ih =>
    rw [lastIndex?, List.mem_cons, not_or, ← ih]
    split
    · next h => simp [h]
    · next h => simp [h, eq_comm]

/-- All rows, table by table. -/
def ids (s : Store) : List RowId :=
  s.tables.zipIdx.flatMap fun (t, i) => (List.range t.rows.length).map (⟨i, ·⟩)

/-- The number of rows. -/
def size (s : Store) : Nat := s.ids.length

/-- A row and its table. -/
def row? (s : Store) (id : RowId) : Option (InputTable × InputRow) := do
  let table ← s.tables[id.table]?
  let row ← table.rows[id.row]?
  return (table, row)

/-- The number of the table with a name; of several the last counts. -/
def tableIndex? (s : Store) (name : String) : Option Nat :=
  lastIndex? name (s.tables.map InputTable.name)

/-- The row of a table with a key; of several the last counts. -/
def find (s : Store) (table : String) (key : Scalar) : Except Formula.Error RowId :=
  match s.tableIndex? table with
  | none => .error (.lookup (.unknownTable table))
  | some t =>
    match (s.tables[t]?).bind fun found => lastIndex? key.toText (found.rows.map InputRow.key) with
    | none => .error (.lookup (.missingRow table key.toText))
    | some r => .ok ⟨t, r⟩

/-- A row as it is called in messages. -/
def label (s : Store) (id : RowId) : String :=
  match s.row? id with
  | some (table, row) => s!"{table.name}[{row.key}]"
  | none => ""

/-- How far a row has come. -/
inductive Slot where
  /-- Not all columns are there yet, and nothing is going on. -/
  | pending (row : Row)
  /-- The row is being computed. -/
  | visiting
  | done (row : Row)

/-- The columns that are there. -/
def Slot.row : Slot → Row
  | pending row | done row => row
  | visiting => ∅

/-- How far the rows of a store have come. -/
structure Progress where
  slots : List (List Slot)
  /-- The rows that are being computed, the innermost first. -/
  path : List RowId

/-- The start, when only the declared columns are there. -/
def initial (s : Store) : Progress :=
  ⟨s.tables.map fun t => t.rows.map fun r => .pending r.cells, []⟩

namespace Progress

/-- The slot of a row. -/
def slot? (p : Progress) (id : RowId) : Option Slot := p.slots[id.table]?.bind (·[id.row]?)

/-- The columns of a row that are there. -/
def row (p : Progress) (id : RowId) : Row := ((p.slot? id).map Slot.row).getD ∅

/-- Changes the slot of a row. -/
def set (p : Progress) (id : RowId) (slot : Slot) : Progress :=
  { p with slots := p.slots.modify id.table (·.set id.row slot) }

/-- Begins to compute a row. -/
def enter (p : Progress) (id : RowId) : Progress :=
  { p.set id .visiting with path := id :: p.path }

/-- Ends computing the innermost row. -/
def leave (p : Progress) (id : RowId) (slot : Slot) : Progress :=
  { p.set id slot with path := p.path.tail }

theorem slot?_set (p : Progress) (id other : RowId) (slot : Slot) :
    (p.set id slot).slot? other =
      if other = id then (p.slot? id).map fun _ => slot else p.slot? other := by
  obtain ⟨t, r⟩ := id
  obtain ⟨t', r'⟩ := other
  simp only [set, slot?, List.getElem?_modify, RowId.mk.injEq]
  by_cases ht : t' = t
  · subst ht
    cases h : p.slots[t']? with
    | none => simp
    | some row =>
      by_cases hr : r' = r
      · subst hr
        by_cases h : r' < row.length <;> simp [h]
      · simp [hr, Ne.symm hr]
  · have : ¬ t = t' := fun h => ht h.symm
    cases h : p.slots[t']? <;> simp [ht, this]

end Progress

/-- The columns of the rows of a table that are there. -/
def rows (s : Store) (p : Progress) (table : String) : List Row :=
  match s.tableIndex? table with
  | some t => (p.slots.getD t []).map Slot.row
  | none => []

end Store

end TableDoc
