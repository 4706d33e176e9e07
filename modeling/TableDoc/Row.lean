import TableDoc.Scalar

/-!
# Rows

A row is an ordered mapping from column names to values. `Row.insert` replaces the value of a column
in its place and puts a new column last, so a row's columns are in the order of their first
insertion. The view of a row is `Row.get?`; `Row.get?_insert` and `Row.columns_insert` say what an
insertion does.
-/

namespace TableDoc

/-- Values by column, no column twice. -/
structure Row where
  cells : List (String × Scalar)
  nodup : (cells.map Prod.fst).Nodup

namespace Row

/-- Sets the value of a column in a list of cells. -/
def insertCell (column : String) (value : Scalar) : List (String × Scalar) → List (String × Scalar)
  | [] => [(column, value)]
  | (c, v) :: cells =>
    if c = column then (column, value) :: cells else (c, v) :: insertCell column value cells

theorem map_fst_insertCell (column : String) (value : Scalar) (cells : List (String × Scalar)) :
    (insertCell column value cells).map Prod.fst =
      if column ∈ cells.map Prod.fst then cells.map Prod.fst
      else cells.map Prod.fst ++ [column] := by
  induction cells with
  | nil => simp [insertCell]
  | cons cell cells ih =>
    obtain ⟨c, v⟩ := cell
    by_cases h : c = column
    · simp [insertCell, h]
    · simp only [insertCell, h, if_false, List.map_cons, ih, List.mem_cons, Ne.symm h, false_or]
      split <;> rfl

theorem nodup_insertCell {column : String} {value : Scalar} {cells : List (String × Scalar)}
    (h : (cells.map Prod.fst).Nodup) : ((insertCell column value cells).map Prod.fst).Nodup := by
  rw [map_fst_insertCell]
  split
  · exact h
  · next hc =>
    refine List.nodup_append.2 ⟨h, by simp, fun a ha b hb he => hc ?_⟩
    rwa [← List.mem_singleton.1 hb, ← he]

/-- The row without columns. -/
def empty : Row := ⟨[], by simp⟩

instance : EmptyCollection Row := ⟨empty⟩

instance : Inhabited Row := ⟨empty⟩

@[ext] protected theorem ext : {r s : Row} → r.cells = s.cells → r = s
  | ⟨_, _⟩, ⟨_, _⟩, rfl => rfl

instance : DecidableEq Row := fun _ _ => decidable_of_iff _ ⟨Row.ext, fun h => h ▸ rfl⟩

/-- The column names in order. -/
def columns (r : Row) : List String := r.cells.map Prod.fst

/-- The value of a column. -/
def get? (r : Row) (column : String) : Option Scalar := r.cells.lookup column

/-- The row has the column. -/
def contains (r : Row) (column : String) : Bool := (r.get? column).isSome

/-- Sets the value of a column: in its place if the row has it, else last. -/
def insert (r : Row) (column : String) (value : Scalar) : Row :=
  ⟨insertCell column value r.cells, nodup_insertCell r.nodup⟩

/-- Inserts cells one after another. -/
def ofList (cells : List (String × Scalar)) : Row :=
  cells.foldl (fun r cell => r.insert cell.1 cell.2) ∅

/-- The number of columns. -/
def size (r : Row) : Nat := r.cells.length

/-- The row as a JSON object. -/
def toJson (r : Row) : Json := .object (r.cells.map fun (c, v) => (c, v.toJson))

@[simp] theorem columns_empty : (∅ : Row).columns = [] := rfl

theorem get?_congr {r s : Row} (h : r = s) : r.get? = s.get? := congrArg get? h

@[simp] theorem get?_empty (column : String) : (∅ : Row).get? column = none := rfl

theorem columns_insert (r : Row) (column : String) (value : Scalar) :
    (r.insert column value).columns =
      if column ∈ r.columns then r.columns else r.columns ++ [column] :=
  map_fst_insertCell ..

theorem get?_insert (r : Row) (column c : String) (value : Scalar) :
    (r.insert column value).get? c = if c = column then some value else r.get? c := by
  obtain ⟨cells, h⟩ := r
  simp only [get?, insert]
  clear h
  induction cells with
  | nil => simp [insertCell, List.lookup_cons]; split <;> simp_all
  | cons cell cells ih =>
    obtain ⟨d, v⟩ := cell
    by_cases h : d = column <;> by_cases h' : c = d <;> by_cases h'' : c = column <;>
      simp_all [insertCell, List.lookup_cons, beq_eq_false_iff_ne.2, Ne.symm]

theorem contains_iff_mem_columns {r : Row} {column : String} :
    r.contains column ↔ column ∈ r.columns := by
  obtain ⟨cells, h⟩ := r
  simp only [contains, get?, columns]
  clear h
  induction cells with
  | nil => simp
  | cons cell cells ih =>
    obtain ⟨d, v⟩ := cell
    simp only [List.lookup_cons, List.map_cons, List.mem_cons]
    split <;> simp_all

end Row

end TableDoc
