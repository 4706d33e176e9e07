import Mathlib
import TableDoc.Cell.Dates
import TableDoc.Proofs.Compilation.Rows
import TableDoc.Proofs.Store.Recomputation

/-!
# Rows and their keys

A lookup finds rows by the text of a value. If the tables of a store have the rows that were read
for declared tables, then a text is the key of one row at most, which is the row that the lookup is
for (`Store.FindsByKey`). So each row is found by the value of its own cell, and a lookup for
another text fails before any row is computed (`keys_identify_rows`).
-/

namespace TableDoc

namespace Store

open Formula (Error)

variable {s : Store} {name : String} {key : Scalar} {t r : Nat} {table : InputTable}

theorem find_of_tableIndex? (hname : s.tableIndex? name = some t)
    (htable : s.tables[t]? = some table) :
    s.find name key = match lastIndex? key.toText (table.rows.map InputRow.key) with
      | none => .error (.lookup (.missingRow name key.toText))
      | some r => .ok ⟨t, r⟩ := by
  cases hr : lastIndex? key.toText (table.rows.map InputRow.key) <;> simp [find, hname, htable, hr]

/-- Lookups in a table find its rows by their keys, given the name and number of the table. -/
structure FindsByKey (s : Store) (name : String) (t : Nat) (table : InputTable) : Prop where
  /-- A lookup is for a row if the key of the row is the text of the value, and for no other row. -/
  find_iff : ∀ (key : Scalar) (r : Nat),
    s.find name key = .ok ⟨t, r⟩ ↔ (table.rows.map InputRow.key)[r]? = some key.toText
  /-- The keys of two rows are different. -/
  unique : ∀ (text : String) (r r' : Nat), (table.rows.map InputRow.key)[r]? = some text →
    (table.rows.map InputRow.key)[r']? = some text → r = r'
  /-- However rows are computed, the lookup computes the row that it is for, and gives this row. -/
  found : ∀ (key : Scalar) (r : Nat), (table.rows.map InputRow.key)[r]? = some key.toText →
    ∀ (materialize : RowId → ExceptT Diagnostic (StateM Progress) Unit) (p : Progress),
      runFrom p (s.lookupBy materialize name key) = match runFrom p (materialize ⟨t, r⟩) with
        | (.ok _, q) => (.ok (q.row ⟨t, r⟩), q)
        | (.error failure, q) => (.error (.inner failure), q)
  /-- Without a row to find, the lookup fails and computes none. -/
  missing : ∀ key : Scalar, key.toText ∉ table.rows.map InputRow.key →
    ∀ (materialize : RowId → ExceptT Diagnostic (StateM Progress) Unit) (p : Progress),
      let e : Error := .lookup (.missingRow name key.toText)
      e.code = .lookup ∧ runFrom p (s.lookupBy materialize name key) = (.error e, p)

/-- Different keys find different rows, and a key that is not there finds none. -/
theorem findsByKey_of_nodup (hname : s.tableIndex? name = some t)
    (htable : s.tables[t]? = some table) (hn : (table.rows.map InputRow.key).Nodup) :
    s.FindsByKey name t table := by
  have hfind (key : Scalar) (r : Nat) :
      s.find name key = .ok ⟨t, r⟩ ↔ (table.rows.map InputRow.key)[r]? = some key.toText := by
    rw [find_of_tableIndex? hname htable, ← lastIndex?_eq_some_iff hn]
    cases lastIndex? key.toText (table.rows.map InputRow.key) <;> simp
  refine ⟨hfind, fun text r r' hr hr' => ?_, fun key r hr materialize p => ?_,
    fun key hkey materialize p => ?_⟩
  · exact (List.getElem?_inj (List.getElem?_eq_some_iff.1 hr).1 hn).1 (hr.trans hr'.symm)
  · rw [runFrom_lookupBy, (hfind key r).2 hr]
    dsimp only
    rcases runFrom p (materialize ⟨t, r⟩) with ⟨failure | _, q⟩ <;> rfl
  · refine ⟨rfl, ?_⟩
    rw [runFrom_lookupBy, find_of_tableIndex? hname htable, lastIndex?_eq_none_iff.2 hkey]

end Store

open Compilation

/-- The rows that are read for a declared table are those of the table in the document, each with a
key of its own. In a store of such rows a lookup for a text finds the row of this key, if there is
one. -/
theorem keys_identify_rows [Cell.DateReader] :
    (∀ (p : Pair) (inputs : List InputRow), inputRows p = .ok inputs → KeyedRows p inputs) ∧
    ∀ s : Store, (∀ table ∈ s.tables, ∃ p, inputRows p = .ok table.rows) →
      ((s.tables.map InputTable.name).Nodup →
        ∀ (t : Nat) (table : InputTable), s.tables[t]? = some table →
          s.tableIndex? table.name = some t) ∧
      ∀ (name : String) (t : Nat) (table : InputTable), s.tableIndex? name = some t →
        s.tables[t]? = some table →
        s.FindsByKey name t table ∧ ∀ (p : Pair) (r : Nat) (input : InputRow) (value : Scalar),
          inputRows p = .ok table.rows → table.rows[r]? = some input →
            input.cells.get? p.declared.key = some value → s.find name value = .ok ⟨t, r⟩ := by
  refine ⟨fun p inputs => keyedRows_of_inputRows, fun s hs => ⟨fun hn t table => ?_, ?_⟩⟩
  · exact Store.lastIndex?_eq_some_of_nodup hn
  · intro name t table hname htable
    obtain ⟨_, hrows⟩ := hs table (List.mem_of_getElem? htable)
    have hfinds := Store.findsByKey_of_nodup hname htable (keyedRows_of_inputRows hrows).nodup
    refine ⟨hfinds, fun p r input value hp hinput hvalue => (hfinds.find_iff value r).2 ?_⟩
    obtain ⟨data, -, hkeyed⟩ :=
      exists_of_mem_forall₂ (keyedRows_of_inputRows hp).rows (List.mem_of_getElem? hinput)
    obtain ⟨_, found, -, -, hfound, -, htext⟩ := hkeyed.key
    cases hvalue.symm.trans hfound
    rw [List.getElem?_map, hinput, htext]
    rfl

/-- Two rows with a cell each, a number and a text. -/
def numberAndText : Pair where
  declared := { name := "t", columns := ["id"] }
  found := ⟨"t", none, 0, .ofLine 0 [], [], [⟨[⟨['1'], 1, 2⟩], 2, 3⟩, ⟨[⟨['b'], 1, 2⟩], 3, 3⟩]⟩

/-- The store of these rows. -/
def numberAndTextStore : Store where
  tables := [⟨"t", ["id"], [], [⟨"1", .ofList [("id", .number 1)], .within 2 0 3⟩,
    ⟨"b", .ofList [("id", .text "b")], .within 3 0 3⟩]⟩]

theorem inputRows_numberAndText :
    ∀ table ∈ numberAndTextStore.tables, inputRows numberAndText = .ok table.rows :=
  List.forall_mem_singleton.2 rfl

theorem keys_identify_rows_numberAndText :
    (∀ table ∈ numberAndTextStore.tables, KeyedRows numberAndText table.rows) ∧
      numberAndTextStore.find "t" (.number 1) = .ok ⟨0, 0⟩ ∧
      numberAndTextStore.find "t" (.text "1") = .ok ⟨0, 0⟩ ∧
      ∀ p : Store.Progress, Store.runFrom p (numberAndTextStore.lookup "t" (.text "c")) =
        (.error (.lookup (.missingRow "t" "c")), p) := by
  obtain ⟨hread, hstore⟩ := keys_identify_rows
  obtain ⟨-, hlookup⟩ := hstore numberAndTextStore fun table htable =>
    ⟨_, inputRows_numberAndText table htable⟩
  obtain ⟨hfinds, hown⟩ := hlookup "t" 0 _ rfl rfl
  refine ⟨fun table htable => hread _ _ (inputRows_numberAndText table htable), ?_, ?_, fun p => ?_⟩
  · exact hown numberAndText 0 _ _ rfl rfl rfl
  · exact (hfinds.find_iff (.text "1") 0).2 rfl
  · exact (hfinds.missing (.text "c") (by decide) _ p).2

end TableDoc
