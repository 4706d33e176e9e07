import TableDoc.Proofs.Compilation.RowKeys
import TableDoc.Proofs.Store.Requests

/-!
# Lookups for null

A row has no null for a key, but a lookup compares texts, and null has a text like every value. No
number and no truth value is written like it (`Scalar.toText_eq_null_iff`), so the only key that a
lookup for null can find is that of a row whose key cell holds the text `null` (`KeyedNull`). The
lookup finds this row, and fails where there is none (`lookup_null`).
-/

namespace TableDoc

/-! ## The text of null -/

section
open Decimal

theorem isDigit_of_mem_positional {d : Scaled} {point : Bool} {c : Char}
    (h : c ∈ d.positional point) :
    c.isDigit ∨ c = '.' := by
  have hdigits : ∀ c ∈ digits d.coefficient, c.isDigit := fun c =>
    Nat.isDigit_of_mem_toDigits (by decide) (by decide)
  have hzeros (n : Nat) : ∀ c ∈ List.replicate n '0', c.isDigit := fun c hc =>
    (List.mem_replicate.1 hc).2 ▸ rfl
  rw [Scaled.positional] at h
  split at h
  · rw [List.append_assoc, List.mem_append, List.mem_append] at h
    rcases h with h | h | h
    · exact .inl (hdigits c h)
    · exact .inl (hzeros _ c h)
    · cases point with
      | false => cases h
      | true =>
        rcases List.mem_pair.1 h with rfl | rfl
        · exact .inr rfl
        · exact .inl rfl
  · dsimp only at h
    split at h
    · rw [List.cons_append, List.cons_append, List.mem_cons, List.mem_cons, List.mem_append] at h
      rcases h with rfl | rfl | h | h
      · exact .inl rfl
      · exact .inr rfl
      · exact .inl (hzeros _ c h)
      · exact .inl (hdigits c h)
    · rw [List.mem_append, List.mem_cons] at h
      rcases h with h | rfl | h
      · exact .inl (hdigits c (List.mem_of_mem_take h))
      · exact .inr rfl
      · exact .inl (hdigits c (List.mem_of_mem_drop h))

theorem isDigit_of_mem_write {layout : Layout} {x : Float} {c : Char}
    (hlayout : layout.positional = none) (h : c ∈ layout.write x) :
    c.isDigit ∨ c = '.' ∨ c = '-' := by
  have hsign (b : Bool) (hc : c ∈ if b then ['-'] else []) : c = '-' := by
    cases b with
    | false => cases hc
    | true => exact List.mem_singleton.1 hc
  rw [Layout.write, hlayout] at h
  dsimp only at h
  split at h <;> rw [List.mem_append] at h <;> rcases h with h | h
  · exact .inr (.inr (hsign _ h))
  · rcases List.mem_cons.1 h with rfl | h
    · exact .inl rfl
    · cases hpoint : layout.point with
      | false =>
        rw [hpoint] at h
        cases h
      | true =>
        rw [hpoint] at h
        rcases List.mem_pair.1 h with rfl | rfl
        · exact .inr (.inl rfl)
        · exact .inl rfl
  · exact .inr (.inr (hsign _ h))
  · exact (isDigit_of_mem_positional h).imp_right .inl

end

/-- No number is written as the word null. -/
theorem Scalar.numberText_ne_null (x : Float) : numberText x ≠ "null" := by
  rw [numberText]
  split
  · decide
  · split
    · split <;> decide
    · split
      · decide
      · intro h
        have hn : 'n' ∈ numberLayout.write x := by
          rw [← String.toList_ofList (l := numberLayout.write x), h]
          decide
        rcases isDigit_of_mem_write rfl hn with h | h | h <;> exact absurd h (by decide)

/-- Null is written like the text `null`, and like no other value. -/
theorem Scalar.toText_eq_null_iff {value : Scalar} :
    value.toText = "null" ↔ value = .null ∨ value = .text "null" := by
  cases value with
  | null => exact iff_of_true rfl (.inl rfl)
  | boolean b => cases b <;> exact iff_of_false (by decide) (by decide)
  | number x => exact iff_of_false (numberText_ne_null x) (by simp)
  | text s => simp [toText]

/-! ## The row that is found -/

namespace Store

open Formula (Context Error Expr)
open Compilation

variable {s : Store} {name : String} {id : RowId}

/-- The row is in the table with this name, and the cell of its key holds the text `null`. -/
structure KeyedNull [Cell.DateReader] (s : Store) (name : String) (id : RowId) : Prop where
  tableIndex? : s.tableIndex? name = some id.table
  cell : ∃ table input p, s.row? id = some (table, input) ∧ inputRows p = .ok table.rows ∧
    input.cells.get? p.declared.key = some (.text "null")

/-- Why a lookup for null fails. -/
def nullFault (s : Store) (name : String) : Formula.LookupFault :=
  match s.tableIndex? name with
  | none => .unknownTable name
  | some _ => .missingRow name "null"

section
-- the rows were read for declared tables
variable [Cell.DateReader] (hs : ∀ table ∈ s.tables, ∃ p, inputRows p = .ok table.rows)
include hs

/-- The row that is keyed by the word null, by the keys of its table. -/
theorem keyedNull_iff : s.KeyedNull name id ↔
    ∃ table, s.tableIndex? name = some id.table ∧ s.tables[id.table]? = some table ∧
      (table.rows.map InputRow.key)[id.row]? = some "null" := by
  constructor
  · rintro ⟨hname, table, input, p, hrow, hp, hcell⟩
    obtain ⟨htable, hinput⟩ := row?_eq_some.1 hrow
    obtain ⟨value, hvalue, -, htext⟩ :=
      (keyedRows_of_inputRows hp).exists_key (List.mem_of_getElem? hinput)
    cases hcell.symm.trans hvalue
    refine ⟨table, hname, htable, ?_⟩
    rw [List.getElem?_map, hinput, Option.map_some, ← htext]
    rfl
  · rintro ⟨table, hname, htable, hkey⟩
    obtain ⟨p, hp⟩ := hs table (List.mem_of_getElem? htable)
    rw [List.getElem?_map, Option.map_eq_some_iff] at hkey
    obtain ⟨input, hinput, hkey⟩ := hkey
    obtain ⟨value, hvalue, hnull, htext⟩ :=
      (keyedRows_of_inputRows hp).exists_key (List.mem_of_getElem? hinput)
    refine ⟨hname, table, input, p, row?_eq_some.2 ⟨htable, hinput⟩, hp, ?_⟩
    rw [hvalue, (Scalar.toText_eq_null_iff.1 (htext.trans hkey)).resolve_left hnull]

/-- A null finds no row where no row is keyed by the word null. -/
theorem find_null_eq_error (hnone : ∀ id, ¬s.KeyedNull name id) :
    s.find name .null = .error (.lookup (s.nullFault name)) := by
  cases hname : s.tableIndex? name with
  | none => rw [find, nullFault, hname]
  | some t =>
    have hindex := getElem?_of_lastIndex? hname
    rw [List.getElem?_map, Option.map_eq_some_iff] at hindex
    obtain ⟨table, htable, -⟩ := hindex
    have hmissing : Scalar.null.toText ∉ table.rows.map InputRow.key := by
      intro hmem
      obtain ⟨r, hr⟩ := List.getElem?_of_mem hmem
      exact hnone ⟨t, r⟩ ((keyedNull_iff hs).2 ⟨table, hname, htable, hr⟩)
    rw [find_of_tableIndex? hname htable, lastIndex?_eq_none_iff.2 hmissing, nullFault, hname]
    rfl

/-- In a store of rows that were read for declared tables a lookup whose key is null is for the row
whose key cell holds the text `null`. Where there is no such row, it fails and computes none. -/
theorem lookup_null {materialize : RowId → ExceptT Diagnostic (StateM Progress) Unit}
    {ctx : Context (StateM Progress)} (hctx : ctx.lookup = s.lookupBy materialize) {key : Expr}
    {p q : Progress} (hkey : runFrom p (key.evaluate ctx) = (.ok .null, q)) (table : Expr) :
    let looked := runFrom p ((Expr.lookup table key).value ctx)
    (table.identifier? = none → looked = (.error (.lookup .notATable), p)) ∧
      ∀ name, table.identifier? = some name →
        ((∀ id, ¬s.KeyedNull name id) → looked = (.error (.lookup (s.nullFault name)), q)) ∧
        ∀ id, s.KeyedNull name id → looked = match runFrom q (materialize id) with
          | (.ok _, r) => (.ok (.row (r.row id)), r)
          | (.error failure, r) => (.error (.inner failure), r) := by
  refine ⟨fun htable => ?_, fun name htable => ?_⟩
  · rw [Expr.value, htable, runFrom_throw]
  rw [Formula.Expr.value_lookup htable, runFrom_bind, hkey, hctx]
  dsimp only
  rw [runFrom_bind]
  refine ⟨fun hnone => ?_, fun id hid => ?_⟩
  · rw [runFrom_lookupBy, find_null_eq_error hs hnone]
  · obtain ⟨found, hname, hfound, hnull⟩ := (keyedNull_iff hs).1 hid
    obtain ⟨p, hp⟩ := hs found (List.mem_of_getElem? hfound)
    have hfinds := findsByKey_of_nodup hname hfound (keyedRows_of_inputRows hp).nodup
    rw [hfinds.found .null id.row hnull]
    rcases runFrom q (materialize id) with ⟨failure | _, r⟩ <;> rfl

end

/-! ## An empty reference and a key spelled null -/

/-- A declared table with one row, whose key is the text `null`. -/
def wordNullPair : Pair where
  declared := { name := "b", columns := ["id", "v"] }
  found := ⟨"b", none, 0, .ofLine 0 [], [], [⟨[⟨"null".toList, 1, 5⟩, ⟨['7'], 6, 7⟩], 2, 7⟩]⟩

/-- A declared table with one row, which refers to no row. -/
def emptyReferencePair : Pair where
  declared := { name := "a", columns := ["id", "b_id"] }
  found := ⟨"a", none, 0, .ofLine 0 [], [], [⟨[⟨"a1".toList, 1, 3⟩, ⟨[], 4, 4⟩], 7, 4⟩]⟩

/-- The row that refers to no row. -/
def emptyReference : Row := .ofList [("id", .text "a1"), ("b_id", .null)]

/-- The store of these rows. -/
def wordNull : Store where
  tables :=
    [⟨"b", ["id", "v"], [],
      [⟨"null", .ofList [("id", .text "null"), ("v", .number 7)], .within 2 0 7⟩]⟩,
      ⟨"a", ["id", "b_id"], [], [⟨"a1", emptyReference, .within 7 0 4⟩]⟩]

theorem inputRows_wordNull : ∀ table ∈ wordNull.tables, ∃ p, inputRows p = .ok table.rows := by
  rw [wordNull, List.forall_mem_cons, List.forall_mem_singleton]
  exact ⟨⟨wordNullPair, rfl⟩, ⟨emptyReferencePair, rfl⟩⟩

theorem lookup_null_wordNull :
    let ctx := rowContext wordNull.lookup emptyReference
    let looked name :=
      runFrom wordNull.initial ((Expr.lookup (.identifier name) (.identifier "b_id")).value ctx)
    looked "a" = (.error (.lookup (.missingRow "a" "null")), wordNull.initial) ∧
      ∃ row q, looked "b" = (.ok (.row row), q) ∧ row.get? "v" = some (.number 7) := by
  have hlookup :=
    @lookup_null wordNull _ inputRows_wordNull _ (rowContext wordNull.lookup emptyReference) rfl
      (.identifier "b_id") wordNull.initial wordNull.initial rfl
  refine ⟨((hlookup (.identifier "a")).2 "a" rfl).1 ?_, ?_⟩
  · rintro ⟨t, r⟩ hid
    obtain ⟨table, hname, htable, hkey⟩ := (keyedNull_iff inputRows_wordNull).1 hid
    obtain rfl : 1 = t := Option.some.inj hname
    cases htable
    exact absurd (List.mem_of_getElem? hkey) (by decide)
  · have hfound :=
      ((hlookup (.identifier "b")).2 "b" rfl).2 ⟨0, 0⟩ ⟨rfl, _, _, wordNullPair, rfl, rfl, rfl⟩
    have hok :
        (runFrom wordNull.initial
          (wordNull.materialize (m := StateM Progress) wordNull.size ⟨0, 0⟩)).1.isOk := by
      decide +kernel
    have hv :
        ((runFrom wordNull.initial
          (wordNull.materialize (m := StateM Progress) wordNull.size ⟨0, 0⟩)).2.row ⟨0, 0⟩).get?
            "v" = some (.number 7) := by
      decide +kernel
    rcases hrun : runFrom wordNull.initial
      (wordNull.materialize (m := StateM Progress) wordNull.size ⟨0, 0⟩) with ⟨e | u, q⟩ <;>
        rw [hrun] at hfound hok hv
    · cases hok
    · exact ⟨_, _, hfound, hv⟩

/-- A lookup for null may find a row. -/
theorem lookup_null_not_always_error :
    ¬∀ (s : Store) (row : Row) (name : String) (key : Expr) (p q : Progress),
      (∀ table ∈ s.tables, ∃ p, inputRows p = .ok table.rows) →
      runFrom p (key.evaluate (rowContext s.lookup row)) = (.ok .null, q) →
      ∃ e : Error, e.code = .lookup ∧
        (runFrom p ((Expr.lookup (.identifier name) key).value (rowContext s.lookup row))).1 =
          .error e := by
  intro h
  obtain ⟨e, -, he⟩ :=
    h wordNull emptyReference "b"
      (.identifier "b_id") wordNull.initial wordNull.initial inputRows_wordNull rfl
  have hfound :
      (runFrom wordNull.initial
        ((Expr.lookup (.identifier "b") (.identifier "b_id")).value
          (rowContext wordNull.lookup emptyReference))).1.isOk := by
    decide +kernel
  rw [he] at hfound
  cases hfound

end Store

end TableDoc
