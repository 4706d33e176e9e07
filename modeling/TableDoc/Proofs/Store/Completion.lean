import TableDoc.Proofs.Sequence
import TableDoc.Proofs.Store.Recomputation
import TableDoc.Proofs.Store.RowStates

/-!
# Rows once all are done

After all rows have been computed a table's rows are there one by one with all their columns
(`forall₂_complete_rows`), and computations that change nothing give their results from that point
on.
-/

namespace TableDoc.Store

variable {s : Store} {p q : Progress}

theorem Still.adapt {ε ε' α : Type} {x : ExceptT ε (StateM Progress) α} (hx : Still p x)
    (f : ε → ε') :
    Still p (x.adapt f) := by
  rw [Still] at hx ⊢
  rw [runFrom_adapt]
  rcases hb : runFrom p x with ⟨e | v, b⟩ <;> rw [hb] at hx <;> exact hx

/-- Computations that change nothing give, one after another, what each gives alone. -/
theorem forall₂_of_runFrom_mapM {ε α β : Type} {f : α → ExceptT ε (StateM Progress) β} {as : List α}
    {bs : List β} (hf : ∀ a, Still p (f a)) (h : runFrom p (as.mapM f) = (.ok bs, q)) :
    List.Forall₂ (fun a b => (runFrom p (f a)).1 = .ok b) as bs := by
  induction as generalizing bs with
  | nil =>
    cases h
    exact .nil
  | cons a as ih =>
    have ha := hf a
    rw [Still] at ha
    rw [List.mapM_cons, runFrom_bind] at h
    rcases hb : runFrom p (f a) with ⟨e | b, p'⟩ <;> rw [hb] at h ha
    · cases h
    obtain rfl : p' = p := ha
    dsimp only at h
    rw [runFrom_bind] at h
    rcases hbs : runFrom p' (as.mapM f) with ⟨e | rest, p''⟩ <;> rw [hbs] at h <;> cases h
    exact .cons (congrArg Prod.fst hb) (ih hbs)

/-- After a run that succeeds all rows are done. -/
theorem finished_of_materializeAll_ok {u : Unit}
    (h : runFrom s.initial s.materializeAll = (.ok u, p)) :
    s.Reached p ∧ s.Finished p := by
  have hreached : s.Reached (runFrom s.initial s.materializeAll).2 :=
    (tame_forM s s.size s.ids _ (reached_initial s)).1
  rw [h] at hreached
  refine ⟨hreached, fun id hr => ?_⟩
  obtain ⟨⟨table, input⟩, hr⟩ := Option.isSome_iff_exists.1 hr
  exact done_of_forM_ok (reached_initial s) h (mem_ids.2 (by rw [hr]; rfl)) hr

theorem Sound.slot?_eq_none {table : InputTable} {t r : Nat} (hp : s.Sound p)
    (htable : s.tables[t]? = some table) (hr : table.rows[r]? = none) : p.slot? ⟨t, r⟩ = none := by
  have hrow : s.row? ⟨t, r⟩ = none := by
    rw [row?, htable]
    simp only [Option.bind_eq_bind, Option.bind_some, hr, Option.bind_none]
  have hsome := hp.slot?_isSome ⟨t, r⟩
  rwa [hrow, Option.isSome_none, Option.isSome_eq_false_iff, Option.isNone_iff_eq_none] at hsome

theorem getElem?_rows {name : String} {t : Nat} (ht : s.tableIndex? name = some t) (r : Nat) :
    (s.rows p name)[r]? = (p.slot? ⟨t, r⟩).map Slot.row := by
  rw [rows, ht, Progress.slot?]
  dsimp only
  rw [List.getElem?_map, List.getD_eq_getElem?_getD]
  cases p.slots[t]? <;> rfl

/-- The rows of a table, once all are done, are its rows one by one with all their columns. -/
theorem forall₂_complete_rows {table : InputTable} (hs : s.ColumnsDistinct)
    (hnames : (s.tables.map InputTable.name).Nodup) (htable : table ∈ s.tables) (hp : s.Reached p)
    (hf : s.Finished p) : List.Forall₂ (Complete table) table.rows (s.rows p table.name) := by
  obtain ⟨t, ht⟩ := List.getElem?_of_mem htable
  obtain ⟨past, out, hrun⟩ := id hp
  refine forall₂_of_getElem? fun r => ?_
  rw [getElem?_rows (lastIndex?_eq_some_of_nodup hnames ht)]
  cases hinput : table.rows[r]? with
  | none =>
    rw [hp.sound.slot?_eq_none ht hinput]
    exact .none
  | some input =>
    have hrow : s.row? ⟨t, r⟩ = some (table, input) := row?_eq_some.2 ⟨ht, hinput⟩
    obtain ⟨row, hdone⟩ := hf ⟨t, r⟩ (by rw [hrow]; rfl)
    rw [hdone]
    exact .some ((hrun.shaped hs p rfl).done hrow hdone)

end TableDoc.Store
