import TableDoc.Proofs.Sequence
import TableDoc.Proofs.Store.Recursion

/-!
# Computing rows without a memory

`Store.recompute` computes a row of a table from its declared columns alone and answers every lookup
by computing the row that it finds by name and key; nothing is kept. Where names and keys are
distinct these are the rows that `Store.recomputeAt` gives (`Distinct.recompute_iff`), and so those
of the store (`forM_ok_iff_recomputable`): it succeeds just if every row can be recomputed, and then
every row is the recomputed one, in whatever order the rows are visited.
-/

namespace TableDoc.Store

open Formula (Context Definition Error Expr Simulation)

/-! ## The naive semantics -/

/-- Names tell the tables apart, and keys the rows of a table. -/
structure Distinct (s : Store) : Prop where
  names : (s.tables.map InputTable.name).Nodup
  keys : ∀ table ∈ s.tables, (table.rows.map InputRow.key).Nodup

/-- The table with a name, and its row whose key is the text of a value. -/
def target? (s : Store) (name : String) (key : Scalar) : Option (InputTable × InputRow) := do
  let table ← s.tables.find? (·.name = name)
  let input ← table.rows.find? (·.key = key.toText)
  return (table, input)

/-- Answers a lookup by computing the row that it finds. -/
def answer (s : Store) (compute : InputTable → InputRow → ExceptT Error Option Row) (name : String)
    (key : Scalar) : ExceptT Error Option Row :=
  match s.target? name key with
  | some (table, input) => compute table input
  | none => throw (.lookup (.missingRow name key.toText))

/-- Computes a row from its declared columns, with lookups nested at most `depth` deep. -/
def recompute (s : Store) : Nat → InputTable → InputRow → ExceptT Error Option Row
  | 0, _, _ => ExceptT.mk none
  | depth + 1, table, input => fill (s.answer (s.recompute depth)) table.computed input.cells

/-- The row that comes out if lookups may be nested as deep as they need. -/
def Recomputes (s : Store) (table : InputTable) (input : InputRow) (row : Row) : Prop :=
  ∃ depth, (s.recompute depth table input).run = some (.ok row)

variable {s : Store} {id : RowId} {row row' : Row} {table : InputTable} {input : InputRow}
  {name : String} {key : Scalar} {n k : Nat} {p q p' : Progress}

/-! ## The rows found by a lookup -/

/-- Where all is different, the last index of an item is its only one. -/
theorem lastIndex?_eq_some_iff {α : Type} [DecidableEq α] {a : α} {as : List α} {i : Nat}
    (hn : as.Nodup) :
    lastIndex? a as = some i ↔ as[i]? = some a := by
  refine ⟨getElem?_of_lastIndex?, fun hi => ?_⟩
  cases h : lastIndex? a as with
  | none => exact absurd (List.mem_of_getElem? hi) (lastIndex?_eq_none_iff.1 h)
  | some j =>
    have hlt := (List.getElem?_eq_some_iff.1 hi).1
    rw [(List.getElem?_inj hlt hn).1 (hi.trans (getElem?_of_lastIndex? h).symm)]

theorem lastIndex?_eq_some_of_nodup {α : Type} {f : α → String} {l : List α} {i : Nat} {a : α}
    (hl : (l.map f).Nodup) (hi : l[i]? = some a) : lastIndex? (f a) (l.map f) = some i := by
  rw [lastIndex?_eq_some_iff hl, List.getElem?_map, hi]
  rfl

theorem target?_eq_some :
    s.target? name key = some (table, input) ↔ s.tables.find? (·.name = name) = some table ∧
      table.rows.find? (·.key = key.toText) = some input := by
  simp only [target?, Option.bind_eq_bind, Option.bind_eq_some_iff, Option.pure_def,
    Option.some.injEq, Prod.mk.injEq]
  constructor
  · rintro ⟨_, ht, _, hi, rfl, rfl⟩
    exact ⟨ht, hi⟩
  · rintro ⟨ht, hi⟩
    exact ⟨table, ht, input, hi, rfl, rfl⟩

/-- Where names and keys are distinct, a lookup and its naive answer are about the same row. -/
theorem Distinct.target?_of_find (hs : s.Distinct) (h : s.find name key = .ok id) :
    ∃ table input, s.row? id = some (table, input) ∧ s.target? name key = some (table, input) := by
  obtain ⟨table, input, hr, rfl, hk⟩ := row?_of_find h
  obtain ⟨htable, hinput⟩ := row?_eq_some.1 hr
  refine ⟨table, input, hr,
    target?_eq_some.2
      ⟨(find?_eq_some_iff_of_nodup hs.names).2 ⟨List.mem_of_getElem? htable, rfl⟩, ?_⟩⟩
  rw [← hk]
  exact (find?_eq_some_iff_of_nodup (hs.keys table (List.mem_of_getElem? htable))).2
    ⟨List.mem_of_getElem? hinput, rfl⟩

/-- Where names and keys are distinct, the row that is meant is found. -/
theorem Distinct.find_of_target? (hs : s.Distinct) (h : s.target? name key = some (table, input)) :
    ∃ id, s.find name key = .ok id ∧ s.row? id = some (table, input) := by
  obtain ⟨ht, hi⟩ := target?_eq_some.1 h
  obtain ⟨t, htable⟩ := List.mem_iff_getElem?.1 (List.mem_of_find?_eq_some ht)
  obtain ⟨r, hinput⟩ := List.mem_iff_getElem?.1 (List.mem_of_find?_eq_some hi)
  have hn : table.name = name := by simpa using List.find?_some ht
  have hk : input.key = key.toText := by simpa using List.find?_some hi
  have htt : s.tableIndex? name = some t := hn ▸ lastIndex?_eq_some_of_nodup hs.names htable
  have hrr := lastIndex?_eq_some_of_nodup (hs.keys table (List.mem_of_getElem? htable)) hinput
  refine ⟨⟨t, r⟩, ?_, row?_eq_some.2 ⟨htable, hinput⟩⟩
  rw [find, htt]
  simp only [htable, Option.bind_some, ← hk, hrr]

/-! ## Deeper lookups -/

/-- A row that is recomputed stays so if more calls are allowed. -/
theorem recompute_mono (h : n ≤ k) : ∀ {table input row},
    (s.recompute n table input).run = some (.ok row) →
    (s.recompute k table input).run = some (.ok row) := by
  induction n generalizing k with
  | zero => nofun
  | succ n ih =>
    intro table input row hr
    obtain ⟨k, rfl⟩ : ∃ k', k = k' + 1 := ⟨k - 1, by omega⟩
    refine fill_rel refinement (fun name key row hr => ?_) table.computed input.cells row hr
    unfold answer at hr ⊢
    split at hr
    · exact ih (by omega) hr
    · cases hr

/-- A row is recomputed in one way only. -/
theorem Recomputes.unique (h : s.Recomputes table input row) (h' : s.Recomputes table input row') :
    row = row' := by
  obtain ⟨n, h⟩ := h
  obtain ⟨k, h'⟩ := h'
  have h₁ := recompute_mono (Nat.le_max_left n k) h
  rw [recompute_mono (Nat.le_max_right n k) h'] at h₁
  cases h₁
  rfl

/-- Where names and keys are distinct, the naive answers are those of the store. -/
theorem Distinct.recompute_iff (hs : s.Distinct) (n : Nat) : ∀ {id table input row},
    s.row? id = some (table, input) →
      ((s.recompute n table input).run = some (.ok row) ↔
        (s.recomputeAt n id).run = some (.ok row)) := by
  induction n with
  | zero => exact fun _ => ⟨nofun, nofun⟩
  | succ n ih =>
    intro id table input row hr
    rw [recomputeAt_succ hr]
    constructor
    · refine fill_rel refinement (fun name key row h => ?_) table.computed input.cells row
      rcases ht : s.target? name key with _ | ⟨table, input⟩ <;> rw [answer, ht] at h
      · cases h
      obtain ⟨id, hf, hr⟩ := hs.find_of_target? ht
      rw [answerAt, hf]
      exact (ih hr).1 h
    · refine fill_rel refinement (fun name key row h => ?_) table.computed input.cells row
      rcases hf : s.find name key with e | id <;> rw [answerAt, hf] at h
      · cases h
      obtain ⟨table, input, hr, ht⟩ := hs.target?_of_find hf
      rw [answer, ht]
      exact (ih hr).2 h

theorem Distinct.recomputes_iff (hs : s.Distinct) (hr : s.row? id = some (table, input)) :
    s.Recomputes table input row ↔ s.RecomputesAt id row :=
  exists_congr fun n => hs.recompute_iff n hr

/-! ## All rows -/

variable {visits : List RowId}

/-- Every row of the store can be recomputed. -/
def Recomputable (s : Store) : Prop :=
  ∀ table ∈ s.tables, ∀ input ∈ table.rows, ∃ row, s.Recomputes table input row

/-- All rows can be recomputed just if every row of the store can. -/
theorem recomputable_iff : s.Recomputable ↔
    ∀ {id table input}, s.row? id = some (table, input) → ∃ row, s.Recomputes table input row := by
  constructor
  · intro h id table input hr
    obtain ⟨ht, hi⟩ := row?_eq_some.1 hr
    exact h table (List.mem_of_getElem? ht) input (List.mem_of_getElem? hi)
  · intro h table ht input hi
    obtain ⟨t, ht⟩ := List.mem_iff_getElem?.1 ht
    obtain ⟨r, hi⟩ := List.mem_iff_getElem?.1 hi
    exact @h ⟨t, r⟩ table input (row?_eq_some.2 ⟨ht, hi⟩)

/-- The rows of a run that succeeds, in whatever order they are visited, are the recomputed ones. -/
theorem recomputes_of_forM_ok {u : Unit} (hs : s.Distinct) (hv : ∀ id ∈ s.ids, id ∈ visits)
    (h : runFrom s.initial (visits.forM (s.materialize s.size)) = (.ok u, p))
    (hr : s.row? id = some (table, input)) :
    ∃ row, p.slot? id = some (.done row) ∧ s.Recomputes table input row := by
  obtain ⟨row, hd, hrow⟩ := recomputesAt_of_forM_ok hv h (mem_ids.2 (by rw [hr]; rfl))
  exact ⟨row, hd, (hs.recomputes_iff hr).2 hrow⟩

/-- The store succeeds just if every row can be recomputed, in whatever order the rows are visited.
-/
theorem forM_ok_iff_recomputable (hs : s.Distinct) (hv : ∀ id ∈ s.ids, id ∈ visits) :
    (runFrom s.initial (visits.forM (s.materialize s.size))).1 = .ok () ↔ s.Recomputable := by
  rw [forM_ok_iff hv, recomputable_iff]
  constructor
  · intro h id table input hr
    obtain ⟨row, hrow⟩ := h id (mem_ids.2 (by rw [hr]; rfl))
    exact ⟨row, (hs.recomputes_iff hr).2 hrow⟩
  · intro h id hid
    obtain ⟨⟨table, input⟩, hr⟩ := Option.isSome_iff_exists.1 (mem_ids.1 hid)
    obtain ⟨row, hrow⟩ := h hr
    exact ⟨row, (hs.recomputes_iff hr).1 hrow⟩

/-- The store succeeds just if every row can be recomputed without a memory, and then its rows are
the recomputed ones, of which each row has only one. Neither depends on the order in which the rows
are visited. -/
theorem materializeAll_refines_recompute (s : Store) (hs : s.Distinct) :
    let run := runFrom s.initial s.materializeAll
    (run.1 = .ok () ↔ s.Recomputable) ∧
    (run.1 = .ok () → ∀ id table input, s.row? id = some (table, input) →
      ∃ row, run.2.slot? id = some (.done row) ∧
        ∀ row', s.Recomputes table input row' ↔ row' = row) ∧
    ∀ visits : List RowId, (∀ id, id ∈ visits ↔ id ∈ s.ids) →
      let run' := runFrom s.initial (visits.forM (s.materialize s.size))
      (run'.1 = .ok () ↔ run.1 = .ok ()) ∧
      (run.1 = .ok () → ∀ id, run'.2.slot? id = run.2.slot? id) := by
  intro run
  have hrun : run.1 = .ok () ↔ s.Recomputable := forM_ok_iff_recomputable hs fun _ h => h
  refine ⟨hrun, fun h id table input hr => ?_, ?_⟩
  · obtain ⟨row, hd, hrow⟩ := recomputes_of_forM_ok hs (fun _ h => h) (Prod.ext h rfl) hr
    exact ⟨row, hd, fun row' => ⟨fun h' => h'.unique hrow, fun h' => h' ▸ hrow⟩⟩
  intro visits hv run'
  have hrun' : run'.1 = .ok () ↔ s.Recomputable := forM_ok_iff_recomputable hs fun id => (hv id).2
  refine ⟨hrun'.trans hrun.symm, fun h id => ?_⟩
  have h' := hrun'.2 (hrun.1 h)
  rcases hr : s.row? id with _ | ⟨table, input⟩
  · have hnone : ∀ q, s.Reached q → q.slot? id = none := fun q hq => by
      rw [← Option.not_isSome_iff_eq_none, hq.sound.slot?_isSome, hr]
      nofun
    rw [hnone _ (tame_forM s s.size visits s.initial (reached_initial s)).1]
    exact (hnone _ (tame_forM s s.size s.ids s.initial (reached_initial s)).1).symm
  · obtain ⟨row, hd, hrow⟩ := recomputes_of_forM_ok hs (fun _ h => h) (Prod.ext h rfl) hr
    obtain ⟨row', hd', hrow'⟩ := recomputes_of_forM_ok hs (fun id => (hv id).2) (Prod.ext h' rfl) hr
    exact hd'.trans (hrow.unique hrow' ▸ hd.symm)

/-- A fruit that takes its hue from a computed column of its color. -/
def fruits : Store :=
  let start : Span := ⟨⟨0, 0⟩, ⟨0, 0⟩⟩
  let hue : Expr := .member (.lookup (.identifier "color") (.identifier "color")) "hue"
  ⟨[⟨"fruit", ["id", "color", "hue"], [⟨"hue", hue⟩],
      [⟨"plum", .ofList [("id", .text "plum"), ("color", .text "blue")], start⟩]⟩,
    ⟨"color", ["id", "hue"], [⟨"hue", .identifier "id"⟩],
      [⟨"blue", .ofList [("id", .text "blue")], start⟩]⟩]⟩

theorem fruits_recomputable : fruits.Distinct ∧ fruits.Recomputable := by
  have hs : fruits.Distinct := ⟨by decide, by decide⟩
  have hrun : (runFrom fruits.initial (fruits.materializeAll (m := StateM Progress))).1 =
      .ok () := by
    have hok : (runFrom fruits.initial (fruits.materializeAll (m := StateM Progress))).1.isOk := by
      decide +kernel
    revert hok
    cases (runFrom fruits.initial (fruits.materializeAll (m := StateM Progress))).1 with
    | ok => exact fun _ => rfl
    | error => nofun
  exact ⟨hs, (materializeAll_refines_recompute fruits hs).1.1 hrun⟩

end TableDoc.Store
