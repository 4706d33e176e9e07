import Mathlib
import TableDoc.Proofs.Store.Completion

/-!
# Groups of rows

Items that are grouped by a key are added one after another: each to the group of its key, or to a
new group behind the others (`groups_concat`). So the groups are a partition of the items
(`partition_groups`). Once all rows are done, the values of a formula for the groups of a table are
those for the rows of each group alone, and the values that `count` finds in the groups make up
those that it finds in the table (`aggregateGroups_partition`).
-/

namespace TableDoc.Store

/-! ## Adding items to groups -/

section
variable {α : Type} {keyOf : α → String} {key : String} {a : α} {items : List α}
  {gs : List (String × List α)}

/-- Adds an item to the group of its key, or makes it a new group behind the others. -/
def addTo (key : String) (a : α) : List (String × List α) → List (String × List α)
  | [] => [(key, [a])]
  | (k, members) :: gs =>
    if k = key then (k, members ++ [a]) :: gs else (k, members) :: addTo key a gs

theorem addTo_append {before : List (String × List α)} (h : key ∉ before.map Prod.fst) (a : α)
    (gs : List (String × List α)) : addTo key a (before ++ gs) = before ++ addTo key a gs := by
  induction before with
  | nil => rfl
  | cons g before ih =>
    have hg : g.1 ≠ key := (List.ne_of_not_mem_cons h).symm
    rw [List.cons_append, addTo, if_neg hg, ih (List.not_mem_of_not_mem_cons h), List.cons_append]

theorem addTo_of_notMem (h : key ∉ gs.map Prod.fst) (a : α) :
    addTo key a gs = gs ++ [(key, [a])] := by
  have hadd := addTo_append h a []
  rwa [List.append_nil] at hadd

theorem addTo_of_mem {before after : List (String × List α)} (h : key ∉ before.map Prod.fst) (a : α)
    (members : List α) :
    addTo key a (before ++ (key, members) :: after) = before ++ (key, members ++ [a]) :: after := by
  rw [addTo_append h, addTo, if_pos rfl]

theorem eraseDups_concat (keys : List String) (key : String) :
    (keys ++ [key]).eraseDups = if key ∈ keys then keys.eraseDups else keys.eraseDups ++ [key] := by
  rw [List.eraseDups_append, List.removeAll]
  split
  · next hmem => simp [hmem]
  · next hnot => simp [hnot, List.eraseDups_cons]

theorem nodup_eraseDups (keys : List String) : keys.eraseDups.Nodup := by
  induction keys using List.reverseRecOn with
  | nil => exact .nil
  | append_singleton keys key ih =>
    rw [eraseDups_concat]
    split
    · exact ih
    · next hnot =>
      rw [← List.concat_eq_append]
      exact List.Nodup.concat (fun hmem => hnot (List.mem_eraseDups.1 hmem)) ih

/-- The groups of items are those of the items before the last one, to which this one is added. -/
theorem groups_concat (items : List (String × α)) (key : String) (a : α) :
    groups (items ++ [(key, a)]) = addTo key a (groups items) := by
  let group (items : List (String × α)) (k : String) := (k, (items.filter (·.1 = k)).map Prod.snd)
  -- the item only changes the group of its key
  have hother {keys : List String} (h : key ∉ keys) :
      keys.map (group (items ++ [(key, a)])) = keys.map (group items) := by
    refine List.map_congr_left fun k hk => ?_
    have hne : key ≠ k := fun heq => h (heq ▸ hk)
    simp [group, hne]
  have hkeys (keys : List String) : (keys.map (group items)).map Prod.fst = keys := by
    rw [List.map_map]
    exact List.map_id _
  have hown : group (items ++ [(key, a)]) key = (key, (group items key).2 ++ [a]) := by simp [group]
  change ((items ++ [(key, a)]).map Prod.fst).eraseDups.map (group (items ++ [(key, a)])) =
    addTo key a ((items.map Prod.fst).eraseDups.map (group items))
  rw [List.map_append, List.map_singleton, eraseDups_concat]
  split
  · next hmem =>
    obtain ⟨before, after, hsplit, hbefore⟩ :=
      List.eq_append_cons_of_mem (List.mem_eraseDups.2 hmem)
    have hafter : key ∉ after := by
      have hn := nodup_eraseDups (items.map Prod.fst)
      rw [hsplit] at hn
      exact (List.nodup_cons.1 (List.nodup_append.1 hn).2.1).1
    have hbefore' : key ∉ (before.map (group items)).map Prod.fst := by rwa [hkeys]
    rw [hsplit, List.map_append, List.map_cons, List.map_append, List.map_cons, hother hbefore,
      hother hafter, hown]
    exact (addTo_of_mem hbefore' a _).symm
  · next hnot =>
    have hnot' : key ∉ (items.map Prod.fst).eraseDups :=
      fun hmem => hnot (List.mem_eraseDups.1 hmem)
    have hnone : (group items key).2 = [] := by
      simp only [group, List.map_eq_nil_iff, List.filter_eq_nil_iff, decide_eq_true_eq]
      rintro item hitem rfl
      exact hnot (List.mem_map.2 ⟨item, hitem, rfl⟩)
    rw [List.map_append, List.map_singleton, hother hnot', hown, hnone,
      addTo_of_notMem (by rwa [hkeys])]
    rfl

/-! ## Groups as a partition -/

/-- The groups of some items by their keys. -/
structure Gathered (keyOf : α → String) (items : List α) (gs : List (String × List α)) : Prop where
  keys : (gs.map Prod.fst).Nodup
  /-- A group has the items of its key in their order. -/
  members : ∀ g ∈ gs, g.2 = items.filter (keyOf · = g.1)
  ne_nil : ∀ g ∈ gs, g.2 ≠ []
  /-- The first items of the groups are in the order of the items. -/
  firsts : (gs.flatMap (·.2.take 1)).Sublist items
  /-- The groups have all items, and none of them twice. -/
  perm : (gs.flatMap Prod.snd).Perm items

namespace Gathered

theorem nil (keyOf : α → String) : Gathered keyOf [] [] := ⟨.nil, nofun, nofun, .slnil, .nil⟩

theorem key_eq (h : Gathered keyOf items gs) {g : String × List α} (hg : g ∈ gs) (ha : a ∈ g.2) :
    keyOf a = g.1 := by
  rw [h.members g hg] at ha
  simpa using (List.mem_filter.1 ha).2

theorem exists_group (h : Gathered keyOf items gs) (ha : a ∈ items) : ∃ g ∈ gs, a ∈ g.2 :=
  List.mem_flatMap.1 (h.perm.mem_iff.2 ha)

/-- An item that is added leaves the groups of other keys as they are. -/
theorem members_of_ne (h : Gathered keyOf items gs) {g : String × List α} (hg : g ∈ gs)
    (hne : keyOf a ≠ g.1) :
    g.2 = (items ++ [a]).filter (keyOf · = g.1) := by
  rw [List.filter_append, ← h.members g hg]
  simp [hne]

/-- An item of a new key makes a group behind the others. -/
theorem add_of_notMem (h : Gathered keyOf items gs) (hkey : keyOf a ∉ gs.map Prod.fst) :
    Gathered keyOf (items ++ [a]) (gs ++ [(keyOf a, [a])]) where
  keys := by
    rw [List.map_append, List.map_singleton, ← List.concat_eq_append]
    exact h.keys.concat hkey
  members := by
    refine List.forall_mem_append.2 ⟨fun g hg => h.members_of_ne hg ?_,
      List.forall_mem_singleton.2 ?_⟩
    · exact fun heq => hkey (heq ▸ List.mem_map_of_mem hg)
    · have hnone : items.filter (keyOf · = keyOf a) = [] := by
        simp only [List.filter_eq_nil_iff, decide_eq_true_eq]
        intro b hb heq
        obtain ⟨g, hg, hbg⟩ := h.exists_group hb
        exact hkey (heq ▸ h.key_eq hg hbg ▸ List.mem_map_of_mem hg)
      rw [List.filter_append, hnone]
      simp
  ne_nil := List.forall_mem_append.2 ⟨h.ne_nil, List.forall_mem_singleton.2 (List.cons_ne_nil _ _)⟩
  firsts := by
    rw [List.flatMap_append]
    exact h.firsts.append (.refl _)
  perm := by
    rw [List.flatMap_append]
    exact h.perm.append_right _

/-- An item of a known key is put behind those of its group. -/
theorem add_of_mem {before after : List (String × List α)} {members : List α}
    (h : Gathered keyOf items (before ++ (keyOf a, members) :: after)) :
    Gathered keyOf (items ++ [a]) (before ++ (keyOf a, members ++ [a]) :: after) where
  keys := by
    have hkeys := h.keys
    rwa [List.map_append, List.map_cons] at hkeys ⊢
  members := by
    have hkeys := h.keys
    rw [List.map_append, List.map_cons, List.nodup_middle, ← List.map_append] at hkeys
    have hother {g : String × List α} (hg : g ∈ before ++ after) :
        g.2 = (items ++ [a]).filter (keyOf · = g.1) := by
      refine h.members_of_ne ?_ fun heq =>
        (List.nodup_cons.1 hkeys).1 (List.mem_map.2 ⟨g, hg, heq.symm⟩)
      exact List.perm_middle.mem_iff.2 (List.mem_cons_of_mem _ hg)
    intro g hg
    rcases List.mem_cons.1 (List.perm_middle.mem_iff.1 hg) with rfl | hg
    · have hown : members = items.filter (keyOf · = keyOf a) :=
        h.members (keyOf a, members) (by simp)
      rw [List.filter_append, ← hown]
      simp
    · exact hother hg
  ne_nil := by
    obtain ⟨hbefore, hafter⟩ := List.forall_mem_append.1 h.ne_nil
    refine List.forall_mem_append.2 ⟨hbefore, List.forall_mem_cons.2 ⟨List.concat_ne_nil _ _, ?_⟩⟩
    exact (List.forall_mem_cons.1 hafter).2
  firsts := by
    have hfirst : (members ++ [a]).take 1 = members.take 1 := by
      have hne : members ≠ [] := h.ne_nil (keyOf a, members) (by simp)
      exact List.take_append_of_le_length (List.length_pos_iff.2 hne)
    have hfirsts := h.firsts
    rw [List.flatMap_append, List.flatMap_cons] at hfirsts ⊢
    rw [hfirst]
    exact hfirsts.trans (List.sublist_append_left _ _)
  perm := by
    have hperm := h.perm.append_right [a]
    rw [List.flatMap_append, List.flatMap_cons] at hperm ⊢
    refine List.Perm.trans ?_ hperm
    rw [List.append_assoc, List.append_assoc, List.append_assoc]
    exact .append_left _ (.append_left _ List.perm_append_comm)

/-- What the groups are stays true with one more item. -/
theorem add (h : Gathered keyOf items gs) (a : α) :
    Gathered keyOf (items ++ [a]) (addTo (keyOf a) a gs) := by
  by_cases hkey : keyOf a ∈ gs.map Prod.fst
  · obtain ⟨⟨key, members⟩, hg, rfl : key = keyOf a⟩ := List.mem_map.1 hkey
    obtain ⟨before, after, rfl⟩ := List.append_of_mem hg
    have hkeys := h.keys
    rw [List.map_append, List.map_cons, List.nodup_middle] at hkeys
    have hbefore : keyOf a ∉ before.map Prod.fst := fun hmem =>
      (List.nodup_cons.1 hkeys).1 (List.mem_append_left _ hmem)
    rw [addTo_of_mem hbefore]
    exact h.add_of_mem
  · rw [addTo_of_notMem hkey]
    exact h.add_of_notMem hkey

end Gathered

theorem gathered_groups (keyOf : α → String) (items : List α) :
    Gathered keyOf items (groups (items.map fun a => (keyOf a, a))) := by
  induction items using List.reverseRecOn with
  | nil => exact .nil keyOf
  | append_singleton items a ih =>
    rw [List.map_append, List.map_singleton, groups_concat]
    exact ih.add a

/-- The groups are a partition of the items: every item is in one group, together with the items of
the same key. -/
structure Partition (keyOf : α → String) (items : List α) (gs : List (String × List α)) : Prop
    extends Gathered keyOf items gs where
  once : ∀ a ∈ items, ∃! g, g ∈ gs ∧ a ∈ g.2
  together : ∀ a ∈ items, ∀ b ∈ items, (∃ g ∈ gs, a ∈ g.2 ∧ b ∈ g.2) ↔ keyOf a = keyOf b

theorem partition_groups (keyOf : α → String) (items : List α) :
    Partition keyOf items (groups (items.map fun a => (keyOf a, a))) := by
  have h := gathered_groups keyOf items
  refine { h with once := fun a ha => ?_, together := fun a ha b hb => ⟨?_, fun hab => ?_⟩ }
  · obtain ⟨g, hg, hag⟩ := h.exists_group ha
    refine ⟨g, ⟨hg, hag⟩, fun g' ⟨hg', hag'⟩ => ?_⟩
    exact List.inj_on_of_nodup_map h.keys hg' hg ((h.key_eq hg' hag').symm.trans (h.key_eq hg hag))
  · rintro ⟨g, hg, hag, hbg⟩
    exact (h.key_eq hg hag).trans (h.key_eq hg hbg).symm
  · obtain ⟨g, hg, hag⟩ := h.exists_group ha
    refine ⟨g, hg, hag, ?_⟩
    rw [h.members g hg]
    exact List.mem_filter.2 ⟨hb, by rw [← hab, h.key_eq hg hag, decide_eq_true rfl]⟩

/-- What is counted in the groups makes up what is counted in all. -/
theorem Gathered.sum_countP (h : Gathered keyOf items gs) (counted : α → Bool) :
    (gs.map fun g => g.2.countP counted).sum = items.countP counted := by
  rw [← h.perm.countP_eq counted, List.countP_flatMap]
  rfl

end

/-! ## Rows that are folded -/

open Formula (AggregateFunction Context Error Expr Simulation)

variable {s : Store} {p q : Progress} {name column : String} {t : Nat} {table : InputTable}
  {columns : List String} {ids : List RowId}

/-- What the formula of an aggregate can reach, given the columns of a table and the rows that are
folded. -/
def rowsContext (s : Store) (columns : List String) (rows : List Row) :
    Context (StateM Progress) where
  resolve _ := none
  lookup := s.lookup
  aggregate f column :=
    if column ∈ columns then liftM (f.apply (rows.map (valueOf · column)))
    else throw (.unknownReference column)

/-- Computations that give the same from a point on and change nothing, as a relation that formulas
keep. -/
def unchanged (p : Progress) : Simulation (StateM Progress) (StateM Progress) where
  rel x y := runFrom p x = runFrom p y ∧ Still p x
  pure _ := ⟨rfl, rfl⟩
  throw _ := ⟨rfl, rfl⟩
  bind {α β x y f g} hx hf := by
    refine ⟨?_, hx.2.bind fun a => (hf a).2⟩
    rw [runFrom_bind, runFrom_bind, ← hx.1]
    rcases hrun : runFrom p x with ⟨e | v, q⟩
    · rfl
    · obtain rfl : q = p := (congrArg Prod.snd hrun).symm.trans hx.2
      exact (hf v).1

/-- Once all rows are done, a formula folds the rows that are there. -/
theorem runFrom_evaluate_aggregateContext (hp : s.Finished p) (columns : List String)
    (ids : List RowId) (e : Expr) :
    runFrom p (e.evaluate (s.aggregateContext columns ids)) =
      runFrom p (e.evaluate (s.rowsContext columns (ids.map p.row))) := by
  have hagree : (unchanged p).Agree (s.aggregateContext columns ids)
      (s.rowsContext columns (ids.map p.row)) :=
    { reference := (unchanged p).reference_of_resolve rfl
      lookup := fun table key => ⟨rfl, still_lookup hp table key⟩
      aggregate := fun f column => by
        dsimp only [aggregateContext, rowsContext]
        by_cases hcolumn : column ∈ columns
        · rw [if_pos hcolumn, if_neg (not_not_intro hcolumn), List.map_map]
          exact ⟨rfl, Still.bind (x := get) rfl fun _ => .lift _⟩
        · rw [if_neg hcolumn, if_pos hcolumn]
          exact ⟨rfl, rfl⟩ }
  exact (hagree.evaluate e).1

/-- The rows of a table, by their numbers. -/
def rowIds (t : Nat) (table : InputTable) : List RowId :=
  (List.range table.rows.length).map (RowId.mk t)

/-- The columns and rows that an aggregate folds are those of the table of its name. -/
theorem foldable_eq_ok_iff {found : List String × List RowId} : s.foldable name = .ok found ↔
    ∃ t table, s.tableIndex? name = some t ∧ s.tables[t]? = some table ∧
      found = (table.columns, rowIds t table) := by
  rw [foldable]
  split
  · next hname => exact iff_of_false nofun fun ⟨t, _, ht, _⟩ => nomatch hname.symm.trans ht
  · next t ht =>
    split
    · next hnone =>
      refine iff_of_false nofun fun ⟨t', table, ht', htable, _⟩ => ?_
      cases ht.symm.trans ht'
      cases hnone.symm.trans htable
    · next table htable =>
      constructor
      · rintro ⟨⟩
        exact ⟨t, table, ht, htable, rfl⟩
      · rintro ⟨t', table', ht', htable', rfl⟩
        cases ht.symm.trans ht'
        cases htable.symm.trans htable'
        rfl

/-- A value of a whole table is that of the rows that are there. -/
theorem runFrom_aggregate (hp : s.Finished p) (h : s.foldable name = .ok (columns, ids))
    (e : Expr) :
    runFrom p (s.aggregate name e) =
      runFrom p (e.evaluate (s.rowsContext columns (ids.map p.row))) := by
  rw [← runFrom_evaluate_aggregateContext hp, aggregate, h]
  rfl

/-- The values of the groups of a table are computed one after another. -/
theorem runFrom_aggregateGroups (h : s.foldable name = .ok (columns, ids)) (e : Expr) :
    runFrom p (s.aggregateGroups name column e) =
      runFrom p
        ((groups (ids.map fun id => ((valueOf (p.row id) column).toText, id))).mapM fun g => do
        return (g.1, ← e.evaluate (s.aggregateContext columns g.2))) := by
  rw [aggregateGroups, h]
  rfl

/-- The value of a group is that of the rows that are there. -/
theorem runFrom_group (hp : s.Finished p) (columns : List String) (g : String × List RowId)
    (e : Expr) :
    runFrom p (do return (g.1, ← e.evaluate (s.aggregateContext columns g.2))) =
      match runFrom p (e.evaluate (s.rowsContext columns (g.2.map p.row))) with
      | (.ok value, q) => (.ok (g.1, value), q)
      | (.error e, q) => (.error e, q) := by
  rw [runFrom_bind, runFrom_evaluate_aggregateContext hp]
  rcases runFrom p (e.evaluate (s.rowsContext columns (g.2.map p.row))) with ⟨_ | _, q⟩ <;> rfl

/-- Items that are all read, and change nothing. -/
theorem runFrom_mapM {ε α β : Type} {f : α → ExceptT ε (StateM Progress) β} {read : α → β}
    {as : List α} (h : ∀ a ∈ as, runFrom p (f a) = (.ok (read a), p)) :
    runFrom p (as.mapM f) = (.ok (as.map read), p) := by
  induction as with
  | nil => rfl
  | cons a as ih =>
    obtain ⟨ha, has⟩ := List.forall_mem_cons.1 h
    rw [List.mapM_cons, runFrom_bind, ha]
    dsimp only
    rw [runFrom_bind, ih has]
    rfl

theorem rows_eq_map_row (hp : s.Reached p) (hfinished : s.Finished p)
    (hname : s.tableIndex? name = some t) (htable : s.tables[t]? = some table) :
    s.rows p name = (rowIds t table).map p.row := by
  refine List.ext_getElem? fun r => ?_
  rw [getElem?_rows hname, rowIds, List.map_map, List.getElem?_map]
  cases hinput : table.rows[r]? with
  | none =>
    have hrange : (List.range table.rows.length)[r]? = none := by simpa using hinput
    rw [hp.sound.slot?_eq_none htable hinput, hrange]
    rfl
  | some input =>
    have hrow : s.row? ⟨t, r⟩ = some (table, input) := row?_eq_some.2 ⟨htable, hinput⟩
    obtain ⟨row, hdone⟩ := hfinished ⟨t, r⟩ (by rw [hrow]; rfl)
    rw [List.getElem?_range (List.getElem?_eq_some_iff.1 hinput).1, Option.map_some,
      Function.comp_apply, Progress.row, hdone]
    rfl

/-! ## Values that are counted -/

/-- The formula that counts the values of a column. -/
def counting (column : String) : Expr := .call "count" [.identifier column]

/-- The number of rows that have a value in a column. -/
def counted (column : String) (rows : List Row) : Nat :=
  rows.countP fun row => valueOf row column ≠ .null

/-- Counting a column gives the number of rows that have a value in it. -/
theorem runFrom_counting (hcolumn : column ∈ columns) (rows : List Row) :
    runFrom p ((counting column).evaluate (s.rowsContext columns rows)) =
      (.ok (.number (.ofNat (counted column rows))), p) := by
  have happly : AggregateFunction.count.apply (rows.map (valueOf · column)) =
      .ok (.number (.ofNat (counted column rows))) := by
    rw [AggregateFunction.apply, if_pos rfl, List.filter_map, List.length_map,
      ← List.countP_eq_length_filter]
    rfl
  have hfold : (s.rowsContext columns rows).aggregate .count column =
      pure (.number (.ofNat (counted column rows))) := by
    dsimp only [rowsContext]
    rw [if_pos hcolumn, happly]
    rfl
  have hvalue : (counting column).value (s.rowsContext columns rows) = do
      return .scalar (← (s.rowsContext columns rows).aggregate .count column) := by
    have hbuiltin : Formula.Builtin.ofName? "count" = none := by decide +kernel
    have hcount : AggregateFunction.ofName? "count" = some .count := by decide +kernel
    rw [counting]
    simp only [Expr.value, hbuiltin, hcount, Formula.aggregateColumn]
    rfl
  rw [Expr.evaluate, hvalue, hfold]
  rfl

/-- The groups of a table are a partition of its rows by the texts of their values in a column, in
the order of their first rows. The value of a group is the value that the formula has for a table if
only the rows of the group are folded, and the values of a column that are counted in the groups
make up those that are counted in the table. -/
theorem aggregateGroups_partition {formula : Expr} {result : List (String × Scalar)}
    (hdone : runFrom s.initial s.materializeAll = (.ok (), p))
    (h : runFrom p (s.aggregateGroups name column formula) = (.ok result, q)) :
    q = p ∧ ∃ t table groups, s.tableIndex? name = some t ∧ s.tables[t]? = some table ∧
      s.rows p name = (rowIds t table).map p.row ∧
      Partition (fun id => (valueOf (p.row id) column).toText) (rowIds t table) groups ∧
      (∀ e, runFrom p (s.aggregate name e) =
        runFrom p (e.evaluate (s.rowsContext table.columns (s.rows p name)))) ∧
      List.Forall₂ (fun group value => value.1 = group.1 ∧
        runFrom p (formula.evaluate (s.rowsContext table.columns (group.2.map p.row))) =
          (.ok value.2, p))
        groups result ∧
      ∀ c ∈ table.columns,
        runFrom p (s.aggregateGroups name column (counting c)) =
          (.ok (groups.map fun g => (g.1, .number (.ofNat (counted c (g.2.map p.row))))), p) ∧
        runFrom p (s.aggregate name (counting c)) =
          (.ok (.number (.ofNat (counted c (s.rows p name)))), p) ∧
        (groups.map fun g => counted c (g.2.map p.row)).sum = counted c (s.rows p name) := by
  obtain ⟨hreached, hfinished⟩ := finished_of_materializeAll_ok hdone
  have hstill := still_aggregateGroups hfinished name column formula
  obtain rfl : q = p := by
    rw [Still, h] at hstill
    exact hstill
  rcases hfound : s.foldable name with e | found
  · rw [aggregateGroups, hfound] at h
    cases h
  obtain ⟨t, table, hname, htable, rfl⟩ := foldable_eq_ok_iff.1 hfound
  have hrows := rows_eq_map_row hreached hfinished hname htable
  have hpartition :=
    partition_groups (fun id => (valueOf (q.row id) column).toText) (rowIds t table)
  refine ⟨rfl, t, table, _, hname, htable, hrows, hpartition, fun e => ?_, ?_,
    fun c hc => ⟨?_, ?_, ?_⟩⟩
  · rw [runFrom_aggregate hfinished hfound, hrows]
  · rw [runFrom_aggregateGroups hfound] at h
    refine (forall₂_of_runFrom_mapM (fun g => ?_) h).imp fun g value hg => ?_
    · exact (still_evaluate hfinished _ _ _).bind fun _ => .pure _
    · rw [runFrom_group hfinished] at hg
      rcases hvalue : runFrom q (formula.evaluate (s.rowsContext table.columns (g.2.map q.row)))
        with ⟨e | v, q'⟩
      · rw [hvalue] at hg
        cases hg
      · have hstill := still_evaluate hfinished table.columns g.2 formula
        rw [Still, runFrom_evaluate_aggregateContext hfinished, hvalue] at hstill
        rw [hvalue] at hg
        cases hg
        cases hstill
        exact ⟨rfl, rfl⟩
  · rw [runFrom_aggregateGroups hfound]
    refine runFrom_mapM fun g _ => ?_
    rw [runFrom_group hfinished, runFrom_counting hc]
  · rw [runFrom_aggregate hfinished hfound, ← hrows, runFrom_counting hc]
  · rw [hrows, counted, List.countP_map, ← hpartition.sum_countP]
    simp only [counted, List.countP_map]

/-- Hours of work on two projects. -/
def workHours : Store :=
  let row (id project : String) (hours : Float) (line : Nat) : InputRow :=
    ⟨id, .ofList [("id", .text id), ("project", .text project), ("hours", .number hours)],
      .within line 0 1⟩
  ⟨[⟨"work", ["id", "project", "hours"], [],
    [row "a" "Alpha" 8 1, row "b" "Beta" 7 2, row "c" "Alpha" 7 3]⟩]⟩

theorem aggregateGroups_partition_workHours :
    ∃ p, runFrom workHours.initial workHours.materializeAll = (.ok (), p) ∧
      runFrom p (workHours.aggregateGroups "work" "project" (.call "sum" [.identifier "hours"])) =
        (.ok [("Alpha", .number 15), ("Beta", .number 7)], p) ∧
      ∃ t table groups, workHours.tables[t]? = some table ∧
        groups.map Prod.fst = ["Alpha", "Beta"] ∧
        Partition (fun id => (valueOf (p.row id) "project").toText) (rowIds t table) groups := by
  have hall :
      (runFrom workHours.initial (workHours.materializeAll (m := StateM Progress))).1.isOk := by
    decide +kernel
  have hsums :
      (runFrom (runFrom workHours.initial (workHours.materializeAll (m := StateM Progress))).2
        (workHours.aggregateGroups "work" "project"
          (.call "sum" [.identifier "hours"]))).1.toOption =
        some [("Alpha", .number 15), ("Beta", .number 7)] := by
    decide +kernel
  rcases hdone : runFrom workHours.initial (workHours.materializeAll (m := StateM Progress)) with
    ⟨e | ⟨⟩, p⟩ <;>
    rw [hdone] at hall hsums
  · cases hall
  rcases hgroups : runFrom p
    (workHours.aggregateGroups "work" "project" (.call "sum" [.identifier "hours"]))
      with ⟨e | result, q⟩ <;> rw [hgroups] at hsums
  · cases hsums
  cases hsums
  obtain ⟨rfl, t, table, groups, -, htable, -, hpartition, -, hvalues, -⟩ :=
    aggregateGroups_partition hdone hgroups
  exact ⟨q, rfl, hgroups, t, table, groups, htable, forall₂_map_eq hvalues fun _ _ h => h.1.symm,
    hpartition⟩

end TableDoc.Store
