import TableDoc.Row

/-!
# Insertions into rows

What an insertion leaves as it was: cells before the column (`Row.prefix_insert`), and the whole row
if the column has the value already (`Row.insert_eq_self`). Cells of different columns make the row
that has just these cells (`Row.cells_ofList`); in any case a value of the row is that of a cell
(`Row.mem_of_get?_ofList`).
-/

namespace TableDoc.Row

variable {r : Row} {column : String} {value : Scalar} {cells : List (String × Scalar)}

theorem insertCell_eq_self (h : cells.lookup column = some value) :
    insertCell column value cells = cells := by
  induction cells with
  | nil => cases h
  | cons cell cells ih =>
    obtain ⟨c, v⟩ := cell
    rw [List.lookup_cons] at h
    rw [insertCell]
    by_cases hc : c = column
    · subst hc
      rw [beq_self_eq_true] at h
      cases h
      exact if_pos rfl
    · rw [beq_eq_false_iff_ne.2 (Ne.symm hc)] at h
      rw [if_neg hc, ih h]

theorem insert_eq_self (h : r.get? column = some value) : r.insert column value = r :=
  Row.ext (insertCell_eq_self h)

theorem insertCell_append (h : column ∉ cells.map Prod.fst) (rest : List (String × Scalar)) :
    insertCell column value (cells ++ rest) = cells ++ insertCell column value rest := by
  induction cells with
  | nil => rfl
  | cons cell cells ih =>
    rw [List.map_cons, List.mem_cons, not_or] at h
    rw [List.cons_append, insertCell, if_neg (Ne.symm h.1), ih h.2, List.cons_append]

theorem prefix_insert (h : cells <+: r.cells) (hc : column ∉ cells.map Prod.fst) :
    cells <+: (r.insert column value).cells := by
  obtain ⟨rest, hr⟩ := h
  refine ⟨insertCell column value rest, ?_⟩
  rw [← insertCell_append hc, hr]
  rfl

theorem columns_insert_of_notMem (h : column ∉ r.columns) :
    (r.insert column value).columns = r.columns ++ [column] := by rw [columns_insert, if_neg h]

theorem cells_insert_of_notMem (h : column ∉ r.columns) :
    (r.insert column value).cells = r.cells ++ [(column, value)] := by
  have hc : insertCell column value (r.cells ++ []) = r.cells ++ [(column, value)] :=
    insertCell_append h []
  rw [List.append_nil] at hc
  exact hc

/-- New columns are put behind the others in their order. -/
theorem cells_foldl_insert (h : (r.columns ++ cells.map Prod.fst).Nodup) :
    (cells.foldl (fun r cell => r.insert cell.1 cell.2) r).cells = r.cells ++ cells := by
  induction cells generalizing r with
  | nil => exact (List.append_nil _).symm
  | cons cell cells ih =>
    obtain ⟨c, v⟩ := cell
    have hc : c ∉ r.columns :=
      fun hmem => (List.nodup_append.1 h).2.2 c hmem c List.mem_cons_self rfl
    have hlater : ((r.insert c v).columns ++ cells.map Prod.fst).Nodup := by
      rw [columns_insert_of_notMem hc, List.append_assoc]
      exact h
    rw [List.foldl_cons, ih hlater, cells_insert_of_notMem hc, List.append_assoc]
    rfl

theorem cells_ofList (h : (cells.map Prod.fst).Nodup) : (ofList cells).cells = cells :=
  cells_foldl_insert h

theorem mem_or_of_get?_foldl_insert
    (h : (cells.foldl (fun r cell => r.insert cell.1 cell.2) r).get? column = some value) :
    (column, value) ∈ cells ∨ r.get? column = some value := by
  induction cells generalizing r with
  | nil => exact .inr h
  | cons cell cells ih =>
    rcases ih h with hmem | hget
    · exact .inl (List.mem_cons_of_mem _ hmem)
    · rw [get?_insert] at hget
      split at hget
      · next hc =>
        cases hget
        exact .inl (hc ▸ List.mem_cons_self)
      · exact .inr hget

/-- Of several cells of a column it is the last that counts, so a value is always that of a cell. -/
theorem mem_of_get?_ofList (h : (ofList cells).get? column = some value) :
    (column, value) ∈ cells :=
  (mem_or_of_get?_foldl_insert h).resolve_right nofun

/-- A row has the values of its cells. -/
theorem get?_eq_some_iff : r.get? column = some value ↔ (column, value) ∈ r.cells := by
  obtain ⟨cells, hn⟩ := r
  rw [get?]
  dsimp only
  induction cells with
  | nil => exact iff_of_false (by rintro ⟨⟩) List.not_mem_nil
  | cons cell cells ih =>
    obtain ⟨c, v⟩ := cell
    obtain ⟨hc, hn⟩ := List.nodup_cons.1 hn
    rw [List.lookup_cons, List.mem_cons, Prod.mk.injEq]
    by_cases h : column = c
    · subst h
      have hnone : (column, value) ∉ cells := fun hmem => hc (List.mem_map.2 ⟨_, hmem, rfl⟩)
      rw [beq_self_eq_true, or_iff_left hnone]
      dsimp only
      rw [Option.some.injEq]
      exact ⟨fun hv => ⟨rfl, hv.symm⟩, fun hv => hv.2.symm⟩
    · rw [beq_eq_false_iff_ne.2 h, or_iff_right fun hv => h hv.1]
      exact ih hn

end TableDoc.Row
