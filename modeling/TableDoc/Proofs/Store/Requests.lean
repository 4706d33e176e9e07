import TableDoc.Proofs.Formula.Arrangement
import TableDoc.Proofs.Store.Run

/-!
# Columns that are asked for

`Expr.asked` lists the columns of its own row that the evaluation of a formula asks for; all of them
are among those that the formula reads, and no others have an effect
(`Expr.runFrom_evaluate_congr`). While a row is being computed (`Evaluating`), the columns that are
not there yet are those that are still to be computed (`Evaluating.contains`). So if the computed
columns are arranged, a formula only asks for columns of its own table that are there
(`Evaluating.contains_of_asked`).
-/

namespace TableDoc.Formula

open Store (runFrom runFrom_bind)

/-! ## What an evaluation asks for -/

variable {σ : Type} {c d : Context (StateM σ)} {e : Expr} {a : σ} {name : String}

/-- What is asked for after a scalar has been computed. -/
def askedNext (a : σ) (x : ExceptT Error (StateM σ) Scalar) (f : Scalar → σ → List String) :
    List String :=
  match runFrom a x with
  | (.ok s, b) => f s b
  | (.error _, _) => []

/-- The columns of the row that the evaluation of a formula asks for when it starts in a state, in
order. It follows the evaluation: what comes after a failure is not asked for, nor is the branch
that is not taken. -/
def Expr.asked (c : Context (StateM σ)) : Expr → σ → List String
  | .number _, _ | .text _, _ | .boolean _, _ => []
  | .identifier name, _ => [name]
  | .unary _ operand, a => operand.asked c a
  | .binary _ left right, a =>
    left.asked c a ++ askedNext a (left.evaluate c) fun _ b => right.asked c b
  | .call function arguments, a =>
    match Builtin.ofName? function, arguments with
    | some .round, [amount, places] =>
      amount.asked c a ++ askedNext a (amount.evaluate c) fun _ b => places.asked c b
    | some .cond, [condition, yes, no] =>
      condition.asked c a ++ askedNext a (condition.evaluate c) fun s b =>
        match s with
        | .boolean true => yes.asked c b
        | .boolean false => no.asked c b
        | _ => []
    | _, _ => []
  | .member base _, a => base.asked c a
  | .lookup table key, a => if table.identifier?.isSome then key.asked c a else []

theorem mem_askedNext {x : ExceptT Error (StateM σ) Scalar} {f : Scalar → σ → List String} :
    name ∈ askedNext a x f ↔ ∃ s b, runFrom a x = (.ok s, b) ∧ name ∈ f s b := by
  rw [askedNext]
  rcases runFrom a x with ⟨_ | s, b⟩ <;> simp

/-- What is asked for is read by the formula. -/
theorem Expr.references_of_asked {refs : List String} (h : e.references = .ok refs)
    (hn : name ∈ e.asked c a) :
    name ∈ refs := by
  have operand {e x : Expr} {refs : List String} {b : σ} 
      (ih : ∀ {refs}, x.references = .ok refs → name ∈ x.asked c b → name ∈ refs)
      (h : e.references = .ok refs) (hx : x ∈ e.operands) (hn : name ∈ x.asked c b) :
        name ∈ refs := by
    obtain ⟨found, hfound, hsub⟩ := Expr.references_of_mem_operands h hx
    exact hsub (ih hfound hn)
  fun_induction Expr.asked c e a generalizing refs with
  | case1 | case2 | case3 | case9 | case12 => cases hn
  | case4 =>
    cases h
    exact hn
  | case5 a op x ih | case10 _ _ _ ih | case11 _ _ _ _ ih =>
    exact operand ih h List.mem_cons_self hn
  | case6 op left right a ihl ihr =>
    rcases List.mem_append.1 hn with hn | hn
    · exact operand ihl h List.mem_cons_self hn
    · obtain ⟨s, b, -, hn⟩ := mem_askedNext.1 hn
      exact operand (ihr b) h (List.mem_cons_of_mem _ List.mem_cons_self) hn
  | case7 function a amount places hf iha ihp =>
    rcases List.mem_append.1 hn with hn | hn
    · exact operand iha h (Expr.mem_operands_call hf List.mem_cons_self) hn
    · obtain ⟨s, b, -, hn⟩ := mem_askedNext.1 hn
      exact operand (ihp b) h
        (Expr.mem_operands_call hf (List.mem_cons_of_mem _ List.mem_cons_self)) hn
  | case8 function a condition yes no hf ihc ihy ihn =>
    rcases List.mem_append.1 hn with hn | hn
    · exact operand ihc h (Expr.mem_operands_call hf List.mem_cons_self) hn
    · obtain ⟨s, b, -, hn⟩ := mem_askedNext.1 hn
      split at hn
      · exact operand (ihy b) h
          (Expr.mem_operands_call hf (List.mem_cons_of_mem _ List.mem_cons_self)) hn
      · exact operand (ihn b) h
          (Expr.mem_operands_call hf
            (List.mem_cons_of_mem _ (List.mem_cons_of_mem _ List.mem_cons_self))) hn
      · cases hn

/-- What is not asked for does not matter. -/
theorem Expr.runFrom_value_congr (hl : c.lookup = d.lookup) (ha : c.aggregate = d.aggregate)
    (h : ∀ name ∈ e.asked c a, c.resolve name = d.resolve name) :
    runFrom a (e.value c) = runFrom a (e.value d) := by
  have scalar {x : Expr} {b : σ} (hx : runFrom b (x.value c) = runFrom b (x.value d)) :
      runFrom b (x.evaluate c) = runFrom b (x.evaluate d) := by
    rw [Expr.evaluate, Expr.evaluate, runFrom_bind, runFrom_bind, hx]
  have next {x : Expr} {b : σ} {f g : Scalar → ExceptT Error (StateM σ) Value}
      (hx : runFrom b (x.value c) = runFrom b (x.value d))
      (hf : ∀ s b', runFrom b (x.evaluate c) = (.ok s, b') → runFrom b' (f s) = runFrom b' (g s)) :
      runFrom b (x.evaluate c >>= f) = runFrom b (x.evaluate d >>= g) := by
    rw [runFrom_bind, runFrom_bind, ← scalar hx]
    rcases hb : runFrom b (x.evaluate c) with ⟨_ | s, b'⟩
    · rfl
    · exact hf s b' hb
  fun_induction Expr.asked c e a with
  | case1 | case2 | case3 => rw [Expr.value, Expr.value]
  | case4 name => rw [Expr.value_identifier, Expr.value_identifier, h _ List.mem_cons_self]
  | case5 op x a ih =>
    rw [Expr.value_unary, Expr.value_unary]
    exact next (ih h) fun s b _ => rfl
  | case6 op left right a ihl ihr =>
    obtain ⟨hleft, hright⟩ := List.forall_mem_append.1 h
    rw [Expr.value_binary, Expr.value_binary]
    refine next (ihl hleft) fun s b hb =>
      next (ihr b fun name hn => hright name ?_) fun t b' _ => rfl
    exact mem_askedNext.2 ⟨s, b, hb, hn⟩
  | case7 function a amount places hf iha ihp =>
    obtain ⟨hfirst, hsecond⟩ := List.forall_mem_append.1 h
    rw [Expr.value_round hf, Expr.value_round hf]
    refine next (iha hfirst) fun s b hb =>
      next (ihp b fun name hn => hsecond name ?_) fun t b' _ => rfl
    exact mem_askedNext.2 ⟨s, b, hb, hn⟩
  | case8 function a condition yes no hf ihc ihy ihn =>
    obtain ⟨hfirst, hsecond⟩ := List.forall_mem_append.1 h
    rw [Expr.value_cond hf, Expr.value_cond hf]
    refine next (ihc hfirst) fun s b hb => ?_
    have hbranch := fun name hn => hsecond name (mem_askedNext.2 ⟨s, b, hb, hn⟩)
    split
    · exact ihy b hbranch
    · exact ihn b hbranch
    · rfl
  | case9 function arguments a hround hcond =>
    rw [Expr.value.eq_def, Expr.value.eq_def, ha]
    dsimp only
    split
    · next hf =>
      split
      · exact absurd rfl (hround _ _ hf)
      · rfl
    · next hf =>
      split
      · exact absurd rfl (hcond _ _ _ hf)
      · rfl
    · rfl
  | case10 base field a ih =>
    rw [Expr.value, Expr.value, runFrom_bind, runFrom_bind, ih h]
  | case11 table key a ht ih =>
    obtain ⟨name, ht⟩ := Option.isSome_iff_exists.1 ht
    rw [Expr.value_lookup ht, Expr.value_lookup ht, hl]
    exact next (ih h) fun s b _ => rfl
  | case12 table key a ht => 
    rw [Option.not_isSome_iff_eq_none] at ht
    rw [Expr.value, Expr.value, ht]

theorem Expr.runFrom_evaluate_congr (hl : c.lookup = d.lookup) (ha : c.aggregate = d.aggregate)
    (h : ∀ name ∈ e.asked c a, c.resolve name = d.resolve name) :
    runFrom a (e.evaluate c) = runFrom a (e.evaluate d) := by
  rw [Expr.evaluate, Expr.evaluate, runFrom_bind, runFrom_bind, Expr.runFrom_value_congr hl ha h]

theorem runFrom_identifier {v : Scalar} (h : c.resolve name = some v) :
    runFrom a ((Expr.identifier name).evaluate c) = (.ok v, a) := by
  rw [Expr.evaluate, Expr.value_identifier, h]
  rfl

end TableDoc.Formula

namespace TableDoc.Store

open Formula (Definition)
open Formula.Dependencies (Arranged)

/-! ## Rows that are being computed -/

/-- The row `id` has been taken out at a point of a run and now has the columns `row`; the columns
`ds` are still to be computed. -/
inductive Evaluating (s : Store) (depth : Nat) (id : RowId) :
    List Definition → Row → Progress → Prop
  | enter : s.Reached p → s.row? id = some (table, input) → p.slot? id = some (.pending row) →
    Evaluating s depth id table.computed row (p.enter id)
  | next : Evaluating s depth id (d :: ds) row p →
    runFrom p (d.formula.evaluate (rowContext (s.lookupBy (s.materialize depth)) row)) =
      (.ok v, q) →
    Evaluating s depth id ds (row.insert d.name v) q

variable {s : Store} {id : RowId} {row row' : Row} {table : InputTable} {input : InputRow}
  {p : Progress} {depth : Nat} {d : Definition} {ds : List Definition} {name : String}

theorem contains_insert (h : row.contains name) (v : Scalar) :
    (row.insert d.name v).contains name := by
  rw [Row.contains, Row.get?_insert]
  split
  · rfl
  · exact h

/-- A column that is there stays there. -/
theorem Inserted.contains (h : Inserted ds row row') (hn : row.contains name) :
    row'.contains name := by
  induction h with
  | nil => exact hn
  | cons _ ih => exact ih (contains_insert hn _)

/-- A row loses none of the columns that it has been given. -/
theorem Reached.contains_of_pending (h : s.Reached p) (hr : s.row? id = some (table, input))
    (hp : p.slot? id = some (.pending row)) (hn : input.cells.contains name) :
    row.contains name := by
  obtain ⟨past, out, h⟩ := h
  have hrows :
      s.Rows (fun _ input row => input.cells.contains name → row.contains name)
        (fun _ _ _ => True) p out :=
    h.rows (fun _ h => h) (fun _ hrow _ hi h => hi.contains (hrow h)) (fun _ _ _ => trivial) p rfl
  exact hrows.pending hr hp hn

/-- What is still to be computed is arranged, and all other columns are there. -/
theorem Evaluating.invariant (h : s.Evaluating depth id ds row p)
    (hr : s.row? id = some (table, input)) (harranged : Arranged table.computed) :
    Arranged ds ∧ ∀ name,
      input.cells.contains name ∨ name ∈ table.computed.map Definition.name →
        name ∉ ds.map Definition.name → row.contains name := by
  induction h with
  | enter hp hr' hpend =>
    cases hr.symm.trans hr'
    exact ⟨harranged,
      fun name hname hds => hp.contains_of_pending hr hpend (hname.resolve_right hds)⟩
  | @next d ds _ _ _ _ _ _ ih =>
    obtain ⟨harranged, hrow⟩ := ih
    cases harranged with
    | cons _ _ _ hlater =>
      refine ⟨hlater, fun name hname hds => ?_⟩
      by_cases hd : name = d.name
      · rw [Row.contains, Row.get?_insert, if_pos hd]
        rfl
      · refine contains_insert (hrow name hname fun hmem => ?_) _
        exact (List.mem_cons.1 hmem).elim hd hds

/-- The formulas of a row only ask for columns that are there, among those that the row has at all.
-/
theorem Evaluating.contains_of_asked (h : s.Evaluating depth id (d :: ds) row p)
    (hr : s.row? id = some (table, input)) (harranged : Arranged table.computed)
    (hname : input.cells.contains name ∨ name ∈ table.computed.map Definition.name)
    (hasked : name ∈ d.formula.asked (rowContext (s.lookupBy (s.materialize depth)) row) p) :
    row.contains name := by
  obtain ⟨harranged, hrow⟩ := h.invariant hr harranged
  cases harranged with
  | cons hrefs hlater _ _ =>
    exact hrow name hname (hlater name (Formula.Expr.references_of_asked hrefs hasked))

end TableDoc.Store
