import TableDoc.Proofs.Formula.Correspondence
import TableDoc.Proofs.Formula.Printing
import TableDoc.Proofs.Sequence

/-!
# Which aggregate calls are checked

An aggregate is called with one column (`Expr.WellCalled`). Before a formula is evaluated this is
checked of the formula and of the operands in it, at any depth (`Expr.Consults`,
`Expr.checkAggregates_eq_ok_iff`). A formula in the table of a lookup is none of these. So the check
finds every wrong call but those in such tables, and a lookup in a table with a wrong call cannot be
evaluated (`Expr.checkAggregates_finds`).
-/

namespace TableDoc.Formula

/-- A call of an aggregate, in whatever case its name is written, has one argument, and this is a
name. -/
def Expr.WellCalled (e : Expr) : Prop :=
  ∀ function arguments, e = .call function arguments →
    function.toLower ∈ ["sum", "avg", "min", "max", "count"] →
    ∃ column, arguments = [.identifier column]

/-- The formulas that a formula is made of. -/
def Expr.parts : Expr → List Expr
  | .number _ | .text _ | .boolean _ | .identifier _ => []
  | .unary _ operand => [operand]
  | .binary _ left right => [left, right]
  | .call _ arguments => arguments
  | .member base _ => [base]
  | .lookup table key => [table, key]

/-- The second formula is the first, or an operand in it at some depth. -/
inductive Expr.Consults : Expr → Expr → Prop
  | refl : Consults e e
  | operand : y ∈ e.operands → Consults y x → Consults e x

variable {e x : Expr} {function : String} {arguments : List Expr}

/-! ## The check of one formula -/

theorem AggregateFunction.isSome_ofName? :
    (AggregateFunction.ofName? function).isSome ↔
      function.toLower ∈ ["sum", "avg", "min", "max", "count"] := by
  rw [AggregateFunction.ofName?]
  split <;> simp_all

theorem exists_aggregateColumn_iff :
    (∃ column, aggregateColumn function arguments = .ok column) ↔
      ∃ column, arguments = [.identifier column] := by
  constructor
  · rintro ⟨column, h⟩
    rw [aggregateColumn.eq_def] at h
    split at h
    · next column => exact ⟨column, rfl⟩
    · cases h
  · rintro ⟨column, rfl⟩
    exact ⟨column, rfl⟩

namespace Expr

theorem wellCalled_call : (call function arguments).WellCalled ↔
    ((AggregateFunction.ofName? function).isSome → ∃ column, arguments = [.identifier column]) := by
  rw [AggregateFunction.isSome_ofName?]
  constructor
  · exact fun h => h function arguments rfl
  · rintro h _ _ ⟨⟩
    exact h

theorem exists_append_iff {a b : Except Error (List String)} :
    (∃ refs, (do let first ← a; let others ← b; return first ++ others) = Except.ok refs) ↔
      (∃ refs, a = .ok refs) ∧ ∃ refs, b = .ok refs := by
  constructor
  · rintro ⟨refs, h⟩
    obtain ⟨first, others, hfirst, hothers, -⟩ := bind_append_eq_ok h
    exact ⟨⟨first, hfirst⟩, others, hothers⟩
  · rintro ⟨⟨first, rfl⟩, others, rfl⟩
    exact ⟨first ++ others, rfl⟩

theorem exists_referencesOfAll_iff {es : List Expr} :
    (∃ refs, referencesOfAll es = .ok refs) ↔ ∀ x ∈ es, ∃ refs, x.references = .ok refs := by
  induction es with
  | nil => exact ⟨fun _ => nofun, fun _ => ⟨[], rfl⟩⟩
  | cons e es ih => rw [referencesOfAll, exists_append_iff, ih, List.forall_mem_cons]

/-- What a formula reads can be said if it is no wrong call and it can be said of its operands. -/
theorem exists_references_iff :
    (∃ refs, e.references = .ok refs) ↔ e.WellCalled ∧ ∀ x ∈ e.operands, ∃ refs,
      x.references = .ok refs := by
  cases e with
  | number _ | text _ | boolean _ | identifier _ =>
    refine iff_of_true ⟨_, rfl⟩ ⟨?_, List.forall_mem_nil _⟩
    rintro _ _ ⟨⟩
  | unary _ operand | member operand _ | lookup _ operand =>
    rw [references, operands, List.forall_mem_singleton]
    refine (and_iff_right ?_).symm
    rintro _ _ ⟨⟩
  | binary op left right =>
    rw [references, operands, exists_append_iff, List.forall_mem_cons, List.forall_mem_singleton]
    refine (and_iff_right ?_).symm
    rintro _ _ ⟨⟩
  | call function arguments =>
    rw [references, operands, wellCalled_call]
    split
    · next hf =>
      rw [← @exists_aggregateColumn_iff function]
      constructor
      · rintro ⟨refs, h⟩
        obtain ⟨column, hcolumn, -⟩ := bind_eq_ok_iff.1 h
        exact ⟨fun _ => ⟨column, hcolumn⟩, List.forall_mem_nil _⟩
      · rintro ⟨h, -⟩
        obtain ⟨column, hcolumn⟩ := h hf
        exact ⟨[], by rw [hcolumn]; rfl⟩
    · next hf =>
      rw [exists_referencesOfAll_iff]
      exact (and_iff_right fun hf' => absurd hf' hf).symm

/-! ## The check of a whole formula -/

theorem sizeOf_lt_of_mem_parts (h : x ∈ e.parts) : sizeOf x < sizeOf e := by
  cases e with
  | number _ | text _ | boolean _ | identifier _ => cases h
  | unary _ operand | member operand _ =>
    obtain rfl := List.mem_singleton.1 h
    simp only [unary.sizeOf_spec, member.sizeOf_spec]
    omega
  | binary _ left right | lookup left right =>
    simp only [binary.sizeOf_spec, lookup.sizeOf_spec]
    rcases List.mem_cons.1 h with rfl | h
    · omega
    · obtain rfl := List.mem_singleton.1 h
      omega
  | call function arguments =>
    have hlt : sizeOf x < sizeOf arguments := List.sizeOf_lt_of_mem h
    rw [call.sizeOf_spec]
    omega

/-- What a formula reads is part of it; the table of a lookup is a part that is not read. -/
theorem operands_subset_parts (e : Expr) : e.operands ⊆ e.parts := by
  cases e with
  | number _ | text _ | boolean _ | identifier _ | unary _ _ | member _ _ | binary _ _ _ =>
    exact List.Subset.refl _
  | lookup table key => exact List.subset_cons_self _ _
  | call function arguments =>
    rw [operands]
    split
    · exact List.nil_subset _
    · exact List.Subset.refl _

theorem checkAggregates_eq_ok : e.checkAggregates = .ok () ↔ ∃ refs, e.references = .ok refs := by
  rw [checkAggregates, bind_eq_ok_iff]
  exact exists_congr fun refs => and_iff_left rfl

/-- The check looks at the formula and at the operands in it, and at nothing else. -/
theorem checkAggregates_eq_ok_iff :
    e.checkAggregates = .ok () ↔ ∀ x, e.Consults x → x.WellCalled := by
  rw [checkAggregates_eq_ok]
  refine ⟨fun h x hx => ?_, exists_references⟩
  induction hx with
  | refl => exact (exists_references_iff.1 h).1
  | operand hy _ ih => exact ih ((exists_references_iff.1 h).2 _ hy)
where
  exists_references {e : Expr} (h : ∀ x, e.Consults x → x.WellCalled) :
    ∃ refs, e.references = .ok refs := by
    refine exists_references_iff.2 ⟨h e .refl, fun y hy => ?_⟩
    exact exists_references fun x hx => h x (.operand hy hx)
  termination_by sizeOf e
  decreasing_by exact sizeOf_lt_of_mem_parts (operands_subset_parts e hy)

theorem checkAggregates_of_mem_operands (h : e.checkAggregates = .ok ()) (hx : x ∈ e.operands) :
    x.checkAggregates = .ok () :=
  checkAggregates_eq_ok_iff.2 fun y hy => checkAggregates_eq_ok_iff.1 h y (.operand hx hy)

/-! ## What is not checked -/

theorem subformulasOfAll_eq (es : List Expr) : subformulasOfAll es = es.flatMap subformulas := by
  induction es with
  | nil => rfl
  | cons e es ih => rw [subformulasOfAll, ih, List.flatMap_cons]

/-- The formulas inside a formula are itself and those inside its parts. -/
theorem subformulas_eq (e : Expr) : e.subformulas = e :: e.parts.flatMap subformulas := by
  cases e with
  | number _ | text _ | boolean _ | identifier _ => rfl
  | unary _ operand | member operand _ => rw [subformulas, parts, List.flatMap_singleton]
  | binary _ left right | lookup left right =>
    rw [subformulas, parts, List.flatMap_cons, List.flatMap_singleton]
  | call function arguments => rw [subformulas, parts, subformulasOfAll_eq]

theorem mem_subformulas_iff : x ∈ e.subformulas ↔ x = e ∨ ∃ y ∈ e.parts, x ∈ y.subformulas := by
  rw [subformulas_eq, List.mem_cons, List.mem_flatMap]

theorem mem_subformulas_trans {e y : Expr} (hx : x ∈ y.subformulas) (hy : y ∈ e.subformulas) :
    x ∈ e.subformulas := by
  rcases mem_subformulas_iff.1 hy with rfl | ⟨z, hz, hy⟩
  · exact hx
  · exact mem_subformulas_iff.2 (.inr ⟨z, hz, mem_subformulas_trans hx hy⟩)
termination_by sizeOf e
decreasing_by exact sizeOf_lt_of_mem_parts hz

/-- What a formula consults is inside it. -/
theorem mem_subformulas_of_consults (h : e.Consults x) : x ∈ e.subformulas := by
  induction h with
  | refl => exact mem_subformulas _
  | operand hy _ ih => exact mem_subformulas_iff.2 (.inr ⟨_, operands_subset_parts _ hy, ih⟩)

/-- A part that is no operand is the table of a lookup, or an aggregate is called with it. -/
theorem mem_parts_cases (h : x ∈ e.parts) : x ∈ e.operands ∨ (∃ key, e = .lookup x key) ∨
    ∃ function arguments, e = .call function arguments ∧
      (AggregateFunction.ofName? function).isSome ∧ x ∈ arguments := by
  cases e with
  | number _ | text _ | boolean _ | identifier _ | unary _ _ | member _ _ | binary _ _ _ =>
    exact .inl h
  | lookup table key =>
    rcases List.mem_cons.1 h with rfl | h
    · exact .inr (.inl ⟨key, rfl⟩)
    · exact .inl h
  | call function arguments =>
    by_cases hf : (AggregateFunction.ofName? function).isSome
    · exact .inr (.inr ⟨function, arguments, rfl, hf, h⟩)
    · rw [operands, if_neg hf]
      exact .inl h

/-- If no wrong call stands in the table of a lookup, all calls are checked. -/
theorem wellCalled_of_mem_subformulas {e : Expr} (he : e.checkAggregates = .ok ())
    (htables : ∀ table key, .lookup table key ∈ e.subformulas →
      ∀ x ∈ table.subformulas, x.WellCalled)
    (hx : x ∈ e.subformulas) : x.WellCalled := by
  rcases mem_subformulas_iff.1 hx with rfl | ⟨y, hy, hxy⟩
  · exact checkAggregates_eq_ok_iff.1 he _ .refl
  rcases mem_parts_cases hy with hoperand | ⟨key, rfl⟩ | ⟨function, arguments, rfl, hf, harg⟩
  · refine wellCalled_of_mem_subformulas (checkAggregates_of_mem_operands he hoperand)
      (fun table key ht => ?_) hxy
    exact htables table key (mem_subformulas_iff.2 (.inr ⟨y, hy, ht⟩))
  · exact htables y key (mem_subformulas _) x hxy
  · obtain ⟨column, rfl⟩ := wellCalled_call.1 (checkAggregates_eq_ok_iff.1 he _ .refl) hf
    obtain rfl := List.mem_singleton.1 harg
    obtain rfl := List.mem_singleton.1 hxy
    exact nofun
termination_by sizeOf e
decreasing_by exact sizeOf_lt_of_mem_parts hy

/-- Only a lookup in a table of some name can be evaluated. -/
theorem value_lookup_of_not_wellCalled {m : Type → Type} [Monad m] {table : Expr}
    (hx : x ∈ table.subformulas) (hnot : ¬ x.WellCalled) (key : Expr) (ctx : Context m) :
    (lookup table key).value ctx = throw (.lookup .notATable) := by
  have htable : table.identifier? = none := by
    cases table with
    | identifier name =>
      obtain rfl := List.mem_singleton.1 hx
      exact absurd nofun hnot
    | _ => rfl
  rw [value, htable]

/-- The check passes just if all aggregates among the operands are called with a column. All
aggregates anywhere in a formula are so called just if it passes and none in the table of a lookup
is called otherwise; a lookup in a table with such a call fails, whatever its context is. -/
theorem checkAggregates_finds (e : Expr) :
    (e.checkAggregates = .ok () ↔ ∀ x, e.Consults x → x.WellCalled) ∧
    ((∀ x ∈ e.subformulas, x.WellCalled) ↔ e.checkAggregates = .ok () ∧
      ∀ table key, .lookup table key ∈ e.subformulas → ∀ x ∈ table.subformulas, x.WellCalled) ∧
    ∀ table key, (∃ x ∈ table.subformulas, ¬ x.WellCalled) →
      ∀ {m : Type → Type} [Monad m] (ctx : Context m), (lookup table key).value ctx =
        throw (.lookup .notATable) := by
  refine ⟨checkAggregates_eq_ok_iff,
    ⟨fun h => ⟨?_, ?_⟩, fun h x hx => wellCalled_of_mem_subformulas h.1 h.2 hx⟩, ?_⟩
  · exact checkAggregates_eq_ok_iff.2 fun x hx => h x (mem_subformulas_of_consults hx)
  · intro table key hlookup x hx
    have htable : x ∈ (lookup table key).subformulas :=
      mem_subformulas_iff.2 (.inr ⟨table, List.mem_cons_self, hx⟩)
    exact h x (mem_subformulas_trans htable hlookup)
  · rintro table key ⟨x, hx, hnot⟩ m _ ctx
    exact value_lookup_of_not_wellCalled hx hnot key ctx

/-- A wrong call in the table of a lookup is not found. -/
theorem checkAggregates_misses_tables : ¬ ∀ source e, parse source = .ok e →
    (e.checkAggregates = .ok () ↔ ∀ x ∈ e.subformulas, x.WellCalled) := by
  intro h
  let total : Expr := .call "sum" [.binary (.arithmetic .add) (.identifier "a") (.identifier "b")]
  let e : Expr := .member (.lookup total (.identifier "k")) "v"
  have hname {name : String} (h : name ∈ ["sum", "a", "b", "k", "v"]) : IsName name := by
    simp only [List.mem_cons, List.not_mem_nil, or_false] at h
    rcases h with rfl | rfl | rfl | rfl | rfl <;> exact ⟨by decide, by decide⟩
  have hprintable : e.Printable := {
    names := by
      simp only [e, total, subformulas, subformulasOfAll]
      simp [name?, hname]
    numbers := by
      simp [e, total, subformulas, subformulasOfAll] }
  have hargument : Prints (.binary (.arithmetic .add) (.identifier "a") (.identifier "b")) _ :=
    .binary (.identifier (hname (by decide))) (.identifier (hname (by decide)))
  have htotal : Prints total _ :=
    @Prints.call _ [(_, _)] (hname (by decide)) (List.forall_mem_singleton.2 hargument)
  have hprints : Prints e _ :=
    .member (.lookup htotal (.identifier (hname (by decide)))) (hname (by decide))
  have hparse : parse "sum ( a + b ) [ k ] . v" = .ok e := by
    refine Eq.trans (congrArg parse ?_) ((parse_printed e hprintable).2 _ hprints)
    rfl
  have hwell : total.WellCalled :=
    (h _ _ hparse).1 rfl total (by simp [e, subformulas, mem_subformulas])
  obtain ⟨column, hcolumn⟩ := hwell _ _ rfl (by decide +kernel)
  cases hcolumn

end Expr

end TableDoc.Formula
