import TableDoc.Formula.Evaluation

/-!
# Evaluating a formula in two contexts

A formula is evaluated in a monad that the evaluation does not look into. A `Correspondence` relates
computations of values in two monads and goes along when they go on; so it relates the values of a
formula in two contexts as soon as it relates what the contexts give (`Correspondence.value`). Rows
that are looked up need only have the same columns. Of the columns at hand only those that the
formula is known to read count, and then no aggregate has a wrong argument; or else all columns
count (`Correspondence.Fits`).
-/

namespace TableDoc.Formula

/-! ## The formulas that are evaluated within a formula -/

/-- The formulas whose columns are read: not the table of a lookup nor the column of an aggregate.
-/
def Expr.operands : Expr → List Expr
  | .number _ | .text _ | .boolean _ | .identifier _ => []
  | .unary _ operand => [operand]
  | .binary _ left right => [left, right]
  | .call function arguments =>
    if (AggregateFunction.ofName? function).isSome then [] else arguments
  | .member base _ => [base]
  | .lookup _ key => [key]

section
variable {e x : Expr} {es : List Expr} {refs : List String} {function : String} {builtin : Builtin}

theorem bind_append_eq_ok {a b : Except Error (List String)}
    (h : (do let first ← a; let others ← b; return first ++ others) = .ok refs) :
    ∃ first others, a = .ok first ∧ b = .ok others ∧ refs = first ++ others := by
  rcases a with e | first
  · cases h
  rcases b with e | others
  · cases h
  cases h
  exact ⟨first, others, rfl, rfl, rfl⟩

theorem Expr.references_of_mem (h : Expr.referencesOfAll es = .ok refs) (hx : x ∈ es) :
    ∃ found, x.references = .ok found ∧ found ⊆ refs := by
  induction es generalizing refs with
  | nil => cases hx
  | cons e es ih =>
    rw [Expr.referencesOfAll] at h
    obtain ⟨first, others, hfirst, hothers, rfl⟩ := bind_append_eq_ok h
    rcases List.mem_cons.1 hx with rfl | hx
    · exact ⟨first, hfirst, List.subset_append_left first others⟩
    · obtain ⟨found, hfound, hsub⟩ := ih hothers hx
      exact ⟨found, hfound, List.Subset.trans hsub (List.subset_append_right first others)⟩

theorem Expr.references_of_mem_operands (h : e.references = .ok refs) (hx : x ∈ e.operands) :
    ∃ found, x.references = .ok found ∧ found ⊆ refs := by
  match e with
  | .number _ | .text _ | .boolean _ | .identifier _ => cases hx
  | .unary _ _ | .member _ _ | .lookup _ _ =>
    cases List.mem_singleton.1 hx
    exact ⟨refs, h, fun _ hn => hn⟩
  | .binary _ left right =>
    rw [Expr.references] at h
    obtain ⟨first, others, hleft, hright, rfl⟩ := bind_append_eq_ok h
    rcases List.mem_cons.1 hx with rfl | hx
    · exact ⟨first, hleft, List.subset_append_left first others⟩
    · cases List.mem_singleton.1 hx
      exact ⟨others, hright, List.subset_append_right first others⟩
  | .call function arguments =>
    rw [Expr.references] at h
    rw [Expr.operands] at hx
    split at hx
    · cases hx
    · next hf =>
      rw [if_neg hf] at h
      exact Expr.references_of_mem h hx

theorem AggregateFunction.ofName?_eq_none (h : Builtin.ofName? function = some builtin) :
    AggregateFunction.ofName? function = none := by
  rw [Builtin.ofName?] at h
  rw [AggregateFunction.ofName?]
  split at h
  · next hname => rw [hname]; rfl
  · next hname => rw [hname]; rfl
  · cases h

theorem Expr.mem_operands_call (h : Builtin.ofName? function = some builtin) (hx : x ∈ es) :
    x ∈ (Expr.call function es).operands := by
  rwa [Expr.operands, AggregateFunction.ofName?_eq_none h]

end

/-! ## The errors of the operations -/

/-- The errors that come up while a formula is evaluated, apart from those of lookups and
aggregates. -/
def Error.ofOperation : Error → Bool
  | type _ | divideByZero | unknownReference _ | unknownFunction _ | argumentCount ..
  | lookup .notATable => true
  | _ => false

section
variable {e : Error}

theorem Value.toScalar_error : ∀ {v : Value}, v.toScalar = .error e → e.ofOperation
  | .scalar _, h => nomatch h
  | .row _, h => by cases h; rfl

theorem Value.field_error {name : String} {v : Value} (h : v.field name = .error e) :
    e.ofOperation := by
  cases v with
  | scalar s => cases h; rfl
  | row r =>
    rw [Value.field] at h
    split at h <;> cases h
    rfl

theorem UnaryOperator.apply_error {op : UnaryOperator} {s : Scalar} (h : op.apply s = .error e) :
    e.ofOperation := by
  cases s <;> cases h <;> rfl

theorem Arithmetic.compute_error {op : Arithmetic} {x y : Float} (h : op.compute x y = .error e) :
    e.ofOperation := by
  cases op with
  | add | subtract | multiply => cases h
  | divide =>
    rw [Arithmetic.compute] at h
    split at h <;> cases h
    rfl

theorem Arithmetic.apply_error {op : Arithmetic} {l r : Scalar} (h : op.apply l r = .error e) :
    e.ofOperation := by
  cases l <;> cases r
  case number.number x y =>
    rw [Arithmetic.apply] at h
    rcases hc : op.compute x y with e' | z <;> rw [hc] at h <;> cases h
    exact Arithmetic.compute_error hc
  all_goals cases h <;> rfl

theorem Comparison.apply_error {op : Comparison} {l r : Scalar} (h : op.apply l r = .error e) :
    e.ofOperation := by
  cases l <;> cases r <;> cases h <;> rfl

theorem Connective.apply_error {op : Connective} {l r : Scalar} (h : op.apply l r = .error e) :
    e.ofOperation := by
  cases l <;> cases r <;> cases h <;> rfl

theorem BinaryOperator.apply_error {op : BinaryOperator} {l r : Scalar}
    (h : op.apply l r = .error e) :
    e.ofOperation := by
  cases op with
  | arithmetic op => exact Arithmetic.apply_error h
  | comparison op =>
    rw [BinaryOperator.apply] at h
    rcases hc : op.apply l r with e' | b <;> rw [hc] at h <;> cases h
    exact Comparison.apply_error hc
  | connective op =>
    rw [BinaryOperator.apply] at h
    rcases hc : op.apply l r with e' | b <;> rw [hc] at h <;> cases h
    exact Connective.apply_error hc

theorem roundValue_error {s n : Scalar} (h : roundValue s n = .error e) : e.ofOperation := by
  cases s <;> cases n <;> cases h <;> rfl

end

/-! ## Related values -/

/-- The same scalar, or rows that are related. -/
inductive Value.Alike (rows : Row → Row → Prop) : Value → Value → Prop
  | scalar (s : Scalar) : Alike rows (.scalar s) (.scalar s)
  | row : rows r r' → Alike rows (.row r) (.row r')

theorem Value.alike_eq_iff {v w : Value} : v.Alike (· = ·) w ↔ v = w := by
  constructor
  · rintro (s | rfl) <;> rfl
  · rintro rfl
    cases v with
    | scalar s => exact .scalar s
    | row r => exact .row rfl

variable {m n : Type → Type} [Monad m] [Monad n]

/-- A relation between computations of values in two monads that is kept when they go on. Of the
errors that the computations can fail with it allows at least those of the operations. -/
structure Correspondence (m n : Type → Type) [Monad m] [Monad n] where
  rows : Row → Row → Prop
  errors : Error → Prop
  rel : ExceptT Error m Value → ExceptT Error n Value → Prop
  get?_eq : rows r r' → r.get? = r'.get?
  ofOperation : ∀ e : Error, e.ofOperation → errors e
  pure : v.Alike rows w → rel (Pure.pure v) (Pure.pure w)
  throw : errors e → rel (MonadExcept.throw e) (MonadExcept.throw e)
  bind : rel x y → (∀ v w, v.Alike rows w → rel (f v) (g w)) → rel (x >>= f) (y >>= g)

section
variable [LawfulMonad m] {α β : Type}

theorem liftM_ok_bind (a : α) (f : α → ExceptT Error m β) :
    (liftM (.ok a : Except Error α) >>= f) = f a :=
  pure_bind a f

theorem liftM_error_bind (e : Error) (f : α → ExceptT Error m β) :
    (liftM (.error e : Except Error α) >>= f) = MonadExcept.throw e :=
  ExceptT.ext (pure_bind (Except.error e) _)

end

namespace Correspondence

variable {R : Correspondence m n} {c : Context m} {d : Context n} {e : Expr} {v w : Value}

theorem toScalar_eq (h : v.Alike R.rows w) : v.toScalar = w.toScalar := by
  cases h <;> rfl

theorem field_eq (h : v.Alike R.rows w) (name : String) : v.field name = w.field name := by
  cases h with
  | scalar s => rfl
  | row h => rw [Value.field, Value.field, R.get?_eq h]

/-- The lookups and aggregates of the two contexts are related. -/
structure Gives (R : Correspondence m n) (c : Context m) (d : Context n) : Prop where
  lookup : ∀ table key, R.rel (.row <$> c.lookup table key) (.row <$> d.lookup table key)
  aggregate :
    ∀ f column, R.rel (.scalar <$> c.aggregate f column) (.scalar <$> d.aggregate f column)

/-- The columns that the formula is known to read are related. Where these are not known all are,
and aggregates may have any arguments. -/
def Fits (R : Correspondence m n) (c : Context m) (d : Context n) (e : Expr) : Prop :=
  (∃ refs, e.references = .ok refs ∧
    ∀ name ∈ refs, R.rel ((Expr.identifier name).value c) ((Expr.identifier name).value d)) ∨
  (∀ f, R.errors (.aggregateArgument f)) ∧
    ∀ name, R.rel ((Expr.identifier name).value c) ((Expr.identifier name).value d)

theorem Fits.operand (h : R.Fits c d e) {x : Expr} (hx : x ∈ e.operands) : R.Fits c d x := by
  refine h.imp_left fun ⟨refs, hrefs, hall⟩ => ?_
  obtain ⟨found, hfound, hsub⟩ := Expr.references_of_mem_operands hrefs hx
  exact ⟨found, hfound, fun name hname => hall name (hsub hname)⟩

theorem Fits.argument {function : String} {builtin : Builtin} {es : List Expr}
    (h : R.Fits c d (.call function es)) (hf : Builtin.ofName? function = some builtin) {x : Expr}
    (hx : x ∈ es) : R.Fits c d x :=
  h.operand (Expr.mem_operands_call hf hx)

/-- An aggregate whose argument is wrong is among the errors that are allowed. -/
theorem Fits.aggregateColumn_error {function : String} {f : AggregateFunction} {es : List Expr}
    (h : R.Fits c d (.call function es)) (hf : AggregateFunction.ofName? function = some f)
    {error : Error} (he : aggregateColumn function es = .error error) : R.errors error := by
  rcases h with ⟨refs, hrefs, -⟩ | ⟨hallowed, -⟩
  · rw [Expr.references, hf, he] at hrefs
    cases hrefs
  · rw [aggregateColumn.eq_def] at he
    split at he <;> cases he
    exact hallowed function

theorem Fits.identifier {name : String} (h : R.Fits c d (.identifier name)) :
    R.rel ((Expr.identifier name).value c) ((Expr.identifier name).value d) := by
  rcases h with ⟨refs, hrefs, hall⟩ | ⟨-, hall⟩
  · cases hrefs
    exact hall name List.mem_cons_self
  · exact hall name

variable [LawfulMonad m] [LawfulMonad n]

/-- What does not depend on the monad is the same on both sides. -/
theorem lift_bind {α : Type} {x : Except Error α} {f : α → ExceptT Error m Value}
    {g : α → ExceptT Error n Value} (hx : ∀ e, x = .error e → R.errors e)
    (hf : ∀ a, R.rel (f a) (g a)) :
    R.rel (liftM x >>= f) (liftM x >>= g) := by
  cases x with
  | ok a =>
    rw [liftM_ok_bind, liftM_ok_bind]
    exact hf a
  | error e =>
    rw [liftM_error_bind, liftM_error_bind]
    exact R.throw (hx e rfl)

theorem operation_bind {x : Except Error Scalar} {f : Scalar → ExceptT Error m Value}
    {g : Scalar → ExceptT Error n Value} (hx : ∀ e, x = .error e → e.ofOperation)
    (hf : ∀ s, R.rel (f s) (g s)) : R.rel (liftM x >>= f) (liftM x >>= g) :=
  R.lift_bind (fun e h => R.ofOperation e (hx e h)) hf

theorem scalar_bind {x : ExceptT Error m Value} {y : ExceptT Error n Value}
    {f : Scalar → ExceptT Error m Value} {g : Scalar → ExceptT Error n Value} (h : R.rel x y)
    (hf : ∀ s, R.rel (f s) (g s)) :
    R.rel (x >>= fun v => liftM v.toScalar >>= f) (y >>= fun v => liftM v.toScalar >>= g) := by
  refine R.bind h fun v w hvw => ?_
  rw [toScalar_eq hvw]
  exact R.operation_bind (fun _ => Value.toScalar_error) hf

/-- The values of a formula are related, if what it asks for is. -/
theorem value (h : R.Gives c d) (e : Expr) (he : R.Fits c d e) : R.rel (e.value c) (e.value d) := by
  induction e using Expr.value.induct c with
  | case1 | case2 | case3 => simp only [Expr.value]; exact R.pure (.scalar _)
  | case4 name | case5 name => exact he.identifier
  | case6 op operand ih =>
    simp only [Expr.value]
    exact R.scalar_bind (ih (he.operand List.mem_cons_self)) fun s =>
      R.operation_bind (fun _ => UnaryOperator.apply_error) fun t => R.pure (.scalar t)
  | case7 op left right ihl ihr =>
    simp only [Expr.value]
    refine R.scalar_bind (ihl (he.operand List.mem_cons_self)) fun l => ?_
    refine R.scalar_bind (ihr (he.operand (List.mem_cons_of_mem _ List.mem_cons_self))) fun r => ?_
    exact R.operation_bind (fun _ => BinaryOperator.apply_error) fun t => R.pure (.scalar t)
  | case8 function hf amount places iha ihp =>
    simp only [Expr.value, hf]
    refine R.scalar_bind (iha (he.argument hf List.mem_cons_self)) fun s => ?_
    refine R.scalar_bind (ihp (he.argument hf (List.mem_cons_of_mem _ List.mem_cons_self)))
      fun t => ?_
    exact R.operation_bind (fun _ => roundValue_error) fun t => R.pure (.scalar t)
  | case9 function arguments hf hne | case11 function arguments hf hne =>
    rw [Expr.value.eq_def, Expr.value.eq_def]
    simp only [hf]
    exact R.throw (R.ofOperation _ rfl)
  | case10 function hf condition yes no ihc ihy ihn =>
    simp only [Expr.value, hf]
    refine R.scalar_bind (ihc (he.argument hf List.mem_cons_self)) fun s => ?_
    split
    · exact ihy (he.argument hf (List.mem_cons_of_mem _ List.mem_cons_self))
    · exact ihn
        (he.argument hf (List.mem_cons_of_mem _ (List.mem_cons_of_mem _ List.mem_cons_self)))
    · exact R.throw (R.ofOperation _ rfl)
  | case12 function arguments hb f hf =>
    rw [Expr.value.eq_def, Expr.value.eq_def]
    simp only [hb, hf]
    refine R.lift_bind (fun _ => he.aggregateColumn_error hf) fun column => ?_
    simpa only [bind_pure_comp] using h.aggregate f column
  | case13 function arguments hb hf =>
    rw [Expr.value.eq_def, Expr.value.eq_def]
    simp only [hb, hf]
    exact R.throw (R.ofOperation _ rfl)
  | case14 base field ih =>
    simp only [Expr.value]
    refine R.bind (ih (he.operand List.mem_cons_self)) fun v w hvw => ?_
    rw [field_eq hvw]
    exact R.operation_bind (fun _ => Value.field_error) fun t => R.pure (.scalar t)
  | case15 table key ht =>
    simp only [Expr.value, ht]
    exact R.throw (R.ofOperation _ rfl)
  | case16 table key name ht ih =>
    simp only [Expr.value, ht]
    refine R.scalar_bind (ih (he.operand List.mem_cons_self)) fun k => ?_
    simpa only [bind_pure_comp] using h.lookup name k

end Correspondence

end TableDoc.Formula
