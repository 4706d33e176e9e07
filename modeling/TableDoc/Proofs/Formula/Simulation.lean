import TableDoc.Proofs.Formula.Correspondence

/-!
# Relations that formulas keep

A `Simulation` relates computations of two monads with the same results, and is kept by `pure`,
`throw` and `bind`. It relates the values of a formula in two contexts as soon as it relates what
the contexts give: the columns at hand, the rows looked up and the aggregates (`Simulation.Agree`,
`Simulation.Agree.value`, `Simulation.Agree.evaluate`). With one monad and one context this says
that a property of what the context gives is one of the whole evaluation (`Expr.evaluate_of`).
-/

namespace TableDoc.Formula

/-- A relation between computations of two monads that is kept when they go on. -/
structure Simulation (m n : Type → Type) [Monad m] [Monad n] where
  rel : {α : Type} → ExceptT Error m α → ExceptT Error n α → Prop
  pure : ∀ {α : Type} (a : α), rel (Pure.pure a) (Pure.pure a)
  throw : ∀ {α : Type} (e : Error), rel (α := α) (MonadExcept.throw e) (MonadExcept.throw e)
  bind : ∀ {α β : Type} {x : ExceptT Error m α} {y : ExceptT Error n α}
    {f : α → ExceptT Error m β} {g : α → ExceptT Error n β},
    rel x y → (∀ a, rel (f a) (g a)) → rel (x >>= f) (y >>= g)

variable {m n : Type → Type} [Monad m] [Monad n]

/-! ## Formulas by the scalars of their operands -/

theorem Expr.value_identifier (c : Context m) (name : String) :
    (Expr.identifier name).value c = match c.resolve name with
      | some s => return .scalar s
      | none => throw (.unknownReference name) := by
  cases h : c.resolve name <;> simp only [Expr.value, h]

section
variable [LawfulMonad m] {c : Context m}

theorem Expr.value_unary (op : UnaryOperator) (x : Expr) : (Expr.unary op x).value c = do
    let s ← x.evaluate c
    return .scalar (← op.apply s) := by
  simp only [Expr.value, Expr.evaluate, bind_assoc]

theorem Expr.value_binary (op : BinaryOperator) (x y : Expr) : (Expr.binary op x y).value c = do
    let l ← x.evaluate c
    let r ← y.evaluate c
    return .scalar (← op.apply l r) := by
  simp only [Expr.value, Expr.evaluate, bind_assoc]

theorem Expr.value_round {function : String} (hf : Builtin.ofName? function = some .round)
    (x y : Expr) :
    (Expr.call function [x, y]).value c = do
      let s ← x.evaluate c
      let n ← y.evaluate c
      return .scalar (← roundValue s n) := by
  simp only [Expr.value, hf, Expr.evaluate, bind_assoc]

theorem Expr.value_cond {function : String} (hf : Builtin.ofName? function = some .cond)
    (x y z : Expr) :
    (Expr.call function [x, y, z]).value c = x.evaluate c >>= fun s =>
      match s with
      | .boolean true => y.value c
      | .boolean false => z.value c
      | s => throw (.type (.condition s.kind)) := by
  have h := Expr.value.eq_def c (.call function [x, y, z])
  simp only [hf] at h
  rw [Expr.evaluate, bind_assoc]
  exact h

theorem Expr.value_lookup {table : Expr} {name : String} (ht : table.identifier? = some name)
    (key : Expr) :
    (Expr.lookup table key).value c = do
      let k ← key.evaluate c
      return .row (← c.lookup name k) := by
  simp only [Expr.value, ht, Expr.evaluate, bind_assoc]

end

/-! ## Relations -/

namespace Simulation

/-- Whatever a formula asks for, what the two contexts give is related. -/
structure Agree (R : Simulation m n) (c : Context m) (d : Context n) : Prop where
  reference : ∀ name, R.rel ((Expr.identifier name).value c) ((Expr.identifier name).value d)
  lookup : ∀ table key, R.rel (c.lookup table key) (d.lookup table key)
  aggregate : ∀ f column, R.rel (c.aggregate f column) (d.aggregate f column)

variable {R : Simulation m n} {c : Context m} {d : Context n}

theorem lift (R : Simulation m n) {α : Type} : ∀ x : Except Error α,
    R.rel (liftM x : ExceptT Error m α) (liftM x : ExceptT Error n α)
  | .ok a => R.pure a
  | .error e => R.throw e

theorem reference_of_resolve (R : Simulation m n) (h : c.resolve = d.resolve) (name : String) :
    R.rel ((Expr.identifier name).value c) ((Expr.identifier name).value d) := by
  rw [Expr.value_identifier, Expr.value_identifier, h]
  cases d.resolve name with
  | none => exact R.throw _
  | some v => exact R.pure _

/-- Rows that are looked up are the same on both sides, and all errors are allowed. -/
def toCorrespondence (R : Simulation m n) : Correspondence m n where
  rows r r' := r = r'
  errors _ := True
  rel := R.rel
  get?_eq h := Row.get?_congr h
  ofOperation _ _ := trivial
  pure {v _} h := Value.alike_eq_iff.1 h ▸ R.pure v
  throw {e} _ := R.throw e
  bind hx hf := R.bind hx fun v => hf v v (Value.alike_eq_iff.2 rfl)

variable [LawfulMonad m] [LawfulMonad n]

/-- Contexts that agree give related values to every formula. -/
theorem Agree.value (h : R.Agree c d) (e : Expr) : R.rel (e.value c) (e.value d) := by
  have hmap {α : Type} {x : ExceptT Error m α} {y : ExceptT Error n α} (f : α → Value)
      (hxy : R.rel x y) : R.rel (f <$> x) (f <$> y) := by
    rw [map_eq_pure_bind, map_eq_pure_bind]
    exact R.bind hxy fun a => R.pure (f a)
  have hgives : R.toCorrespondence.Gives c d :=
    { lookup := fun table key => hmap .row (h.lookup table key)
      aggregate := fun f column => hmap .scalar (h.aggregate f column) }
  exact R.toCorrespondence.value hgives e (.inr ⟨fun _ => trivial, h.reference⟩)

theorem Agree.evaluate (h : R.Agree c d) (e : Expr) : R.rel (e.evaluate c) (e.evaluate d) :=
  R.bind (h.value e) fun _ => R.lift _

/-- A property that is kept by `pure`, `throw` and `bind`, as a relation of a computation to itself.
-/
def ofProperty (P : {α : Type} → ExceptT Error m α → Prop)
    (pure : ∀ {α : Type} (a : α), P (Pure.pure a : ExceptT Error m α))
    (throw : ∀ {α : Type} (e : Error), P (MonadExcept.throw e : ExceptT Error m α))
    (bind : ∀ {α β : Type} {x : ExceptT Error m α} {f : α → ExceptT Error m β},
      P x → (∀ a, P (f a)) → P (x >>= f)) : Simulation m m where
  rel x y := x = y ∧ P x
  pure a := ⟨rfl, pure a⟩
  throw e := ⟨rfl, throw e⟩
  bind hx hf := ⟨by rw [hx.1, funext fun a => (hf a).1], bind hx.2 fun a => (hf a).2⟩

end Simulation

/-- A property that is kept by `pure`, `throw` and `bind` holds of evaluations if it holds of
lookups and aggregates. -/
theorem Expr.evaluate_of [LawfulMonad m] {P : {α : Type} → ExceptT Error m α → Prop} {c : Context m}
    (pure : ∀ {α : Type} (a : α), P (Pure.pure a : ExceptT Error m α))
    (throw : ∀ {α : Type} (e : Error), P (MonadExcept.throw e : ExceptT Error m α))
    (bind : ∀ {α β : Type} {x : ExceptT Error m α} {f : α → ExceptT Error m β},
      P x → (∀ a, P (f a)) → P (x >>= f))
    (lookup : ∀ table key, P (c.lookup table key))
    (aggregate : ∀ f column, P (c.aggregate f column)) (e : Expr) : P (e.evaluate c) := by
  let R := Simulation.ofProperty P pure throw bind
  have h : R.Agree c c :=
    { reference := R.reference_of_resolve rfl
      lookup := fun table key => ⟨rfl, lookup table key⟩
      aggregate := fun f column => ⟨rfl, aggregate f column⟩ }
  exact (h.evaluate e).2

end TableDoc.Formula
