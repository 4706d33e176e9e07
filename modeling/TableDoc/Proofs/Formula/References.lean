import Mathlib
import TableDoc.Proofs.Formula.Simulation

/-!
# What the evaluation of a formula reads

`Expr.references` is known before a formula is evaluated, and the evaluation keeps to it: only the
columns listed count (`Expr.evaluate_congr`), and where there is a list no aggregate has a wrong
argument. All other errors are those of operations, or come from lookups and aggregates
(`Expr.raises_evaluate`). What errors a computation may fail with is said by `Raises`.
-/

namespace TableDoc.Formula

variable {m : Type → Type} [Monad m]

/-! ## Errors of a computation -/

section
variable {ε α β : Type} {P : ε → Prop}

/-- The computation has only errors of this kind: it is one that knows no others. -/
def Raises (P : ε → Prop) (x : ExceptT ε m α) : Prop :=
  ∃ y : ExceptT {e // P e} m α, y.adapt Subtype.val = x

/-- On a state: whatever it is, an error that comes out is of this kind. -/
theorem raises_iff {σ : Type} {x : ExceptT ε (StateM σ) α} :
    Raises P x ↔ ∀ a e, (x.run.run a).1 = .error e → P e := by
  constructor
  · rintro ⟨y, rfl⟩ a e h
    change ((y.run.run a).1.mapError Subtype.val) = .error e at h
    rcases hy : (y.run.run a).1 with e' | v <;> rw [hy] at h <;> cases h
    exact e'.2
  · intro h
    have one : ∀ a, ∃ r : Except {e // P e} α, r.mapError Subtype.val = (x.run.run a).1 := by
      intro a
      rcases hx : (x.run.run a).1 with e | v
      · exact ⟨.error ⟨e, h a e hx⟩, rfl⟩
      · exact ⟨.ok v, rfl⟩
    choose result hresult using one
    refine ⟨fun a => (result a, (x.run.run a).2), ?_⟩
    funext a
    exact Prod.ext (hresult a) rfl

variable [LawfulMonad m]

theorem Raises.pure (a : α) : Raises P (Pure.pure a : ExceptT ε m α) :=
  ⟨Pure.pure a, ExceptT.ext (map_pure _ _)⟩

theorem Raises.throw {e : ε} (h : P e) : Raises P (MonadExcept.throw e : ExceptT ε m α) :=
  ⟨MonadExcept.throw ⟨e, h⟩, ExceptT.ext (map_pure _ _)⟩

/-- What goes on raises no other errors if neither part does. -/
theorem Raises.bind {x : ExceptT ε m α} {f : α → ExceptT ε m β} (hx : Raises P x)
    (hf : ∀ a, Raises P (f a)) : Raises P (x >>= f) := by
  obtain ⟨y, rfl⟩ := hx
  choose g hg using hf
  obtain rfl : (fun a => (g a).adapt Subtype.val) = f := funext hg
  refine ⟨y >>= g, ExceptT.ext ?_⟩
  have hadapt {γ : Type} (z : ExceptT {e // P e} m γ) :
      (z.adapt Subtype.val).run = Except.mapError Subtype.val <$> z.run := rfl
  rw [hadapt, ExceptT.run_bind, ExceptT.run_bind, hadapt, map_bind, bind_map_left]
  refine bind_congr fun r => ?_
  cases r with
  | ok a => rfl
  | error e => exact map_pure _ _

end

/-! ## The evaluation of a formula -/

variable [LawfulMonad m] {c d : Context m} {refs : List String}

/-- Equality, as a relation that formulas keep. -/
def sameness (m : Type → Type) [Monad m] : Simulation m m where
  rel x y := x = y
  pure _ := rfl
  throw _ := rfl
  bind hx hf := by rw [hx, funext hf]

/-- The evaluation of a formula depends on no other columns than the formula reads. -/
theorem Expr.evaluate_congr {e : Expr} (h : e.references = .ok refs) (hl : c.lookup = d.lookup)
    (ha : c.aggregate = d.aggregate) (hr : ∀ name ∈ refs, c.resolve name = d.resolve name) :
    e.evaluate c = e.evaluate d := by
  have hgives : (sameness m).toCorrespondence.Gives c d :=
    { lookup := fun table key => congrArg _ (congrFun (congrFun hl table) key)
      aggregate := fun f column => congrArg _ (congrFun (congrFun ha f) column) }
  have hvalue : e.value c = e.value d := by
    refine (sameness m).toCorrespondence.value hgives e (.inl ⟨refs, h, fun name hname => ?_⟩)
    change (Expr.identifier name).value c = (Expr.identifier name).value d
    rw [Expr.value, Expr.value, hr name hname]
  rw [Expr.evaluate, Expr.evaluate, hvalue]

/-- `Raises`, as a property that formulas keep. -/
def raising (m : Type → Type) [Monad m] [LawfulMonad m] (P : Error → Prop)
    (hP : ∀ e : Error, e.ofOperation → P e) : Correspondence m m where
  rows r r' := r = r'
  errors := P
  rel x y := x = y ∧ Raises P x
  get?_eq h := Row.get?_congr h
  ofOperation := hP
  pure h := ⟨congrArg _ (Value.alike_eq_iff.1 h), .pure _⟩
  throw h := ⟨rfl, .throw h⟩
  bind {x y f g} hx hf := by
    have hfg (v : Value) : f v = g v ∧ Raises P (f v) := hf v v (Value.alike_eq_iff.2 rfl)
    exact ⟨by rw [hx.1, funext fun v => (hfg v).1], hx.2.bind fun v => (hfg v).2⟩

/-- The errors of an evaluation are those of operations, of lookups and of aggregates. -/
theorem Expr.raises_evaluate {P : Error → Prop} {e : Expr} (hP : ∀ e : Error, e.ofOperation → P e)
    (he : (∃ refs, e.references = .ok refs) ∨ ∀ f, P (.aggregateArgument f))
    (hl : ∀ table key, Raises P (c.lookup table key))
    (ha : ∀ f column, Raises P (c.aggregate f column)) : Raises P (e.evaluate c) := by
  have hmap {α : Type} {f : α → Value} {x : ExceptT Error m α} (h : Raises P x) :
      Raises P (f <$> x) := by
    rw [map_eq_pure_bind]
    exact h.bind fun a => .pure _
  have hgives : (raising m P hP).Gives c c :=
    { lookup := fun table key => ⟨rfl, hmap (hl table key)⟩
      aggregate := fun f column => ⟨rfl, hmap (ha f column)⟩ }
  have hname (name : String) : (raising m P hP).rel ((Expr.identifier name).value c)
      ((Expr.identifier name).value c) := by
    refine ⟨rfl, ?_⟩
    rw [Expr.value]
    split
    · exact .pure _
    · exact .throw (hP _ rfl)
  have hvalue : Raises P (e.value c) := by
    refine ((raising m P hP).value hgives e ?_).2
    exact he.imp (Exists.imp fun refs hrefs => ⟨hrefs, fun name _ => hname name⟩)
      fun h => ⟨h, hname⟩
  refine hvalue.bind fun v => ?_
  rcases hv : v.toScalar with e | s
  · exact .throw (hP e (Value.toScalar_error hv))
  · exact .pure s

/-- What is found out about a formula before it is evaluated holds of every evaluation: columns that
are not listed do not matter, and aggregates are only called with a column. -/
theorem references_bound_evaluation {e : Expr} (h : e.references = .ok refs) :
    (∀ c d : Context m, c.lookup = d.lookup → c.aggregate = d.aggregate →
      (∀ name ∈ refs, c.resolve name = d.resolve name) → e.evaluate c = e.evaluate d) ∧
    ∀ c : Context m,
      (∀ table key, Raises (fun error => ∀ f, error ≠ .aggregateArgument f) (c.lookup table key)) →
      (∀ f column, Raises (fun error => ∀ f, error ≠ .aggregateArgument f) (c.aggregate f column)) →
      Raises (fun error => ∀ f, error ≠ .aggregateArgument f) (e.evaluate c) := by
  refine ⟨fun c d hl ha hr => Expr.evaluate_congr h hl ha hr, fun c hl ha => ?_⟩
  refine Expr.raises_evaluate (fun error herror f => ?_) (.inl ⟨refs, h⟩) hl ha
  rintro rfl
  cases herror

/-- `IF(flag, rates[key].rate, Round(SUM(amount), digits))`, where lookups are counted and only the
columns that are read are at hand. -/
theorem references_bound_evaluation_if :
    let e : Expr := .call "IF" [.identifier "flag",
      .member (.lookup (.identifier "rates") (.identifier "key")) "rate",
      .call "Round" [.call "SUM" [.identifier "amount"], .identifier "digits"]]
    let c (columns : List String) : Context (StateM Nat) :=
      { resolve := fun name => if name ∈ columns then some (.boolean true) else none
        lookup := fun _ key => do
          modify (· + 1)
          return .ofList [("rate", key)]
        aggregate := fun f _ => throw (.aggregateInRow f.name) }
    e.references = .ok ["flag", "key", "digits"] ∧
      e.evaluate (c ["flag", "key", "digits"]) = e.evaluate
        (c ["amount", "digits", "flag", "key", "rates"]) ∧
      Raises (fun error => ∀ f, error ≠ .aggregateArgument f) (e.evaluate (c ["amount"])) := by
  intro e c
  have h : e.references = .ok ["flag", "key", "digits"] := by cbv
  refine ⟨h, (references_bound_evaluation h).1 _ _ rfl rfl (by decide), ?_⟩
  refine (references_bound_evaluation h).2 _ (fun table key => ?_) fun f column => ?_
  · refine Raises.bind (raises_iff.2 fun a error h => ?_) fun _ => .pure _
    cases h
  · refine .throw fun f h => ?_
    cases h

end TableDoc.Formula
