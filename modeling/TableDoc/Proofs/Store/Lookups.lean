import TableDoc.Proofs.Formula.Correspondence
import TableDoc.Proofs.Store.Run

/-!
# Lookups of a formula

The evaluation of a formula does not look into its monad, so it can also be run on a state that
remembers the lookups (`requests`). Nothing but lookups changes the state while the formula of a row
is evaluated: each lookup is made where the one before ended (`Trail`). The first one that fails is
the last, and ends the evaluation with its error (`evaluate_of_request`); an evaluation that fails
does so for such a lookup, or with an error of its own (`request_of_error`).
-/

namespace TableDoc.Formula

/-- The errors that the formula of a row comes to by itself, without a lookup. -/
def Error.ofRow : Error → Bool
  | aggregateArgument _ | aggregateInRow _ => true
  | e => e.ofOperation

theorem Error.ofRow_of_ofOperation {e : Error} (h : e.ofOperation) : e.ofRow := by
  cases e with
  | aggregateArgument | aggregateInRow => rfl
  | _ => exact h

end TableDoc.Formula

namespace TableDoc.Store

open Formula (Correspondence Error Expr Value)

/-- A lookup, and the state in which it is made. -/
structure Request (σ : Type) where
  table : String
  key : Scalar
  state : σ

/-- A state with the lookups made so far, the first one first. -/
structure Recorded (σ : Type) where
  state : σ
  made : List (Request σ)

variable {σ : Type}

section
variable (lookup : String → Scalar → ExceptT Error (StateM σ) Row)

/-- Lookups that are remembered. -/
def record (table : String) (key : Scalar) : ExceptT Error (StateM (Recorded σ)) Row :=
  ExceptT.mk fun a =>
    let found := runFrom a.state (lookup table key)
    (found.1, ⟨found.2, a.made ++ [⟨table, key, a.state⟩]⟩)

/-- The lookups that the formula of a row makes when it is evaluated in a state, the first one
first. -/
def requests (row : Row) (e : Expr) (a : σ) : List (Request σ) :=
  (runFrom ⟨a, []⟩ (e.evaluate (rowContext (record lookup) row))).2.made

/-- Lookups made one after another, the state in which the last one ends, and its error if it fails.
-/
inductive Trail : σ → List (Request σ) → Option Error → σ → Prop
  | nil (a : σ) : Trail a [] none a
  | found : runFrom a (lookup table key) = (.ok row, b) → Trail b rest failed c →
    Trail a (⟨table, key, a⟩ :: rest) failed c
  | failed : runFrom a (lookup table key) = (.error e, b) → Trail a [⟨table, key, a⟩] (some e) b

/-- What a computation gives after its lookups: the error of the one that fails, or else a value or
an error of its own. -/
inductive Ends {α : Type} : Option Error → Except Error α → Prop
  | value (v : α) : Ends none (.ok v)
  | own : e.ofRow → Ends none (.error e)
  | failed (e : Error) : Ends (some e) (.error e)

/-- The two are the same, but that the lookups of `x` are remembered. -/
def Records {α : Type} (x : ExceptT Error (StateM (Recorded σ)) α)
    (y : ExceptT Error (StateM σ) α) : Prop :=
  ∀ a : Recorded σ, ∃ made failed, Trail lookup a.state made failed (runFrom a.state y).2 ∧
    Ends failed (runFrom a.state y).1 ∧
    runFrom a x = ((runFrom a.state y).1, ⟨(runFrom a.state y).2, a.made ++ made⟩)

end

variable {lookup : String → Scalar → ExceptT Error (StateM σ) Row} {a b c : σ}
  {made rest : List (Request σ)} {request : Request σ} {failed : Option Error} {e : Error}
  {row : Row} {formula : Expr}

theorem Trail.append (h : Trail lookup a made none b) (h' : Trail lookup b rest failed c) :
    Trail lookup a (made ++ rest) failed c := by
  generalize hnone : (none : Option Error) = ended at h
  induction h with
  | nil => exact h'
  | found hfound _ ih => exact .found hfound (ih h' hnone)
  | failed => cases hnone

/-- The lookup that fails is among those made. -/
theorem Trail.exists_of_failed (h : Trail lookup a made (some e) b) :
    ∃ request ∈ made, runFrom request.state (lookup request.table request.key) = (.error e, b) := by
  generalize hsome : some e = ended at h
  induction h with
  | nil => cases hsome
  | found _ _ ih =>
    obtain ⟨request, hmem, hrequest⟩ := ih hsome
    exact ⟨request, List.mem_cons_of_mem _ hmem, hrequest⟩
  | failed hfailed =>
    cases hsome
    exact ⟨_, List.mem_cons_self, hfailed⟩

/-- Nothing comes after a lookup that fails. -/
theorem Trail.eq_of_mem (h : Trail lookup a made failed b) (hmem : request ∈ made)
    (hrequest : runFrom request.state (lookup request.table request.key) = (.error e, c)) :
    failed = some e ∧ b = c := by
  induction h with
  | nil => cases hmem
  | found hfound _ ih =>
    rcases List.mem_cons.1 hmem with rfl | hmem
    · cases hfound.symm.trans hrequest
    · exact ih hmem
  | failed hfailed =>
    cases List.mem_singleton.1 hmem
    cases hfailed.symm.trans hrequest
    exact ⟨rfl, rfl⟩

/-! ## Evaluations that are recorded -/

section
variable {α β : Type}

theorem Records.pure (v : α) : Records lookup (Pure.pure v) (Pure.pure v) :=
  fun a => ⟨[], none, .nil _, .value v, by rw [List.append_nil]; rfl⟩

theorem Records.throw (h : e.ofRow) :
    Records (α := α) lookup (MonadExcept.throw e) (MonadExcept.throw e) :=
  fun a => ⟨[], none, .nil _, .own h, by rw [List.append_nil]; rfl⟩

theorem Records.bind {x : ExceptT Error (StateM (Recorded σ)) α} {y : ExceptT Error (StateM σ) α}
    {f : α → ExceptT Error (StateM (Recorded σ)) β} {g : α → ExceptT Error (StateM σ) β}
    (hx : Records lookup x y) (hf : ∀ v, Records lookup (f v) (g v)) :
    Records lookup (x >>= f) (y >>= g) := by
  intro a
  obtain ⟨made, failed, htrail, hends, hrun⟩ := hx a
  rw [runFrom_bind, runFrom_bind, hrun]
  rcases hy : runFrom a.state y with ⟨e | v, b⟩ <;> rw [hy] at htrail hends
  · refine ⟨made, failed, htrail, ?_, rfl⟩
    cases hends with
    | own h => exact .own h
    | failed => exact .failed e
  · cases hends
    obtain ⟨rest, failed, htrail', hends, hrun⟩ := hf v ⟨b, a.made ++ made⟩
    refine ⟨made ++ rest, failed, htrail.append htrail', hends, ?_⟩
    rw [← List.append_assoc]
    exact hrun

/-- A lookup that records itself is on record. -/
theorem records_record (table : String) (key : Scalar) :
    Records lookup (record lookup table key) (lookup table key) := by
  intro a
  rcases h : runFrom a.state (lookup table key) with ⟨e | row, b⟩
  · exact ⟨_, _, .failed h, .failed e, by simp only [record, runFrom, ExceptT.mk] at h ⊢; rw [h]⟩
  · exact ⟨_, _, .found h (.nil b), .value row,
      by simp only [record, runFrom, ExceptT.mk] at h ⊢; rw [h]⟩

end

/-- `Records`, as a relation that formulas keep. -/
def remembering (lookup : String → Scalar → ExceptT Error (StateM σ) Row) :
    Correspondence (StateM (Recorded σ)) (StateM σ) where
  rows r r' := r = r'
  errors e := e.ofRow
  rel := Records lookup
  get?_eq h := Row.get?_congr h
  ofOperation _ := Error.ofRow_of_ofOperation
  pure h := Value.alike_eq_iff.1 h ▸ .pure _
  throw := .throw
  bind hx hf := hx.bind fun v => hf v v (Value.alike_eq_iff.2 rfl)

/-- A formula records the lookups that it makes and gives the same as without a record. -/
theorem records_evaluate (lookup : String → Scalar → ExceptT Error (StateM σ) Row) (row : Row)
    (formula : Expr) :
    Records lookup (formula.evaluate (rowContext (record lookup) row))
      (formula.evaluate (rowContext lookup row)) := by
  have hgives :
      (remembering lookup).Gives (rowContext (record lookup) row) (rowContext lookup row) :=
    { lookup := fun table key => by
        rw [map_eq_pure_bind, map_eq_pure_bind]
        exact (records_record table key).bind fun found => .pure _
      aggregate := fun f column => Records.throw rfl }
  have hname (name : String) :
      Records lookup ((Expr.identifier name).value (rowContext (record lookup) row))
        ((Expr.identifier name).value (rowContext lookup row)) := by
    rw [Expr.value_identifier, Expr.value_identifier]
    simp only [rowContext]
    cases row.get? name with
    | some s => exact .pure _
    | none => exact .throw rfl
  refine ((remembering lookup).value hgives formula (.inr ⟨fun _ => rfl, hname⟩)).bind fun v => ?_
  cases hv : v.toScalar with
  | ok s => exact .pure s
  | error e => exact .throw (Error.ofRow_of_ofOperation (Value.toScalar_error hv))

/-- The lookups of an evaluation. -/
theorem trail_requests (lookup : String → Scalar → ExceptT Error (StateM σ) Row) (row : Row)
    (formula : Expr) (a : σ) :
    ∃ failed, Trail lookup a (requests lookup row formula a) failed
        (runFrom a (formula.evaluate (rowContext lookup row))).2 ∧
      Ends failed (runFrom a (formula.evaluate (rowContext lookup row))).1 := by
  obtain ⟨made, failed, htrail, hends, hrun⟩ := records_evaluate lookup row formula ⟨a, []⟩
  refine ⟨failed, ?_, hends⟩
  rw [requests, hrun]
  exact htrail

/-- An evaluation that fails does so with an error of its own or that of a lookup. -/
theorem request_of_error
    (h : runFrom a (formula.evaluate (rowContext lookup row)) = (.error e, b)) :
    e.ofRow ∨ ∃ request ∈ requests lookup row formula a,
      runFrom request.state (lookup request.table request.key) = (.error e, b) := by
  obtain ⟨failed, htrail, hends⟩ := trail_requests lookup row formula a
  rw [h] at htrail hends
  cases hends with
  | own he => exact .inl he
  | failed => exact .inr htrail.exists_of_failed

/-- A lookup that fails ends the evaluation. -/
theorem evaluate_of_request (hmem : request ∈ requests lookup row formula a)
    (hrequest : runFrom request.state (lookup request.table request.key) = (.error e, b)) :
    runFrom a (formula.evaluate (rowContext lookup row)) = (.error e, b) := by
  obtain ⟨failed, htrail, hends⟩ := trail_requests lookup row formula a
  obtain ⟨rfl, heq⟩ := htrail.eq_of_mem hmem hrequest
  refine Prod.ext ?_ heq
  generalize (runFrom a (formula.evaluate (rowContext lookup row))).1 = result at hends
  cases hends
  rfl

/-! ## Lookups in the store -/

variable {s : Store} {p q : Progress} {asked : List (Request Progress)} {r : Request Progress}

/-- Lookups of a store are made at points of its runs, in the same calls. -/
theorem Trail.reached {find : String → Scalar → ExceptT Error (StateM Progress) Row}
    (hfind : ∀ table key, s.Tame (find table key)) (h : Trail find p asked failed q)
    (hp : s.Reached p) (hmem : r ∈ asked) : s.Reached r.state ∧ p.Advance r.state := by
  induction h with
  | nil => cases hmem
  | @found p table key _ _ _ _ _ hfound _ ih =>
    rcases List.mem_cons.1 hmem with rfl | hmem
    · exact ⟨hp, .refl p⟩
    · obtain ⟨hnext, hadvance⟩ := hfind table key p hp
      rw [hfound] at hnext hadvance
      obtain ⟨hreached, hlater⟩ := ih hnext hmem
      exact ⟨hreached, hadvance.trans hlater⟩
  | failed =>
    cases List.mem_singleton.1 hmem
    exact ⟨hp, .refl _⟩

theorem reached_request (depth : Nat) (hp : s.Reached p)
    (hmem : r ∈ requests (s.lookupBy (s.materialize depth)) row formula p) :
    s.Reached r.state ∧ p.Advance r.state :=
  let ⟨_, htrail, _⟩ := trail_requests (s.lookupBy (s.materialize depth)) row formula p
  htrail.reached (tame_lookupBy s depth) hp hmem

end TableDoc.Store
