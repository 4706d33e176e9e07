import TableDoc.Proofs.Formula.Simulation
import TableDoc.Proofs.Sequence

/-!
# Formulas of numbers that may be missing

A formula is numeric if it is made of numerals, columns, signs, arithmetic and `round` (`Numeric`).
Its operations are strict: they take numbers and nulls only, and give null just if one of their
operands is null (`Strict`). So the value of the formula is null just if one of its columns is,
whatever the others are, and a number otherwise (`evaluate_of_numeric`). Only a division can fail on
such columns.
-/

namespace TableDoc

/-- A number, or none. -/
inductive Scalar.IsNumeric : Scalar → Prop
  | null : IsNumeric .null
  | number (x : Float) : IsNumeric (.number x)

namespace Formula

/-- A formula is made of numerals, columns, signs, these operations and `round` with two arguments,
and these are its columns. -/
inductive Numeric (ops : List Arithmetic) : Expr → List String → Prop
  | number (x : Float) : Numeric ops (.number x) []
  | identifier (name : String) : Numeric ops (.identifier name) [name]
  | unary (op : UnaryOperator) : Numeric ops e names → Numeric ops (.unary op e) names
  | arithmetic {op : Arithmetic} : op ∈ ops → Numeric ops left names → Numeric ops right others →
    Numeric ops (.binary (.arithmetic op) left right) (names ++ others)
  | round {function : String} : Builtin.ofName? function = some .round → Numeric ops amount names →
    Numeric ops places others → Numeric ops (.call function [amount, places]) (names ++ others)

/-! ## Strict operations -/

/-- What a strict operation makes of two operands: a number of numbers, and null if one of them is
null. -/
inductive Strict : Scalar → Scalar → Scalar → Prop
  | number (x y z : Float) : Strict (.number x) (.number y) (.number z)
  | null_left : r.IsNumeric → Strict .null r .null
  | null_right : l.IsNumeric → Strict l .null .null

theorem Strict.left (h : Strict l r v) : l.IsNumeric := by
  cases h with
  | number x => exact .number x
  | null_left _ => exact .null
  | null_right hl => exact hl

theorem Strict.right (h : Strict l r v) : r.IsNumeric := by
  cases h with
  | number _ y => exact .number y
  | null_left hr => exact hr
  | null_right _ => exact .null

theorem Strict.value (h : Strict l r v) : v.IsNumeric := by
  cases h with
  | number _ _ z => exact .number z
  | null_left _ => exact .null
  | null_right _ => exact .null

theorem Strict.eq_null_iff (h : Strict l r v) : v = .null ↔ l = .null ∨ r = .null := by
  cases h <;> simp

/-- Arithmetic takes and gives numbers, and null just if one of the two is null. -/
theorem strict_of_arithmetic {op : Arithmetic} (h : op.apply l r = .ok v) : Strict l r v := by
  unfold Arithmetic.apply at h
  split at h
  case h_1 x y =>
    cases hz : op.compute x y with
    | error e => rw [hz] at h; cases h
    | ok z => rw [hz] at h; cases h; exact .number x y z
  case h_2 => cases h; exact .null_left .null
  case h_3 y => cases h; exact .null_left (.number y)
  case h_4 x => cases h; exact .null_right (.number x)
  case h_5 => cases h

/-- Rounding takes and gives numbers, and null just if one of the two is null. -/
theorem strict_of_roundValue (h : roundValue l r = .ok v) : Strict l r v := by
  unfold roundValue at h
  split at h
  case h_1 x y => cases h; exact .number x y _
  case h_2 => cases h; exact .null_left .null
  case h_3 y => cases h; exact .null_left (.number y)
  case h_4 x => cases h; exact .null_right (.number x)
  case h_5 => cases h

theorem exists_arithmetic {op : Arithmetic} (hop : op ≠ .divide) (hl : l.IsNumeric)
    (hr : r.IsNumeric) :
    ∃ v, op.apply l r = .ok v := by
  cases hl with
  | null => cases hr <;> exact ⟨.null, rfl⟩
  | number x =>
    cases hr with
    | null => exact ⟨.null, rfl⟩
    | number y =>
      cases op with
      | add => exact ⟨_, rfl⟩
      | subtract => exact ⟨_, rfl⟩
      | multiply => exact ⟨_, rfl⟩
      | divide => exact absurd rfl hop

theorem exists_roundValue (hl : l.IsNumeric) (hr : r.IsNumeric) : ∃ v, roundValue l r = .ok v := by
  cases hl <;> cases hr <;> exact ⟨_, rfl⟩

/-- Signs take and give numbers, and null just for null. -/
theorem unary_apply {op : UnaryOperator} (h : op.apply s = .ok v) :
    s.IsNumeric ∧ v.IsNumeric ∧ (v = .null ↔ s = .null) := by
  cases s with
  | null => cases h; exact ⟨.null, .null, Iff.rfl⟩
  | number x => cases h; exact ⟨.number x, .number _, by simp⟩
  | boolean b => cases h
  | text t => cases h

theorem exists_unary (op : UnaryOperator) (h : s.IsNumeric) : ∃ v, op.apply s = .ok v := by
  cases h <;> exact ⟨_, rfl⟩

/-! ## Values by columns -/

section
variable {resolve : String → Option Scalar}

/-- These columns are numbers or nulls. -/
def NumericColumns (resolve : String → Option Scalar) (names : List String) : Prop :=
  ∀ name ∈ names, ∃ v, resolve name = some v ∧ v.IsNumeric

/-- One of these columns is null. -/
def NullColumn (resolve : String → Option Scalar) (names : List String) : Prop :=
  ∃ name ∈ names, resolve name = some .null

theorem numericColumns_append :
    NumericColumns resolve (names ++ others) ↔ NumericColumns resolve names ∧
    NumericColumns resolve others :=
  List.forall_mem_append

theorem nullColumn_append :
    NullColumn resolve (names ++ others) ↔ NullColumn resolve names ∨
    NullColumn resolve others := by
  simp only [NullColumn, List.mem_append, or_and_right, exists_or]

/-- If the value is a number or null, then so are the columns, and it is null just if one of them
is. -/
def Follows (resolve : String → Option Scalar) (names : List String) (s : Scalar) : Prop :=
  s.IsNumeric → NumericColumns resolve names ∧ (s = .null ↔ NullColumn resolve names)

/-- A strict operation of values that follow their columns follows the columns of both. -/
theorem Follows.strict (hl : Follows resolve names l) (hr : Follows resolve others r)
    (h : Strict l r v) :
    Follows resolve (names ++ others) v := by
  intro _
  obtain ⟨hnames, hnull⟩ := hl h.left
  obtain ⟨hothers, hnull'⟩ := hr h.right
  refine ⟨numericColumns_append.2 ⟨hnames, hothers⟩, ?_⟩
  rw [h.eq_null_iff, hnull, hnull', nullColumn_append]

end

/-! ## Evaluation -/

section
variable {m : Type → Type} [Monad m] {ctx : Context m} {e : Expr}

/-- What a numeric formula gives, whatever else its context does: the value follows its columns, and
is a number or null unless the formula is a column itself. It is there if the columns are numbers or
nulls and nothing is divided. -/
structure Gives (ctx : Context m) (ops : List Arithmetic) (e : Expr) (names : List String)
    (outcome : Except Error Scalar) : Prop where
  evaluate_eq : e.evaluate ctx = liftM outcome
  follows : ∀ {s}, outcome = .ok s → Follows ctx.resolve names s
  isNumeric : ∀ {s}, outcome = .ok s → (∀ name, e ≠ .identifier name) → s.IsNumeric
  total : .divide ∉ ops → NumericColumns ctx.resolve names → ∃ s, outcome = .ok s ∧ s.IsNumeric

variable [LawfulMonad m]

theorem evaluate_of_value {x : Except Error Scalar} (h : e.value ctx = do return .scalar (← x)) :
    e.evaluate ctx = liftM x := by
  calc e.evaluate ctx
    _ = liftM x >>= fun s => liftM (Value.scalar s).toScalar := by
        rw [Expr.evaluate, h, bind_assoc]
        simp only [pure_bind]
    _ = liftM (x >>= fun s => (Value.scalar s).toScalar) := (liftM_bind x _).symm
    _ = liftM x := congrArg liftM (bind_pure x)

theorem gives_number (x : Float) : Gives ctx ops (.number x) [] (.ok (.number x)) where
  evaluate_eq := by
    apply evaluate_of_value
    rw [Expr.value, liftM_ok_bind]
  follows h := by
    cases h
    intro _
    refine ⟨fun _ hname => absurd hname List.not_mem_nil, ?_⟩
    simp [NullColumn]
  isNumeric h _ := by cases h; exact .number x
  total _ _ := ⟨_, rfl, .number x⟩

theorem gives_identifier (name : String) :
    ∃ outcome, Gives ctx ops (.identifier name) [name] outcome := by
  have hvalue := Expr.value_identifier ctx name
  cases hv : ctx.resolve name with
  | none =>
    refine ⟨.error (.unknownReference name), evaluate_of_value ?_, fun h => (nomatch h),
      fun h => (nomatch h), ?_⟩
    · simp only [hvalue, hv, liftM_error_bind]
    · intro _ hnames
      obtain ⟨v, hsome, _⟩ := hnames name (List.mem_singleton_self name)
      rw [hv] at hsome
      cases hsome
  | some v =>
    refine ⟨.ok v, evaluate_of_value ?_, ?_, fun _ he => absurd rfl (he name), ?_⟩
    · simp only [hvalue, hv, liftM_ok_bind]
    · intro s hs hnum
      cases hs
      simp only [NumericColumns, NullColumn, List.mem_singleton, forall_eq, exists_eq_left, hv]
      exact ⟨⟨v, rfl, hnum⟩, (Option.some_inj).symm⟩
    · intro _ hnames
      obtain ⟨w, hsome, hnum⟩ := hnames name (List.mem_singleton_self name)
      rw [hv] at hsome
      cases hsome
      exact ⟨v, rfl, hnum⟩

/-- A signed formula follows the columns of the formula. -/
theorem Gives.unary (h : Gives ctx ops e names x) (op : UnaryOperator) :
    Gives ctx ops (.unary op e) names (do op.apply (← x)) where
  evaluate_eq := by
    apply evaluate_of_value
    rw [Expr.value_unary, h.evaluate_eq, liftM_bind, bind_assoc]
  follows hv := by
    obtain ⟨s, hs, hv⟩ := bind_eq_ok_iff.1 hv
    obtain ⟨hnum, _, hnull⟩ := unary_apply hv
    intro _
    rw [hnull]
    exact h.follows hs hnum
  isNumeric hv _ := by
    obtain ⟨s, hs, hv⟩ := bind_eq_ok_iff.1 hv
    exact (unary_apply hv).2.1
  total hops hnames := by
    obtain ⟨s, rfl, hs⟩ := h.total hops hnames
    obtain ⟨v, hv⟩ := exists_unary op hs
    exact ⟨v, hv, (unary_apply hv).2.1⟩

/-- A formula that evaluates two others, the left one first, and makes of their values what a strict
operation does. -/
theorem Gives.strict {f : Scalar → Scalar → Except Error Scalar} (hl : Gives ctx ops left names x)
    (hr : Gives ctx ops right others y)
    (he : e.value ctx = do
      let l ← left.evaluate ctx
      let r ← right.evaluate ctx
      return .scalar (← f l r))
    (hstrict : ∀ {l r v}, f l r = .ok v → Strict l r v)
    (htotal : .divide ∉ ops → ∀ {l r}, l.IsNumeric → r.IsNumeric → ∃ v, f l r = .ok v) :
    Gives ctx ops e (names ++ others) (do f (← x) (← y)) where
  evaluate_eq := by
    apply evaluate_of_value
    rw [he, hl.evaluate_eq, hr.evaluate_eq]
    simp only [liftM_bind, bind_assoc]
  follows hv := by
    obtain ⟨l, hx, hv⟩ := bind_eq_ok_iff.1 hv
    obtain ⟨r, hy, hv⟩ := bind_eq_ok_iff.1 hv
    exact (hl.follows hx).strict (hr.follows hy) (hstrict hv)
  isNumeric hv _ := by
    obtain ⟨l, _, hv⟩ := bind_eq_ok_iff.1 hv
    obtain ⟨r, _, hv⟩ := bind_eq_ok_iff.1 hv
    exact (hstrict hv).value
  total hops hnames := by
    obtain ⟨hnames, hothers⟩ := numericColumns_append.1 hnames
    obtain ⟨l, rfl, hlnum⟩ := hl.total hops hnames
    obtain ⟨r, rfl, hrnum⟩ := hr.total hops hothers
    obtain ⟨v, hv⟩ := htotal hops hlnum hrnum
    exact ⟨v, hv, (hstrict hv).value⟩

/-- Every numeric formula has an outcome that follows its columns. -/
theorem exists_gives (h : Numeric ops e names) (ctx : Context m) :
    ∃ outcome, Gives ctx ops e names outcome := by
  induction h with
  | number x => exact ⟨_, gives_number x⟩
  | identifier name => exact gives_identifier name
  | unary op _ ih =>
    obtain ⟨x, hx⟩ := ih
    exact ⟨_, hx.unary op⟩
  | @arithmetic _ _ _ _ op hop _ _ ihl ihr =>
    obtain ⟨x, hx⟩ := ihl
    obtain ⟨y, hy⟩ := ihr
    refine ⟨_, hx.strict hy (Expr.value_binary _ _ _) strict_of_arithmetic ?_⟩
    intro hops l r hl hr
    exact exists_arithmetic (fun h => hops (h ▸ hop)) hl hr
  | round hf _ _ ihl ihr =>
    obtain ⟨x, hx⟩ := ihl
    obtain ⟨y, hy⟩ := ihr
    exact ⟨_,
      hx.strict hy (Expr.value_round hf _ _) strict_of_roundValue fun _ => exists_roundValue⟩

/-- A numeric formula that is no bare column is evaluated without effects. If it has a value, all
its columns are numbers or nulls, and the value is null just if one of them is, and a number
otherwise. Without a division it has one whenever its columns are numbers or nulls. -/
theorem evaluate_of_numeric (h : Numeric ops e names) (he : ∀ name, e ≠ .identifier name)
    (ctx : Context m) :
    ∃ outcome : Except Error Scalar, e.evaluate ctx = liftM outcome ∧
      (∀ s, outcome = .ok s →
        NumericColumns ctx.resolve names ∧ s.IsNumeric ∧
          (s = .null ↔ NullColumn ctx.resolve names)) ∧
      (.divide ∉ ops → NumericColumns ctx.resolve names → ∃ s, outcome = .ok s) := by
  obtain ⟨outcome, hgives⟩ := exists_gives h ctx
  refine ⟨outcome, hgives.evaluate_eq, ?_, ?_⟩
  · intro s hs
    have hnum := hgives.isNumeric hs he
    obtain ⟨hnames, hnull⟩ := hgives.follows hs hnum
    exact ⟨hnames, hnum, hnull⟩
  · intro hops hnames
    obtain ⟨s, hs, _⟩ := hgives.total hops hnames
    exact ⟨s, hs⟩

end

/-- `round(-a + 2 * b, n)` -/
def roundedSum : Expr :=
  .call "round" [.binary (.arithmetic .add) (.unary .negate (.identifier "a"))
    (.binary (.arithmetic .multiply) (.number 2) (.identifier "b")), .identifier "n"]

/-- A row in which `a` is missing. -/
def gapRow : Row := ⟨[("a", .null), ("b", .number 1.5), ("n", .number 1)], by decide⟩

/-- With `a` missing the rounded sum is missing too. -/
theorem evaluate_roundedSum :
    Numeric [.add, .multiply] roundedSum ["a", "b", "n"] ∧ (∀ name, roundedSum ≠ .identifier name) ∧
      NumericColumns gapRow.get? ["a", "b", "n"] ∧
      roundedSum.evaluate (.ofRow gapRow) = (pure .null : ExceptT Error Id Scalar) := by
  have hround : Builtin.ofName? "round" = some .round := by decide +kernel
  have hnumeric : Numeric [.add, .multiply] roundedSum ["a", "b", "n"] :=
    .round hround
      (.arithmetic List.mem_cons_self (.unary .negate (.identifier "a"))
        (.arithmetic (List.mem_cons_of_mem _ List.mem_cons_self) (.number 2) (.identifier "b")))
      (.identifier "n")
  have hne : ∀ name, roundedSum ≠ .identifier name := nofun
  have hcolumns : NumericColumns gapRow.get? ["a", "b", "n"] := by
    simp only [NumericColumns, List.forall_mem_cons]
    exact ⟨⟨_, rfl, .null⟩, ⟨_, rfl, .number _⟩, ⟨_, rfl, .number _⟩, nofun⟩
  obtain ⟨outcome, hevaluate, hok, htotal⟩ := evaluate_of_numeric hnumeric hne (.ofRow gapRow)
  obtain ⟨s, rfl⟩ := htotal (by decide) hcolumns
  obtain ⟨_, _, hnull⟩ := hok s rfl
  cases hnull.2 ⟨"a", List.mem_cons_self, rfl⟩
  exact ⟨hnumeric, hne, hcolumns, hevaluate⟩

end Formula

end TableDoc
