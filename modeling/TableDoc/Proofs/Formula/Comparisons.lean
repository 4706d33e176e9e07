import TableDoc.Formula.Evaluation
import TableDoc.Proofs.Double

/-!
# Comparisons of values

Values of one kind have an order, unless a double is involved that is no number (`order?`). It is
reversed if the values are exchanged, and it is transitive (`order?_swap`, `order?_trans`). The six
comparisons say where two values lie in it, so they agree with each other (`Comparison.Consistent`,
`Comparison.consistent_apply`).
-/

namespace TableDoc

/-- The value is a double that is no number. -/
def Scalar.isNaN : Scalar → Bool
  | .number x => x.isNaN
  | _ => false

namespace Formula

/-- The order of two values of one kind, if they have one. -/
def order? : Scalar → Scalar → Option Ordering
  | .number x, .number y => Double.order? x y
  | .text s, .text t => some (compare s t)
  | .boolean a, .boolean b => some (compare a b)
  | _, _ => none

namespace Comparison

/-- What the comparisons say of two values agrees with each other, and with what they say of them
the other way round. -/
structure Agrees (apply : Comparison → Scalar → Scalar → Except Error Bool) (l r : Scalar)
    (holds : Comparison → Bool) : Prop where
  apply_eq : ∀ op, apply op l r = .ok (holds op)
  notEqual_eq : holds .notEqual = !holds .equal
  less_eq : apply .greater r l = .ok (holds .less)
  lessEqual_eq : apply .greaterEqual r l = .ok (holds .lessEqual)
  less_or_equal : holds .lessEqual = (holds .less || holds .equal)
  exactly_one : l.isNaN = false → r.isNaN = false →
    [holds .less, holds .equal, holds .greater].count true = 1

/-- The six comparisons form one order. Values of different kinds are not compared, and nothing
holds of null. -/
structure Consistent (apply : Comparison → Scalar → Scalar → Except Error Bool) : Prop where
  error_iff : ∀ op l r, (∃ e, apply op l r = .error e ∧ e.code = .type) ↔
    l ≠ .null ∧ r ≠ .null ∧ l.kind ≠ r.kind
  null : ∀ op l r, l = .null ∨ r = .null → apply op l r = .ok false
  agrees : ∀ l r, l ≠ .null → r ≠ .null → l.kind = r.kind → ∃ holds, Agrees apply l r holds
  trans : ∀ l r s, apply .less l r = .ok true → apply .less r s = .ok true →
    apply .less l s = .ok true

end Comparison

variable {l r s : Scalar}

/-! ## The order of two values -/

theorem compareNumbers?_eq (x y : Float) : compareNumbers? x y = Double.order? x y := by
  simp only [compareNumbers?, Double.lt_iff, Double.beq_iff, Double.order?_swap x y]
  rcases Double.order? x y with _ | _ | _ | _ <;> rfl

/-- The order of two values, the other way around. -/
theorem order?_swap (l r : Scalar) : order? r l = (order? l r).map Ordering.swap := by
  cases l <;> cases r
  case number.number x y => exact Double.order?_swap x y
  case boolean.boolean | text.text => exact congrArg some Std.OrientedCmp.eq_swap
  all_goals rfl

/-- Values of one kind can be ordered, unless one is null or no number. -/
theorem isSome_order? (hl : l ≠ .null) (h : l.kind = r.kind) (hlnan : l.isNaN = false)
    (hrnan : r.isNaN = false) :
    (order? l r).isSome := by
  cases l <;> cases r <;> cases h
  case null.null => exact absurd rfl hl
  case number.number x y =>
    rw [Option.isSome_iff_ne_none]
    intro hnone
    rcases Double.order?_eq_none_iff.1 hnone with hx | hy
    · exact Bool.eq_false_iff.1 hlnan hx
    · exact Bool.eq_false_iff.1 hrnan hy
  all_goals rfl

theorem kind_of_order? {o : Ordering} (h : order? l r = some o) : l ≠ .null ∧ l.kind = r.kind := by
  cases l <;> cases r
  case number.number | text.text | boolean.boolean => exact ⟨by simp, rfl⟩
  all_goals cases h

/-- The order of values is transitive. -/
theorem order?_trans (hlr : order? l r = some .lt) (hrs : order? r s = some .lt) :
    order? l s = some .lt := by
  obtain ⟨hl, hkind⟩ := kind_of_order? hlr
  obtain ⟨-, hkind'⟩ := kind_of_order? hrs
  cases l <;> cases r <;> cases hkind <;> cases s <;> cases hkind'
  · exact absurd rfl hl
  · exact congrArg some (Std.TransCmp.lt_trans (Option.some.inj hlr) (Option.some.inj hrs))
  · exact Double.order?_trans hlr hrs
  · exact congrArg some (Std.TransCmp.lt_trans (Option.some.inj hlr) (Option.some.inj hrs))

/-! ## Comparisons by the order -/

namespace Comparison

/-- No comparison with null holds. -/
theorem apply_null (op : Comparison) (h : l = .null ∨ r = .null) : op.apply l r = .ok false := by
  rcases h with rfl | rfl
  · rfl
  · cases l <;> rfl

/-- Values of one kind are compared by their order. -/
theorem apply_of_kind (op : Comparison) (hl : l ≠ .null) (h : l.kind = r.kind) :
    op.apply l r = .ok (op.holds (order? l r)) := by
  cases l <;> cases r <;> cases h
  case null.null => exact absurd rfl hl
  case number.number x y => rw [apply, compareNumbers?_eq, order?]
  all_goals rfl

/-- Values of different kinds cannot be compared. -/
theorem apply_of_kind_ne (op : Comparison) (hl : l ≠ .null) (hr : r ≠ .null) (h : l.kind ≠ r.kind) :
    op.apply l r = .error (.type (.comparison op l.kind r.kind)) := by
  cases l <;> cases r
  case null.null | null.boolean | null.number | null.text => exact absurd rfl hl
  case boolean.null | number.null | text.null => exact absurd rfl hr
  case boolean.boolean | number.number | text.text => exact absurd rfl h
  all_goals rfl

/-- A value is less than another just if it comes before it. -/
theorem apply_less_iff : less.apply l r = .ok true ↔ order? l r = some .lt := by
  constructor
  · intro h
    by_cases hnull : l = .null ∨ r = .null
    · rw [apply_null less hnull] at h
      cases h
    obtain ⟨hl, hr⟩ := not_or.1 hnull
    by_cases hkind : l.kind = r.kind
    · rw [apply_of_kind less hl hkind] at h
      rcases ho : order? l r with _ | _ | _ | _ <;> rw [ho] at h <;> cases h
    · rw [apply_of_kind_ne less hl hr hkind] at h
      cases h
  · intro h
    obtain ⟨hl, hkind⟩ := kind_of_order? h
    rw [apply_of_kind less hl hkind, h]
    rfl

theorem holds_swap (o : Option Ordering) :
    greater.holds (o.map Ordering.swap) = less.holds o ∧
    greaterEqual.holds (o.map Ordering.swap) = lessEqual.holds o := by
  rcases o with _ | _ | _ | _ <;> exact ⟨rfl, rfl⟩

theorem agrees_apply (hl : l ≠ .null) (hr : r ≠ .null) (h : l.kind = r.kind) :
    Agrees apply l r fun op => op.holds (order? l r) where
  apply_eq op := apply_of_kind op hl h
  notEqual_eq := by rcases order? l r with _ | _ | _ | _ <;> rfl
  less_eq := by rw [apply_of_kind _ hr h.symm, order?_swap l r, (holds_swap _).1]
  lessEqual_eq := by rw [apply_of_kind _ hr h.symm, order?_swap l r, (holds_swap _).2]
  less_or_equal := by rcases order? l r with _ | _ | _ | _ <;> rfl
  exactly_one hlnan hrnan := by
    obtain ⟨o, ho⟩ := Option.isSome_iff_exists.1 (isSome_order? hl h hlnan hrnan)
    rw [ho]
    cases o <;> rfl

/-- Comparisons fail just for values of different kinds of which none is null. -/
theorem error_iff_kind_ne (op : Comparison) (l r : Scalar) :
    (∃ e, op.apply l r = .error e ∧ e.code = .type) ↔ l ≠ .null ∧ r ≠ .null ∧ l.kind ≠ r.kind := by
  constructor
  · rintro ⟨e, h, -⟩
    by_cases hnull : l = .null ∨ r = .null
    · rw [apply_null op hnull] at h
      cases h
    obtain ⟨hl, hr⟩ := not_or.1 hnull
    refine ⟨hl, hr, fun hkind => ?_⟩
    rw [apply_of_kind op hl hkind] at h
    cases h
  · rintro ⟨hl, hr, hkind⟩
    exact ⟨_, apply_of_kind_ne op hl hr hkind, rfl⟩

/-- The six comparisons form one consistent order of the values of each kind. -/
theorem consistent_apply : Consistent apply where
  error_iff := error_iff_kind_ne
  null op _ _ := apply_null op
  agrees _ _ hl hr h := ⟨_, agrees_apply hl hr h⟩
  trans _ _ _ hlr hrs :=
    apply_less_iff.2 (order?_trans (apply_less_iff.1 hlr) (apply_less_iff.1 hrs))

end Comparison

end Formula

end TableDoc
