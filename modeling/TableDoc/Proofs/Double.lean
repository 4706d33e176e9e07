import Mathlib.Data.Int.Cast.Basic
import Mathlib.Data.Prod.Lex
import Mathlib.Order.Compare
import Mathlib.Algebra.Order.Ring.Int
import Mathlib.Data.Nat.Cast.Order.Basic

/-!
# The order of doubles

Doubles that are numbers are compared by where they stand among the numbers (`rank`,
`compare_rankOf`). So their order is reversed if they are exchanged, and it is transitive
(`order?_swap`, `order?_trans`). What is no number has no order with any double
(`order?_eq_none_iff`).
-/

namespace TableDoc.Double

open Float.Model (UnpackedFloat)

/-- Where a number stands among the numbers: negative ones by exponent and mantissa, zeros, positive
ones. -/
def rankOf : UnpackedFloat → ℤ ×ₗ ℤ ×ₗ ℤ
  | .infinity .negative => toLex (-2, toLex (0, 0))
  | .finite .negative mantissa exponent _ => toLex (-1, toLex (-exponent, -mantissa))
  | .zero _ | .notANumber => toLex (0, toLex (0, 0))
  | .finite .positive mantissa exponent _ => toLex (1, toLex (exponent, mantissa))
  | .infinity .positive => toLex (2, toLex (0, 0))

/-- Where a double stands among the doubles that are numbers. -/
def rank (x : Float) : ℤ ×ₗ ℤ ×ₗ ℤ := rankOf x.toModel.unpack

/-- The order of two doubles, if both are numbers. -/
def order? (x y : Float) : Option Ordering := x.toModel.unpack.compare y.toModel.unpack

theorem compare_toLex (k a b c d : ℤ) :
    compare (toLex (k, toLex (a, b))) (toLex (k, toLex (c, d))) =
      (compare a c).then (compare b d) := by
  simp only [Prod.Lex.compare_def, compareLex, compareOn, ofLex_toLex, Std.compare_self,
    Ordering.eq_then]

theorem compare_natCast (m n : ℕ) : compare (m : ℤ) n = compare m n := by
  rw [← cmp_eq_compare, ← cmp_eq_compare]
  exact (Nat.strictMono_cast (α := ℤ)).cmp_map_eq m n

theorem compare_neg (a b : ℤ) : compare (-a) (-b) = (compare a b).swap := by
  have hanti : StrictAnti fun a : ℤ => -a := fun _ _ h => Int.neg_lt_neg h
  rw [← cmp_eq_compare, ← cmp_eq_compare, cmp_swap]
  exact hanti.cmp_map_eq a b

/-- Doubles that are numbers are ordered by their ranks. -/
theorem compare_rankOf {x y : UnpackedFloat} (hx : x ≠ .notANumber) (hy : y ≠ .notANumber) :
    x.compare y = some (compare (rankOf x) (rankOf y)) := by
  cases x with
  | notANumber => exact absurd rfl hx
  | infinity s =>
    cases y with
    | notANumber => exact absurd rfl hy
    | infinity t => cases s <;> cases t <;> rfl
    | zero t => cases s <;> rfl
    | finite t m e h => cases s <;> cases t <;> rfl
  | zero s =>
    cases y with
    | notANumber => exact absurd rfl hy
    | infinity t => cases t <;> rfl
    | zero t => rfl
    | finite t m e h => cases t <;> rfl
  | finite s m e h =>
    cases y with
    | notANumber => exact absurd rfl hy
    | infinity t => cases s <;> cases t <;> rfl
    | zero t => cases s <;> rfl
    | finite t m' e' h' =>
      cases s <;> cases t
      case negative.negative =>
        refine Eq.trans ?_ (congrArg some (compare_toLex (-1) (-e) (-m) (-e') (-m')).symm)
        rw [compare_neg, compare_neg, compare_natCast, ← Ordering.swap_then]
        rfl
      case positive.positive =>
        refine Eq.trans ?_ (congrArg some (compare_toLex 1 e m e' m').symm)
        rw [compare_natCast]
        rfl
      all_goals rfl

variable {x y : Float}

/-- A double is no number just if it is unpacked as none. -/
theorem isNaN_iff : x.isNaN ↔ x.toModel.unpack = .notANumber := by
  change x.toModel.unpack.isNaN = true ↔ _
  cases x.toModel.unpack with
  | notANumber => exact iff_of_true rfl rfl
  | infinity _ | zero _ | finite _ _ _ _ => exact iff_of_false nofun nofun

theorem order?_of_isNaN (h : x.isNaN ∨ y.isNaN) : order? x y = none := by
  rw [order?]
  rcases h with h | h
  · rw [isNaN_iff.1 h]
    rfl
  · rw [isNaN_iff.1 h]
    cases x.toModel.unpack <;> rfl

theorem order?_of_not_isNaN (hx : ¬ x.isNaN) (hy : ¬ y.isNaN) :
    order? x y = some (compare (rank x) (rank y)) :=
  compare_rankOf (mt isNaN_iff.2 hx) (mt isNaN_iff.2 hy)

/-- Less in the order is less as doubles. -/
theorem lt_iff : x < y ↔ order? x y = some .lt := by
  change Float.lt x y = true ↔ _
  rw [Float.lt, decide_eq_true_iff]
  exact beq_iff_eq

theorem beq_iff : (x == y) = true ↔ order? x y = some .eq := by
  change (order? x y == some .eq) = true ↔ _
  exact beq_iff_eq

/-- The order of two doubles, the other way around. -/
theorem order?_swap (x y : Float) : order? y x = (order? x y).map Ordering.swap := by
  by_cases h : x.isNaN ∨ y.isNaN
  · rw [order?_of_isNaN h, order?_of_isNaN h.symm]
    rfl
  · obtain ⟨hx, hy⟩ := not_or.1 h
    rw [order?_of_not_isNaN hx hy, order?_of_not_isNaN hy hx]
    exact congrArg some Std.OrientedCmp.eq_swap

/-- Only what is no number cannot be ordered. -/
theorem order?_eq_none_iff : order? x y = none ↔ x.isNaN ∨ y.isNaN := by
  refine ⟨fun h => ?_, order?_of_isNaN⟩
  by_contra hnot
  obtain ⟨hx, hy⟩ := not_or.1 hnot
  rw [order?_of_not_isNaN hx hy] at h
  cases h

/-- A double is less than another if both are numbers and its rank is less. -/
theorem order?_eq_lt_iff : order? x y = some .lt ↔ ¬ x.isNaN ∧ ¬ y.isNaN ∧ rank x < rank y := by
  constructor
  · intro h
    by_cases hnan : x.isNaN ∨ y.isNaN
    · rw [order?_of_isNaN hnan] at h
      cases h
    · obtain ⟨hx, hy⟩ := not_or.1 hnan
      rw [order?_of_not_isNaN hx hy] at h
      exact ⟨hx, hy, compare_lt_iff_lt.1 (Option.some.inj h)⟩
  · rintro ⟨hx, hy, h⟩
    rw [order?_of_not_isNaN hx hy, compare_lt_iff_lt.2 h]

/-- The order of doubles is transitive. -/
theorem order?_trans {z : Float} (hxy : order? x y = some .lt) (hyz : order? y z = some .lt) :
    order? x z = some .lt := by
  obtain ⟨hx, -, hxy⟩ := order?_eq_lt_iff.1 hxy
  obtain ⟨-, hz, hyz⟩ := order?_eq_lt_iff.1 hyz
  exact order?_eq_lt_iff.2 ⟨hx, hz, hxy.trans hyz⟩

end TableDoc.Double
