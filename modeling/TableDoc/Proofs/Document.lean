import Mathlib.Data.List.Basic
import TableDoc.Document

/-!
# The front section of a document

A front section closes at the first line after the opening one that is the delimiter
(`frontEnd?_eq_some_iff`).
-/

namespace TableDoc.Document

variable {d : Document} {stop : Nat}

/-- The front section goes from the first line, a delimiter, to the next delimiter. -/
theorem frontEnd?_eq_some_iff :
    d.frontEnd? = some stop ↔
      d.lines[0]? = some delimiter ∧ 0 < stop ∧ d.lines[stop]? = some delimiter ∧
        ∀ i, 0 < i → i < stop → d.lines[i]? ≠ some delimiter := by
  rw [frontEnd?]
  rcases d.lines with _ | ⟨first, rest⟩
  · simp
  dsimp only
  rw [List.getElem?_cons_zero, Option.some_inj]
  by_cases hfirst : first = delimiter
  · rw [if_pos hfirst, Option.map_eq_some_iff, and_iff_right hfirst]
    simp only [List.idxOf?_eq_some_iff]
    constructor
    · rintro ⟨i, ⟨hi, hline, hbefore⟩, rfl⟩
      refine ⟨i.succ_pos, List.getElem?_eq_some_iff.2 ⟨Nat.succ_lt_succ hi, hline⟩,
        fun j hj hlt heq => ?_⟩
      cases j with
      | zero => cases hj
      | succ j =>
        obtain ⟨_, heq⟩ := List.getElem?_eq_some_iff.1 heq
        exact hbefore j (Nat.lt_of_succ_lt_succ hlt) heq
    · rintro ⟨hpos, hline, hbefore⟩
      cases stop with
      | zero => cases hpos
      | succ i =>
        obtain ⟨hi, hline⟩ := List.getElem?_eq_some_iff.1 hline
        refine ⟨i, ⟨Nat.lt_of_succ_lt_succ hi, hline, fun j hj heq => ?_⟩, rfl⟩
        have hlt : j + 1 < (first :: rest).length := Nat.lt_trans (Nat.succ_lt_succ hj) hi
        exact hbefore (j + 1) j.succ_pos (Nat.succ_lt_succ hj)
          (List.getElem?_eq_some_iff.2 ⟨hlt, heq⟩)
  · rw [if_neg hfirst]
    exact iff_of_false nofun fun h => hfirst h.1

end TableDoc.Document
