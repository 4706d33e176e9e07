import TableDoc.Document
import TableDoc.Proofs.Diagnostic
import TableDoc.Proofs.Interpolation.Substitution
import TableDoc.Proofs.Sequence

/-!
# Places of references without a value

Interpolation fails at the first reference of a line that has no value, and the place that it gives
is that of the reference: what stands between its start and its stop is the reference with its
braces (`refersTo_of_interpolate`, `FirstFailure.exists_line_eq`).
-/

namespace TableDoc

open Markdown (Fence)
open Segment (Scan)

/-- The diagnostic of a reference that has no value among the tables, the first such reference of
its line. The place is that of the reference. -/
inductive Diagnostic.RefersTo (lines : List (List Char)) (tables : List TableResult) :
    Diagnostic → Prop
  | mk {n : Nat} {line source : List Char} {segs before : List Segment} {target : Reference}
      {fault : Reference.Fault} :
    lines[n]? = some line → Scan line segs → FirstFailure tables segs before source target fault →
    RefersTo lines tables (fault.toDiagnostic target
      (.within n (before.flatMap Segment.source).length
        ((before.flatMap Segment.source).length + source.length)))

variable {tables : List TableResult} {fence : Fence} {n : Nat} {line source : List Char}
  {lines rest : List (List Char)} {segs before : List Segment} {target : Reference}
  {fault : Reference.Fault}

/-- The reference stands in the line after the text of the segments before it. -/
theorem FirstFailure.exists_line_eq (h : FirstFailure tables segs before source target fault)
    (hline : Scan line segs) :
    ∃ after, line = before.flatMap Segment.source ++ source ++ after := by
  obtain ⟨after, hsegs⟩ := h.eq
  refine ⟨after.flatMap Segment.source, ?_⟩
  rw [← hline.flatMap_source, hsegs, List.flatMap_append, List.flatMap_cons, List.append_assoc]
  rfl

theorem FirstFailure.mem (h : FirstFailure tables segs before source target fault) :
    .reference source target ∈ segs := by
  obtain ⟨after, hsegs⟩ := h.eq
  exact hsegs ▸ List.mem_append_right _ List.mem_cons_self

/-- A line only fails at one of its references. -/
theorem refersTo_of_interpolateLine (hline : lines[n]? = some line) :
    FailsAs (Diagnostic.RefersTo lines tables) (interpolateLine tables fence n line) := by
  rw [interpolateLine]
  split
  · exact .ok line
  · rcases fills_or_fails tables (segments line) with
      ⟨out, hout⟩ | ⟨before, source, target, fault, hfirst⟩
    · rw [interpolateSegments_of_fills hout]
      exact .ok out
    · rw [interpolateSegments_of_fails hfirst]
      dsimp only
      rw [Nat.zero_add]
      exact .error (.mk hline (scan_segments line) hfirst)

/-- Lines only fail at one of their references. -/
theorem refersTo_of_interpolateLines (h : rest = lines.drop n) :
    FailsAs (Diagnostic.RefersTo lines tables) (interpolateLines tables fence n rest) := by
  induction rest generalizing fence n with
  | nil => exact .ok []
  | cons line rest ih =>
    obtain ⟨hline, hlater⟩ := drop_succ_of_cons h
    rw [interpolateLines_cons]
    exact (refersTo_of_interpolateLine hline).bind fun first _ => (ih hlater).map

/-- The body after a front section fails at a reference of one of its lines. -/
theorem refersTo_of_interpolate (d : Document) (stop : Nat) :
    FailsAs (Diagnostic.RefersTo d.lines tables) (interpolate tables stop (d.bodyLines stop)) := by
  have hfirst : interpolateLine tables none stop [] = .ok [] := by
    rw [interpolateLine]
    split
    · rfl
    · rw [segments]
      rfl
  rw [interpolate, Document.bodyLines, interpolateLines_cons, hfirst]
  exact (refersTo_of_interpolateLines rfl).map.map

end TableDoc
