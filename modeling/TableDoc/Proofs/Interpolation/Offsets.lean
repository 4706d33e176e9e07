import TableDoc.Proofs.Interpolation.Runs
import TableDoc.Proofs.Interpolation.Substitution

/-!
# Interpolation by offsets

A line can be gone through by offsets in bytes: each turn of the scan starts at an offset, slices
the line and gives the offset at which the next turn starts (`turn`). A turn finds the next segment
of the line and ends after it (`slices_turn`), so all turns together put the same values in the line
as its segments do (`slices_interpolateFrom`). No slice cuts a character, and every turn advances
(`interpolateFrom_aligned`).
-/

namespace TableDoc

open Text (Slicing Slices slice slice? bytes byteLength IsBoundary)

namespace Segment

/-! ## The scan -/

/-- What a turn of the scan finds. -/
inductive Piece where
  /-- Text that stays as it is. -/
  | text (text : List Char)
  /-- A reference, from one character of the line up to another. -/
  | reference (target : Reference) (start stop : Nat)

/-- What a turn of the scan finds, and the offset after it. -/
structure Turn where
  piece : Piece
  stop : Nat

/-- The reference that starts at the offset `pos`, where the line goes on with `rest`, and the
offset after it. -/
def braces (line rest : List Char) (pos : Nat) : Slicing (Option (Reference × Nat)) :=
  if ['\x7b', '\x7b'].isPrefixOf rest then do
    let inside ← slice line (pos + 2) (byteLength line)
    match (beforeClose? inside).map byteLength with
    | some close =>
      let inner ← slice line (pos + 2) (pos + 2 + close)
      return (Reference.ofText? inner).map fun target => (target, pos + 2 + close + 2)
    | none => return none
  else return none

/-- A turn of the scan, from the offset `pos` on. -/
def turn (line : List Char) (pos : Nat) : Slicing Turn := do
  let rest ← slice line pos (byteLength line)
  if rest.head? = some '\x60' then
    let run := tickCount (bytes rest)
    tell [pos + run]
    let close ← closingRun (bytes line) run (pos + run)
    let stop := close.elim (pos + run) (· + run)
    let span ← slice line pos stop
    return ⟨.text span, stop⟩
  else
    match ← braces line rest pos with
    | some (target, stop) =>
      let before ← slice line 0 pos
      let whole ← slice line 0 stop
      return ⟨.reference target before.length whole.length, stop⟩
    | none =>
      let stop := pos + rest.head?.elim 1 Char.utf8Size
      let text ← slice line pos stop
      return ⟨.text text, stop⟩

end Segment

open Segment

/-- Line `n` from the offset `pos` on, with the values in it. There is no result if a slice fails or
the turns are more than `limit`. -/
def interpolateFrom (tables : List TableResult) (n : Nat) (line : List Char) :
    (limit pos : Nat) → Slicing (Except Diagnostic (List Char))
  | 0, _ => WriterT.mk none
  | limit + 1, pos =>
    if pos < byteLength line then do
      let found ← turn line pos
      match found.piece with
      | .text text => return (text ++ ·) <$> (← interpolateFrom tables n line limit found.stop)
      | .reference target start stop =>
        match target.resolve tables with
        | .error fault => return .error (fault.toDiagnostic target (.within n start stop))
        | .ok value =>
          return (value.toText.toList ++ ·) <$> (← interpolateFrom tables n line limit found.stop)
    else return .ok []

namespace Segment

variable {n : Nat} {rest : List Char} {seg : Segment} {segs : List Segment}

/-! ## A turn -/

/-- A segment as a turn finds it that starts at this character. -/
def toPiece (start : Nat) : Segment → Piece
  | literal text => .text text
  | reference source target => .reference target start (start + source.length)

theorem byteLength_take_braces (before inner later : List Char) :
    byteLength
      (before ++ ('\x7b' :: '\x7b' :: (inner ++ '\x7d' :: '\x7d' :: later)).take
        (inner.length + 4)) =
      byteLength before + 2 + byteLength inner + 2 := by
  have htake : ('\x7b' :: '\x7b' :: (inner ++ '\x7d' :: '\x7d' :: later)).take (inner.length + 4) =
      ['\x7b', '\x7b'] ++ inner ++ ['\x7d', '\x7d'] := by
    simp [List.take_append]
  rw [htake, ← List.append_assoc, ← List.append_assoc, Text.byteLength_append,
    Text.byteLength_append, Text.byteLength_append]
  rfl

/-- What is found at two opening braces is the reference that the text starts with. -/
theorem slices_braces (before rest : List Char) :
    Slices (before ++ rest) (braces (before ++ rest) rest (byteLength before))
      ((referenceAt? rest).map fun found =>
        (found.1, byteLength (before ++ rest.take found.2))) := by
  rw [referenceAt?.eq_def]
  split
  · next cs =>
    have hopen : byteLength (before ++ ['\x7b', '\x7b']) = byteLength before + 2 := by
      rw [Text.byteLength_append]
      rfl
    have hprefix : ['\x7b', '\x7b'].isPrefixOf ('\x7b' :: '\x7b' :: cs) = true := by simp
    rw [braces, if_pos hprefix]
    refine (Text.slices_slice (before ++ ['\x7b', '\x7b']) cs [] (by simp) hopen (by simp)).bind ?_
    cases hinner : beforeClose? cs with
    | none => exact .pure none
    | some inner =>
      obtain ⟨⟨later, rfl⟩, -⟩ := beforeClose?_eq_some hinner
      have hslice : Slices (before ++ '\x7b' :: '\x7b' :: (inner ++ '\x7d' :: '\x7d' :: later))
          (slice (before ++ '\x7b' :: '\x7b' :: (inner ++ '\x7d' :: '\x7d' :: later))
            (byteLength before + 2) (byteLength before + 2 + byteLength inner)) inner := by
        refine Text.slices_slice (before ++ ['\x7b', '\x7b']) inner ('\x7d' :: '\x7d' :: later)
          (by simp) hopen ?_
        rw [Text.byteLength_append, hopen]
      refine hslice.bind ?_
      cases htarget : Reference.ofText? inner with
      | none =>
        simp only [Option.bind_eq_bind, Option.bind_some, Option.bind_none, Option.map_none,
          htarget]
        exact .pure none
      | some target =>
        simp only [Option.bind_eq_bind, Option.bind_some, Option.pure_def, Option.map_some, htarget,
          byteLength_take_braces]
        exact .pure _
  · next hopen =>
    have hprefix : ¬['\x7b', '\x7b'].isPrefixOf rest = true := by
      intro h
      obtain ⟨cs, rfl⟩ := List.isPrefixOf_iff_prefix.1 h
      exact hopen cs rfl
    rw [braces, if_neg hprefix]
    exact .pure none

theorem atEdge_backticks (hrest : rest.head? ≠ some '\x60') (before : List Char) :
    AtEdge (bytes (before ++ backticks n ++ rest)) (byteLength (before ++ backticks n)) := by
  intro _ _ _ htick
  have hstart := Text.getElem?_bytes_append (before ++ backticks n) rest 0
  rw [Nat.add_zero, htick] at hstart
  obtain ⟨later, rfl⟩ := exists_cons_of_bytes hstart.symm
  exact hrest rfl

/-- At a run of backticks a turn ends where the run does that the search finds, or this one. -/
theorem slices_turn_backticks (hn : 0 < n) (hrest : rest.head? ≠ some '\x60')
    {before span after : List Char} {found : Option Nat}
    (hfound : Slices (before ++ backticks n ++ rest)
      (closingRun (bytes (before ++ backticks n ++ rest)) n
        (byteLength (before ++ backticks n))) found)
    (hspan : backticks n ++ rest = span ++ after)
    (hstop : found.elim (byteLength (before ++ backticks n)) (· + n) =
      byteLength (before ++ span)) :
    Slices (before ++ (backticks n ++ rest))
      (turn (before ++ (backticks n ++ rest)) (byteLength before))
      ⟨.text span, byteLength (before ++ span)⟩ := by
  have hhead : (backticks n ++ rest).head? = some '\x60' := by
    rw [backticks, List.head?_append, List.head?_replicate, if_neg (by omega)]
    rfl
  have hrun : byteLength before + n = byteLength (before ++ backticks n) := by
    rw [Text.byteLength_append, byteLength_backticks]
  rw [List.append_assoc] at hfound
  refine (Text.slices_rest before (backticks n ++ rest)).bind ?_
  rw [if_pos hhead]
  dsimp only
  rw [tickCount_backticks hrest, hrun]
  refine (Text.slices_tell ?_).bind (hfound.bind ?_)
  · rw [List.forall_mem_singleton, ← List.append_assoc]
    exact Text.isBoundary_append _ _
  · rw [hstop]
    refine (Text.slices_slice before span after ?_ rfl rfl).bind (.pure _)
    rw [hspan, List.append_assoc]

/-- A turn finds the next segment of the line and ends after it. -/
theorem slices_turn (h : Scan rest (seg :: segs)) (before : List Char) :
    Slices (before ++ rest) (turn (before ++ rest) (byteLength before))
      ⟨seg.toPiece before.length, byteLength (before ++ seg.source)⟩ := by
  cases h with
  | @code _ n rest inner after hn hrest hcloses =>
    obtain ⟨found, hfound, hfirst⟩ := exists_closingRun _ n (atEdge_backticks hrest before)
    have hspan : backticks n ++ rest = backticks n ++ inner ++ backticks n ++ after := by
      rw [hcloses.eq]
      simp only [List.append_assoc]
    refine slices_turn_backticks hn hrest hfound hspan ?_
    rw [hfirst.eq_some hn hrest hcloses]
    simp only [Option.elim_some, ← List.append_assoc]
    rw [Text.byteLength_append _ (backticks n), byteLength_backticks]
  | @unclosed n rest _ hn hrest hnone =>
    obtain ⟨found, hfound, hfirst⟩ := exists_closingRun _ n (atEdge_backticks hrest before)
    refine slices_turn_backticks hn hrest hfound rfl ?_
    rw [hfirst.eq_none hnone]
    rfl
  | @reference target rest _ source hsource =>
    have hhead : (source ++ rest).head? ≠ some '\x60' := by
      obtain ⟨-, -⟩ := hsource
      nofun
    have hbraces := slices_braces before (source ++ rest)
    rw [referenceAt?_of_isReference hsource, Option.map_some, List.take_left] at hbraces
    refine (Text.slices_rest before (source ++ rest)).bind ?_
    rw [if_neg hhead]
    refine hbraces.bind ?_
    refine (Text.slices_slice [] before (source ++ rest) rfl rfl rfl).bind ?_
    refine (Text.slices_slice [] (before ++ source) rest (by simp) rfl rfl).bind ?_
    rw [List.length_append]
    exact .pure _
  | @other c rest _ hc hnone =>
    have hhead : (c :: rest).head? ≠ some '\x60' := fun h => hc (Option.some.inj h)
    have hbraces := slices_braces before (c :: rest)
    rw [referenceAt?_eq_none hnone, Option.map_none] at hbraces
    have hwidth :
        byteLength (before ++ [c]) = byteLength before + (c :: rest).head?.elim 1 Char.utf8Size :=
      Text.byteLength_append before [c]
    refine (Text.slices_rest before (c :: rest)).bind ?_
    rw [if_neg hhead]
    refine hbraces.bind ?_
    refine (Text.slices_slice before [c] rest (by simp) rfl hwidth).bind ?_
    rw [← hwidth]
    exact .pure _

/-- A segment is not empty, and the text after it is cut further. -/
theorem Scan.uncons (h : Scan rest (seg :: segs)) :
    seg.source ≠ [] ∧ ∃ later, rest = seg.source ++ later ∧ Scan later segs := by
  cases h with
  | @code _ n rest inner after hn _ hcloses hscan =>
    refine ⟨?_, after, ?_, hscan⟩
    · exact fun h => backticks_ne_nil hn (List.append_eq_nil_iff.1 h).2
    · rw [hcloses.eq]
      simp only [Segment.source, List.append_assoc]
  | unclosed hn _ _ hscan => exact ⟨backticks_ne_nil hn, _, rfl, hscan⟩
  | reference hsource hscan =>
    obtain ⟨-, -⟩ := hsource
    exact ⟨List.cons_ne_nil _ _, _, rfl, hscan⟩
  | other _ _ hscan => exact ⟨List.cons_ne_nil _ _, _, rfl, hscan⟩

end Segment

/-! ## All turns -/

variable {tables : List TableResult} {n limit : Nat} {rest : List Char} {segs : List Segment}

/-- From a boundary on, the turns put the values in the segments that are left. -/
theorem slices_interpolateFrom (h : Scan rest segs) (before : List Char)
    (hlimit : byteLength rest < limit) :
    Slices (before ++ rest) (interpolateFrom tables n (before ++ rest) limit (byteLength before))
      (interpolateSegments tables n before.length segs) := by
  induction segs generalizing rest before limit with
  | nil =>
    obtain ⟨limit, rfl⟩ := Nat.exists_eq_add_one.2 (Nat.zero_lt_of_lt hlimit)
    cases h
    rw [List.append_nil, interpolateFrom, if_neg (Nat.lt_irrefl _)]
    exact .pure _
  | cons seg segs ih =>
    obtain ⟨limit, rfl⟩ := Nat.exists_eq_add_one.2 (Nat.zero_lt_of_lt hlimit)
    obtain ⟨hne, later, rfl, hlater⟩ := h.uncons
    -- The segment has a byte at least, so the turns that are left suffice for what follows it.
    have hsource := Text.byteLength_pos hne
    rw [Text.byteLength_append] at hlimit
    have hrest : Slices _ (interpolateFrom tables n _ limit _) _ :=
      ih hlater (before ++ seg.source) (by omega)
    rw [List.append_assoc, List.length_append] at hrest
    rw [interpolateFrom, if_pos (by simp only [Text.byteLength_append]; omega)]
    refine (slices_turn h before).bind ?_
    cases seg with
    | literal text =>
      refine hrest.bind ?_
      rw [interpolateSegments, bind_pure_comp]
      exact .pure _
    | reference source target =>
      rw [interpolateSegments]
      dsimp only [toPiece]
      cases target.resolve tables with
      | error fault => exact .pure _
      | ok value =>
        refine hrest.bind ?_
        change Slices _ _ (interpolateSegments tables n _ segs >>=
          fun after => pure (value.toText.toList ++ after))
        rw [bind_pure_comp]
        exact .pure _

/-- What holds of a line that is gone through by offsets. -/
structure Aligned (tables : List TableResult) (line : List Char) : Prop where
  /-- A line is sliced between characters and not beyond its end, or the slice fails. -/
  slice : ∀ start stop, (slice? line start stop).isSome ↔
    start ≤ stop ∧ IsBoundary line start ∧ IsBoundary line stop
  le : ∀ offset, IsBoundary line offset → offset ≤ byteLength line
  start : IsBoundary line 0
  /-- A turn that starts at a boundary slices the line only at boundaries, and ends at a later one.
  -/
  turn : ∀ pos, IsBoundary line pos → pos < byteLength line →
    ∃ found, Slices line (turn line pos) found ∧ pos < found.stop ∧ IsBoundary line found.stop
  /-- Not more turns are needed than the line has bytes, and they give what the segments of the line
  give. -/
  whole : ∀ n limit, byteLength line < limit →
    Slices line (interpolateFrom tables n line limit 0)
      (interpolateSegments tables n 0 (segments line))
  /-- After a run of backticks the search finds the first run of the length that it looks for. -/
  closing : ∀ n start stop, IsRun (bytes line) start stop →
    ∃ found, Slices line (closingRun (bytes line) n stop) found ∧ FirstRun (bytes line) n stop found

/-- Interpolation by offsets never cuts a character, and every turn advances. -/
theorem interpolateFrom_aligned (tables : List TableResult) (line : List Char) :
    Aligned tables line where
  slice _ _ := Text.isSome_slice?_iff
  le _ h := h.le
  start := Text.isBoundary_append [] line
  turn pos hpos hlt := by
    obtain ⟨before, rest, rfl, rfl⟩ := Text.isBoundary_iff.1 hpos
    rw [Text.byteLength_append] at hlt
    have hscan := scan_segments rest
    cases hsegs : segments rest with
    | nil =>
      rw [hsegs] at hscan
      cases hscan
      exact absurd hlt (Nat.lt_irrefl _)
    | cons seg segs =>
      rw [hsegs] at hscan
      obtain ⟨hne, later, hrest, -⟩ := hscan.uncons
      refine ⟨_, slices_turn hscan before, ?_, ?_⟩
      · rw [Text.byteLength_append]
        exact Nat.lt_add_of_pos_right (Text.byteLength_pos hne)
      · rw [hrest, ← List.append_assoc]
        exact Text.isBoundary_append _ _
  whole n limit hlimit := slices_interpolateFrom (scan_segments line) [] hlimit
  closing n _ _ hrun := exists_closingRun line n hrun.atEdge

end TableDoc
