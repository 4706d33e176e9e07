import Mathlib
import TableDoc.Proofs.Document
import TableDoc.Proofs.Interpolation.Substitution
import TableDoc.Proofs.Markdown.Spans

/-!
# Fenced code in the search for tables and in the text

The search for tables and the interpolation of the body go through the lines with a fence of their
own, and the search passes over separators and rows without it. These are pipe rows, which neither
open a fence nor stand in one, so that both see the same lines as code (`tablesFrom_clearFrom`,
`unmarked_of_tablesFrom`).
-/

namespace TableDoc

namespace Markdown

/-- The numbers of the lines that belong to a fence, the first line being line `n`. -/
def fencedLines (fence : Fence) (n : Nat) : List (List Char) → List Nat
  | [] => []
  | line :: lines =>
    let later := fencedLines (fence.feed line).2 (n + 1) lines
    if (fence.feed line).1 then n :: later else later

/-- From line `n` on, just the lines that belong to a fence are marked. -/
def Marks (marked : List Nat) (fence : Fence) (n : Nat) (lines : List (List Char)) : Prop :=
  ∀ i, n ≤ i → (i ∈ marked ↔ i ∈ fencedLines fence n lines)

/-- The lines, the first being line `n`, with nothing in those that are marked. -/
def clearFrom (marked : List Nat) (n : Nat) (lines : List (List Char)) : List (List Char) :=
  (lines.zipIdx n).map fun (line, i) => if i ∈ marked then [] else line

end Markdown

/-- The document with nothing in the lines that are marked. -/
def Document.clear (d : Document) (marked : List Nat) : Document :=
  ⟨Markdown.clearFrom marked 0 d.lines⟩

namespace Markdown

/-- A table of which no line is marked. -/
structure Table.Unmarked (marked : List Nat) (table : Table) : Prop where
  heading : ∀ span ∈ table.heading, span.start.line ∉ marked
  header : table.headerLine ∉ marked
  separator : table.headerLine + 1 ∉ marked
  rows : ∀ row ∈ table.rows, row.line ∉ marked

variable {marked : List Nat} {fence : Fence} {n i : Nat} {line : List Char}
  {lines rest : List (List Char)}

theorem le_of_mem_fencedLines (h : i ∈ fencedLines fence n lines) : n ≤ i := by
  induction lines generalizing fence n with
  | nil => cases h
  | cons line lines ih =>
    rw [fencedLines] at h
    split at h
    · rcases List.mem_cons.1 h with rfl | h
      · exact Nat.le_refl i
      · exact Nat.le_of_succ_le (ih h)
    · exact Nat.le_of_succ_le (ih h)

/-- The first line is marked just if it is fenced. -/
theorem Marks.head_iff (h : Marks marked fence n (line :: lines)) :
    n ∈ marked ↔ (fence.feed line).1 := by
  rw [h n (Nat.le_refl n), fencedLines]
  split
  · next hfenced => exact iff_of_true List.mem_cons_self hfenced
  · next hfenced =>
      exact iff_of_false (fun hmem => absurd (le_of_mem_fencedLines hmem) (Nat.lt_irrefl n)) hfenced

/-- The marks of the other lines are those that the fence goes on to give. -/
theorem Marks.tail (h : Marks marked fence n (line :: lines)) :
    Marks marked (fence.feed line).2 (n + 1) lines := by
  intro i hi
  rw [h i (Nat.le_of_succ_le hi), fencedLines]
  split
  · exact ⟨fun hmem => (List.mem_cons.1 hmem).resolve_left (Nat.ne_of_gt hi),
      List.mem_cons_of_mem n⟩
  · rfl

theorem Marks.of_feed {fenced : Bool} {after : Fence} (h : Marks marked fence n (line :: lines))
    (hfeed : fence.feed line = (fenced, after)) :
    (n ∈ marked ↔ fenced) ∧ Marks marked after (n + 1) lines := by
  have hhead := h.head_iff
  have htail := h.tail
  rw [hfeed] at hhead htail
  exact ⟨hhead, htail⟩

/-- What belongs to a fence is copied; all other lines get their values. -/
theorem interpolateLines_eq_mapM (tables : List TableResult) (h : Marks marked fence n lines) :
    interpolateLines tables fence n lines = (lines.zipIdx n).mapM fun (line, i) =>
      if i ∈ marked then .ok line else interpolateSegments tables i 0 (segments line) := by
  induction lines generalizing fence n with
  | nil => rfl
  | cons line lines ih =>
    rw [interpolateLines_cons, interpolateLine, List.zipIdx_cons, List.mapM_cons, ih h.tail]
    simp only [h.head_iff, map_eq_pure_bind]

/-! ## Lines that are cleared -/

@[simp] theorem clearFrom_cons (marked : List Nat) (n : Nat) (line : List Char)
    (lines : List (List Char)) :
    clearFrom marked n (line :: lines) =
      (if n ∈ marked then [] else line) :: clearFrom marked (n + 1) lines := rfl

@[simp] theorem getElem?_clearFrom (marked : List Nat) (n i : Nat) (lines : List (List Char)) :
    (clearFrom marked n lines)[i]? = lines[i]?.map fun line =>
      if n + i ∈ marked then [] else line := by
  rw [clearFrom, List.getElem?_map, List.getElem?_zipIdx, Option.map_map]
  rfl

theorem drop_clearFrom (marked : List Nat) (n k : Nat) (lines : List (List Char)) :
    (clearFrom marked n lines).drop k = clearFrom marked (n + k) (lines.drop k) := by
  refine List.ext_getElem? fun i => ?_
  simp only [List.getElem?_drop, getElem?_clearFrom, Nat.add_assoc]

/-- Lines after the front section can be cleared without moving its end. -/
theorem frontEnd?_clear {d : Document} {stop : Nat} (hstop : d.frontEnd? = some stop)
    (h : ∀ i ∈ marked, stop < i) :
    (d.clear marked).frontEnd? = some stop := by
  have heq (i : Nat) (hi : i ≤ stop) : (d.clear marked).lines[i]? = d.lines[i]? := by
    have hmem : 0 + i ∉ marked := fun hmem => by have := h _ hmem; omega
    rw [Document.clear, getElem?_clearFrom]
    simp only [if_neg hmem, Option.map_id']
  obtain ⟨hfirst, hpos, hlast, hbefore⟩ := Document.frontEnd?_eq_some_iff.1 hstop
  refine Document.frontEnd?_eq_some_iff.2 ⟨?_, hpos, ?_, fun i hi hlt => ?_⟩
  · rw [heq 0 (Nat.zero_le stop), hfirst]
  · rw [heq stop (Nat.le_refl stop), hlast]
  · rw [heq i (Nat.le_of_lt hlt)]
    exact hbefore i hi hlt

/-! ## Pipe rows and fences -/

theorem feed_none_of_head? (h : (Text.trim line).head? ≠ some '\x60') :
    Fence.feed none line = (false, none) := by
  have hticks : Fence.ticks (Text.trim line) = 0 := by
    rw [Fence.ticks]
    rcases htrim : Text.trim line with _ | ⟨c, cs⟩
    · rfl
    · rw [htrim, List.head?_cons] at h
      rw [List.takeWhile_cons_of_neg (by simpa using h), List.length_nil]
  rw [Fence.feed]
  simp only [hticks]
  rfl

/-- A pipe row does not open a fence. -/
theorem feed_none_of_isPipeRow (h : isPipeRow (Text.trim line)) :
    Fence.feed none line = (false, none) := by
  rw [isPipeRow, Bool.and_eq_true, Bool.and_eq_true, decide_eq_true_iff, decide_eq_true_iff] at h
  obtain ⟨⟨-, hhead⟩, -⟩ := h
  refine feed_none_of_head? ?_
  rw [hhead]
  decide

theorem feed_none_nil : Fence.feed none [] = (false, none) := rfl

theorem Marks.notMem_of_isPipeRow (h : Marks marked none n (line :: lines))
    (hpipe : isPipeRow (Text.trim line)) :
    n ∉ marked :=
  fun hmem => Bool.false_ne_true ((h.of_feed (feed_none_of_isPipeRow hpipe)).1.1 hmem)

theorem Marks.tail_of_isPipeRow (h : Marks marked none n (line :: lines))
    (hpipe : isPipeRow (Text.trim line)) :
    Marks marked none (n + 1) lines :=
  (h.of_feed (feed_none_of_isPipeRow hpipe)).2

theorem pipeRows_cons (line : List Char) (lines : List (List Char)) :
    pipeRows (line :: lines) =
      if isPipeRow (Text.trim line) then line :: pipeRows lines else [] := by
  rw [pipeRows, List.takeWhile_cons]
  rfl

/-- Pipe rows are not marked, and end without a fence. -/
theorem Marks.of_pipeRows (h : Marks marked none n lines) :
    (∀ i, n ≤ i → i < n + (pipeRows lines).length → i ∉ marked) ∧
      Marks marked none (n + (pipeRows lines).length) (lines.drop (pipeRows lines).length) := by
  induction lines generalizing n with
  | nil => exact ⟨fun i hi hlt => absurd hi (Nat.not_le_of_lt hlt), h⟩
  | cons line lines ih =>
    rw [pipeRows_cons]
    split
    · next hpipe =>
      obtain ⟨hrows, hrest⟩ := ih (h.tail_of_isPipeRow hpipe)
      rw [List.length_cons, ← Nat.add_assoc, Nat.add_right_comm]
      refine ⟨fun i hi hlt => ?_, hrest⟩
      rcases Nat.eq_or_lt_of_le hi with rfl | hi
      · exact h.notMem_of_isPipeRow hpipe
      · exact hrows i hi hlt
    · exact ⟨fun i hi hlt => absurd hi (Nat.not_le_of_lt hlt), h⟩

/-- No row of a table is marked, so clearing leaves the rows. -/
theorem pipeRows_clearFrom (h : Marks marked none n lines) :
    pipeRows (clearFrom marked n lines) = pipeRows lines := by
  induction lines generalizing n with
  | nil => rfl
  | cons line lines ih =>
    rw [clearFrom_cons, pipeRows_cons, pipeRows_cons]
    by_cases hpipe : isPipeRow (Text.trim line)
    · rw [if_neg (h.notMem_of_isPipeRow hpipe), if_pos hpipe, if_pos hpipe,
        ih (h.tail_of_isPipeRow hpipe)]
    · rw [if_neg hpipe]
      split
      · rfl
      · rfl

/-- Clearing neither begins nor ends a table. -/
theorem startsTable_clearFrom (line : List Char) (h : Marks marked none n rest) :
    startsTable line (clearFrom marked n rest) = startsTable line rest := by
  rcases rest with _ | ⟨next, rest⟩
  · rfl
  rw [clearFrom_cons, startsTable, startsTable]
  split
  · next hmem =>
    -- a line that opens a fence is no separator, and neither is an empty one
    have hpipe : isPipeRow (Text.trim next) = false := Bool.eq_false_iff.2 fun hpipe =>
      h.notMem_of_isPipeRow hpipe hmem
    rw [isSeparator, isSeparator, hpipe]
    rfl
  · rfl

theorem exists_separator_of_startsTable (h : startsTable line rest) :
    ∃ next below, rest = next :: below ∧ isPipeRow (Text.trim next) := by
  rcases rest with _ | ⟨next, below⟩
  · cases h
  · rw [startsTable, Bool.and_eq_true, isSeparator, Bool.and_eq_true] at h
    exact ⟨next, below, rfl, h.2.1⟩

/-- The header and the separator of a table are not marked, and its rows begin without a fence. -/
theorem Marks.of_startsTable (h : Marks marked none n (line :: rest))
    (hstarts : startsTable line rest) :
    n ∉ marked ∧ n + 1 ∉ marked ∧ Marks marked none (n + 2) rest.tail := by
  have hheader := isPipeRow_of_startsTable hstarts
  obtain ⟨next, below, rfl, hnext⟩ := exists_separator_of_startsTable hstarts
  have htail := h.tail_of_isPipeRow hheader
  exact ⟨h.notMem_of_isPipeRow hheader, htail.notMem_of_isPipeRow hnext,
    htail.tail_of_isPipeRow hnext⟩

/-! ## The search for tables -/

/-- A line that is not fenced is outside of fences, before and after. -/
theorem feed_of_not_fenced {after : Fence} {fenced : Bool} (h : fence.feed line = (fenced, after))
    (hfenced : ¬fenced = true) : fence = none ∧ after = none ∧ fenced = false := by
  rcases fence with _ | opening
  · rw [Fence.feed] at h
    split at h <;> cases h
    · exact absurd rfl hfenced
    · exact ⟨rfl, rfl, rfl⟩
  · cases h
    exact absurd rfl hfenced

theorem tablesFrom_nil (fence : Fence) (heading : Option Heading) (count n : Nat) :
    tablesFrom fence heading count n [] = .ok [] := by
  rw [tablesFrom]

theorem tablesFrom_cons_nil (heading : Option Heading) (count n : Nat) (rest : List (List Char)) :
    tablesFrom none heading count n ([] :: rest) = tablesFrom none heading count (n + 1) rest := by
  have hheading : headingText? (Text.trim []) = none := rfl
  have hstarts : startsTable [] rest = false := by cases rest <;> rfl
  rw [tablesFrom.eq_def]
  simp only [feed_none_nil, hheading, hstarts, Bool.false_eq_true, if_false]

/-- Where lines of a fence are cleared, the search for tables finds the same without an open fence.
-/
theorem tablesFrom_clearFrom {heading : Option Heading} {count : Nat}
    (h : Marks marked fence n lines) :
    tablesFrom none heading count n (clearFrom marked n lines) =
      tablesFrom fence heading count n lines := by
  fun_induction tablesFrom fence heading count n lines with
  | case1 => exact tablesFrom_nil ..
  | case2 fence heading count n line rest after hfeed ih =>
    obtain ⟨hhead, htail⟩ := h.of_feed hfeed
    rw [clearFrom_cons, if_pos (hhead.2 rfl), tablesFrom_cons_nil, ih htail]
  | case3 fence heading count n line rest fenced after hfeed hfenced name hname ih =>
    obtain ⟨rfl, rfl, rfl⟩ := feed_of_not_fenced hfeed hfenced
    obtain ⟨hhead, htail⟩ := h.of_feed hfeed
    rw [clearFrom_cons, if_neg (mt hhead.1 hfenced), tablesFrom.eq_def]
    simp only [hfeed, hname, Bool.false_eq_true, if_false]
    exact ih htail
  | case4 fence heading count n line rest fenced after hfeed hfenced hname hstarts name headers
      texts ih =>
    obtain ⟨rfl, rfl, rfl⟩ := feed_of_not_fenced hfeed hfenced
    obtain ⟨hheader, -, hbelow⟩ := h.of_startsTable hstarts
    obtain ⟨-, htail⟩ := h.of_feed hfeed
    have hclear : (clearFrom marked (n + 1) rest).tail = clearFrom marked (n + 2) rest.tail := by
      rw [← List.drop_one, drop_clearFrom, List.drop_one]
    have htexts : pipeRows (clearFrom marked (n + 2) rest.tail) = texts := pipeRows_clearFrom hbelow
    rw [clearFrom_cons, if_neg hheader, tablesFrom.eq_def]
    simp only [hfeed, hname, Bool.false_eq_true, if_false, startsTable_clearFrom line htail,
      hstarts, if_true, hclear, htexts, drop_clearFrom, ih hbelow.of_pipeRows.2]
    rfl
  | case5 fence heading count n line rest fenced after hfeed hfenced hname hstarts ih =>
    obtain ⟨rfl, rfl, rfl⟩ := feed_of_not_fenced hfeed hfenced
    obtain ⟨hhead, htail⟩ := h.of_feed hfeed
    rw [clearFrom_cons, if_neg (mt hhead.1 hfenced), tablesFrom.eq_def]
    simp only [hfeed, hname, Bool.false_eq_true, if_false, startsTable_clearFrom line htail,
      hstarts]
    exact ih htail

theorem line_of_readRows {name : String} {width : Nat} {texts : List (List Char)}
    {rows : List DataRow} (h : readRows name width n texts = .ok rows) :
    ∀ row ∈ rows, n ≤ row.line ∧ row.line < n + texts.length := by
  intro row hrow
  obtain ⟨i, hi⟩ := List.mem_iff_getElem?.1 hrow
  obtain ⟨text, htext, hread⟩ := readRow_of_readRows h hi
  obtain ⟨rfl, -⟩ := readRow_eq_ok hread
  exact ⟨Nat.le_add_right n i, Nat.add_lt_add_left (List.getElem?_eq_some_iff.1 htext).1 n⟩

/-- The search finds tables outside of fences only. -/
theorem unmarked_of_tablesFrom {heading : Option Heading} {count : Nat} {tables : List Table}
    (h : Marks marked fence n lines) (hheading : ∀ place ∈ heading, place.span.start.line ∉ marked)
    (htables : tablesFrom fence heading count n lines = .ok tables) :
    ∀ table ∈ tables, table.Unmarked marked := by
  fun_induction tablesFrom fence heading count n lines generalizing tables with
  | case1 =>
    cases htables
    exact List.forall_mem_nil _
  | case2 fence heading count n line rest after hfeed ih =>
    exact ih (h.of_feed hfeed).2 hheading htables
  | case3 fence heading count n line rest fenced after hfeed hfenced name hname ih =>
    obtain ⟨hhead, htail⟩ := h.of_feed hfeed
    refine ih htail ?_ htables
    rintro _ ⟨⟩
    exact mt hhead.1 hfenced
  | case4 fence heading count n line rest fenced after hfeed hfenced hname hstarts name headers
      texts =>
    rename_i ih
    obtain ⟨rfl, rfl, rfl⟩ := feed_of_not_fenced hfeed hfenced
    obtain ⟨hheader, hseparator, hbelow⟩ := h.of_startsTable hstarts
    obtain ⟨hrows, hrest⟩ := hbelow.of_pipeRows
    obtain ⟨rows, hread, htables⟩ := bind_eq_ok_iff.1 htables
    obtain ⟨later, hlater, htables⟩ := bind_eq_ok_iff.1 htables
    cases htables
    have hnone : ∀ place ∈ (none : Option Heading), place.span.start.line ∉ marked := by rintro _ ⟨⟩
    refine List.forall_mem_cons.2 ⟨⟨?_, hheader, hseparator, fun row hrow => ?_⟩,
      ih hrest hnone hlater⟩
    · rintro _ hspan
      obtain ⟨place, hplace, rfl⟩ := Option.map_eq_some_iff.1 hspan
      exact hheading place hplace
    · obtain ⟨hle, hlt⟩ := line_of_readRows hread row hrow
      exact hrows row.line hle hlt
  | case5 fence heading count n line rest fenced after hfeed hfenced hname hstarts ih =>
    exact ih (h.of_feed hfeed).2 hheading htables

/-! ## Documents -/

/-- The body starts with what follows the front section on its last line, and that is no code. -/
theorem fencedLines_bodyLines (d : Document) (stop : Nat) :
    fencedLines none stop (d.bodyLines stop) =
      fencedLines none (stop + 1) (d.lines.drop (stop + 1)) := by
  rw [Document.bodyLines, fencedLines, feed_none_nil]
  rfl

/-- Let some lines be those that the interpolation of the body copies as fenced code. They come
after the front section. Without them the search for tables has the same result, and it finds no
table of which a line is one of them. -/
theorem tables_clear_fencedLines (d : Document) (stop : Nat) (hstop : d.frontEnd? = some stop) :
    let fenced := fencedLines none stop (d.bodyLines stop)
    (∀ results, interpolate results stop (d.bodyLines stop) =
      Text.unlines <$> ((d.bodyLines stop).zipIdx stop).mapM fun (line, i) =>
        if i ∈ fenced then .ok line else interpolateSegments results i 0 (segments line)) ∧
    (∀ i ∈ fenced, stop < i) ∧ (d.clear fenced).frontEnd? = some stop ∧
      tables (d.clear fenced) = tables d ∧
    ∀ found, tables d = .ok found → ∀ table ∈ found, table.Unmarked fenced := by
  intro fenced
  have hbody : Marks fenced none stop (d.bodyLines stop) := fun i _ => Iff.rfl
  have hmarks : Marks fenced none (stop + 1) (d.lines.drop (stop + 1)) := hbody.tail
  have hfenced : fenced = fencedLines none (stop + 1) (d.lines.drop (stop + 1)) :=
    fencedLines_bodyLines d stop
  have hafter : ∀ i ∈ fenced, stop < i := fun i hi => le_of_mem_fencedLines (hfenced ▸ hi)
  have hclear := frontEnd?_clear hstop hafter
  refine ⟨fun results => ?_, hafter, hclear, ?_, fun found hfound => ?_⟩
  · rw [interpolate, interpolateLines_eq_mapM results hbody]
    rfl
  · rw [tables, tables, hclear, hstop]
    dsimp only
    rw [Document.clear, drop_clearFrom, Nat.zero_add, tablesFrom_clearFrom hmarks]
  · rw [tables, hstop] at hfound
    have hheading : ∀ place ∈ (none : Option Heading), place.span.start.line ∉ fenced := by
      rintro _ ⟨⟩
    exact unmarked_of_tablesFrom hmarks hheading hfound

/-- A document with a table between two fences, the last of which is not closed. -/
def fencedTables : Document where
  lines :=
    ["---", "---", "```", "| a |", "|---|", "````", "| b |", "|---|", "| 1 |", "```", "| c |",
      "|---|"].map String.toList

theorem fencedLines_fencedTables :
    fencedLines none 1 (fencedTables.bodyLines 1) = [2, 3, 4, 5, 9, 10, 11] := by decide +kernel

theorem tables_fencedTables : (tables fencedTables).map (fun found =>
    found.map fun table => (table.name, table.headerLine, table.rows.map DataRow.line)) =
      .ok [("table1", 6, [8])] := by
  cbv

theorem tables_clear_fencedTables :
    fencedTables.frontEnd? = some 1 ∧ ∃ found, tables fencedTables = .ok found ∧
      found.map (fun table => (table.name, table.headerLine, table.rows.map DataRow.line)) =
        [("table1", 6, [8])] ∧
      tables (fencedTables.clear [2, 3, 4, 5, 9, 10, 11]) = .ok found ∧
      ∀ table ∈ found, table.Unmarked [2, 3, 4, 5, 9, 10, 11] := by
  have hfront : fencedTables.frontEnd? = some 1 := by decide +kernel
  have hfound := tables_fencedTables
  obtain ⟨-, -, -, hclear, hunmarked⟩ := tables_clear_fencedLines fencedTables 1 hfront
  rw [fencedLines_fencedTables] at hclear hunmarked
  rcases h : tables fencedTables with failure | found <;> rw [h] at hfound hclear
  · cases hfound
  · exact ⟨hfront, found, rfl, Except.ok.inj hfound, hclear, hunmarked found h⟩

end Markdown

end TableDoc
