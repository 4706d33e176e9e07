import TableDoc.Interpolation
import TableDoc.Proofs.Interpolation.Scan

/-!
# Values in place of references

`Reads` says how a body is cut into references and text: line by line, lines of fenced code being
text. `Fills` puts the values of the references between the text, and `FirstFailure` is the first
reference without a value. `interpolate` gives the one text or the fault of the other
(`interpolate_outcome`).
-/

namespace TableDoc

open Markdown (Fence)
open Segment (IsReference Scan)

/-- How a line is cut that comes at this state of the fence. -/
inductive ReadsLine (fence : Fence) (line : List Char) : List Segment → Prop
  | fenced : (fence.feed line).1 = true → ReadsLine fence line [.literal line]
  | scanned : (fence.feed line).1 = false → Scan line segs → ReadsLine fence line segs

/-- How lines are cut, line breaks between them being text. -/
inductive Reads : Fence → List (List Char) → List Segment → Prop
  | last : ReadsLine fence line segs → Reads fence [line] segs
  | cons : ReadsLine fence line segs → Reads (fence.feed line).2 lines rest →
    Reads fence (line :: lines) (segs ++ .literal ['\n'] :: rest)

/-- The text of segments with the values of the references in it. -/
inductive Fills (tables : List TableResult) : List Segment → List Char → Prop
  | nil : Fills tables [] []
  | literal : Fills tables segs out → Fills tables (.literal text :: segs) (text ++ out)
  | reference : Reference.Names tables target value → Fills tables segs out →
    Fills tables (.reference source target :: segs) (value.toText.toList ++ out)

/-- A reference without a value, all references before it having one. -/
structure FirstFailure (tables : List TableResult) (segs before : List Segment) (source : List Char)
    (target : Reference) (fault : Reference.Fault) : Prop where
  eq : ∃ after, segs = before ++ .reference source target :: after
  fills : ∃ out, Fills tables before out
  fails : target.Fails tables fault

variable {tables : List TableResult} {fence : Fence} {n start : Nat} {line source out : List Char}
  {lines : List (List Char)} {segs before rest : List Segment} {target : Reference}
  {fault : Reference.Fault}

/-! ## Segments of a body -/

theorem reference_mem_of_literal {text : List Char}
    (h : .reference source target ∈ .literal text :: segs) :
    .reference source target ∈ segs := by
  cases h with
  | tail _ h => exact h

theorem Segment.Scan.flatMap_source (h : Scan line segs) : segs.flatMap Segment.source = line := by
  rw [scan_iff.1 h, flatMap_source_segments]

theorem Segment.Scan.isReference (h : Scan line segs) (hmem : .reference source target ∈ segs) :
    IsReference source target := by
  induction h with
  | nil => cases hmem
  | code _ _ _ _ ih | unclosed _ _ _ _ ih | other _ _ _ ih =>
    exact ih (reference_mem_of_literal hmem)
  | reference hsource _ ih =>
    rcases List.mem_cons.1 hmem with heq | hmem
    · cases heq
      exact hsource
    · exact ih hmem

theorem ReadsLine.flatMap_source (h : ReadsLine fence line segs) :
    segs.flatMap Segment.source = line := by
  cases h with
  | fenced => exact List.append_nil _
  | scanned _ hscan => exact hscan.flatMap_source

theorem ReadsLine.isReference (h : ReadsLine fence line segs)
    (hmem : .reference source target ∈ segs) :
    IsReference source target := by
  cases h with
  | fenced => cases List.mem_singleton.1 hmem
  | scanned _ hscan => exact hscan.isReference hmem

theorem exists_readsLine (fence : Fence) (line : List Char) :
    ∃ segs, ReadsLine fence line segs := by
  cases hfence : (fence.feed line).1 with
  | true => exact ⟨_, .fenced hfence⟩
  | false => exact ⟨_, .scanned hfence (scan_segments line)⟩

/-- There is one way to read a line. -/
theorem ReadsLine.unique {others : List Segment} (h : ReadsLine fence line segs)
    (h' : ReadsLine fence line others) :
    segs = others := by
  cases h with
  | fenced hfence =>
    cases h' with
    | fenced => rfl
    | scanned hopen => cases hfence.symm.trans hopen
  | scanned hopen hscan =>
    cases h' with
    | fenced hfence => cases hfence.symm.trans hopen
    | scanned _ hscan' => rw [scan_iff.1 hscan, scan_iff.1 hscan']

/-- Every body can be read. -/
theorem exists_reads (fence : Fence) (hlines : lines ≠ []) : ∃ segs, Reads fence lines segs := by
  induction lines generalizing fence with
  | nil => exact absurd rfl hlines
  | cons line lines ih =>
    obtain ⟨segs, hsegs⟩ := exists_readsLine fence line
    cases lines with
    | nil => exact ⟨segs, .last hsegs⟩
    | cons next lines =>
      obtain ⟨rest, hrest⟩ := ih (fence.feed line).2 (List.cons_ne_nil _ _)
      exact ⟨_, .cons hsegs hrest⟩

theorem Reads.ne_nil (h : Reads fence lines segs) : lines ≠ [] := by
  cases h <;> exact List.cons_ne_nil _ _

/-- There is one way to read a body. -/
theorem Reads.unique {others : List Segment} (h : Reads fence lines segs)
    (h' : Reads fence lines others) :
    segs = others := by
  induction h generalizing others with
  | last hsegs =>
    cases h' with
    | last hsegs' => exact hsegs.unique hsegs'
    | cons _ hrest => exact absurd rfl hrest.ne_nil
  | cons hsegs hrest ih =>
    cases h' with
    | last => exact absurd rfl hrest.ne_nil
    | cons hsegs' hrest' => rw [hsegs.unique hsegs', ih hrest']

/-- The segments of a body make it up. -/
theorem Reads.flatMap_source (h : Reads fence lines segs) :
    segs.flatMap Segment.source = Text.unlines lines := by
  induction h with
  | last hsegs => rw [hsegs.flatMap_source, Text.unlines, List.intercalate_singleton]
  | cons hsegs hrest ih =>
    rw [List.flatMap_append, List.flatMap_cons, hsegs.flatMap_source, ih,
      Text.unlines_cons _ hrest.ne_nil]
    rfl

theorem source_subset (h : .reference source target ∈ segs) :
    source ⊆ segs.flatMap Segment.source :=
  fun _ hc => List.mem_flatMap.2 ⟨_, h, hc⟩

/-- The references of a body are references on one line. -/
theorem Reads.isReference (h : Reads fence lines segs) (hlines : ∀ line ∈ lines, '\n' ∉ line)
    (hmem : .reference source target ∈ segs) : IsReference source target ∧ '\n' ∉ source := by
  induction h with
  | last hsegs =>
    refine ⟨hsegs.isReference hmem, fun hc => hlines _ List.mem_cons_self ?_⟩
    exact hsegs.flatMap_source ▸ source_subset hmem hc
  | cons hsegs _ ih =>
    obtain ⟨hline, hlines⟩ := List.forall_mem_cons.1 hlines
    rcases List.mem_append.1 hmem with hmem | hmem
    · exact ⟨hsegs.isReference hmem, fun hc => hline (hsegs.flatMap_source ▸ source_subset hmem hc)⟩
    · exact ih hlines (reference_mem_of_literal hmem)

/-! ## Filled segments -/

theorem Fills.append {rest : List Segment} (h : Fills tables (before ++ rest) out) :
    ∃ first last, out = first ++ last ∧ Fills tables before first ∧ Fills tables rest last := by
  induction before generalizing out with
  | nil => exact ⟨[], out, rfl, .nil, h⟩
  | cons seg before ih =>
    cases h with
    | literal h =>
      obtain ⟨first, last, rfl, hfirst, hlast⟩ := ih h
      exact ⟨_, last, (List.append_assoc _ _ _).symm, .literal hfirst, hlast⟩
    | reference hvalue h =>
      obtain ⟨first, last, rfl, hfirst, hlast⟩ := ih h
      exact ⟨_, last, (List.append_assoc _ _ _).symm, .reference hvalue hfirst, hlast⟩

/-- Where all is filled, every reference names a value. -/
theorem Fills.names (h : Fills tables segs out) (hmem : .reference source target ∈ segs) :
    ∃ value, target.Names tables value := by
  induction h with
  | nil => cases hmem
  | literal _ ih => exact ih (reference_mem_of_literal hmem)
  | reference hvalue _ ih =>
    rcases List.mem_cons.1 hmem with heq | hmem
    · cases heq
      exact ⟨_, hvalue⟩
    · exact ih hmem

/-- All references have values, or there is a first one without. -/
theorem fills_or_fails (tables : List TableResult) (segs : List Segment) :
    (∃ out, Fills tables segs out) ∨
    ∃ before source target fault, FirstFailure tables segs before source target fault := by
  induction segs with
  | nil => exact .inl ⟨[], .nil⟩
  | cons seg segs ih =>
    cases seg with
    | literal text =>
      rcases ih with
        ⟨out, hout⟩ | ⟨before, source, target, fault, ⟨after, rfl⟩, ⟨out, hout⟩, hfails⟩
      · exact .inl ⟨_, .literal hout⟩
      · exact .inr ⟨.literal text :: before, source, target, fault, ⟨after, rfl⟩,
          ⟨_, .literal hout⟩, hfails⟩
    | reference source target =>
      rcases Reference.names_or_fails tables target with ⟨value, hvalue⟩ | ⟨fault, hfault⟩
      · rcases ih with ⟨out, hout⟩ | ⟨before, last, other, fault, ⟨after, rfl⟩, ⟨out, hout⟩, hfails⟩
        · exact .inl ⟨_, .reference hvalue hout⟩
        · exact .inr ⟨.reference source target :: before, last, other, fault, ⟨after, rfl⟩,
            ⟨_, .reference hvalue hout⟩, hfails⟩
      · exact .inr ⟨[], source, target, fault, ⟨segs, rfl⟩, ⟨[], .nil⟩, hfault⟩

/-- Where all is filled, the text is that of the segments. -/
theorem interpolateSegments_of_fills (h : Fills tables segs out) :
    interpolateSegments tables n start segs = .ok out := by
  induction h generalizing start with
  | nil => rfl
  | literal _ ih =>
    rw [interpolateSegments, ih]
    rfl
  | reference hvalue _ ih =>
    rw [interpolateSegments, Reference.resolve_eq_ok_iff.2 hvalue]
    simp only [Except.mapError, ih]
    rfl

/-- The first reference without a value is reported at its offset. -/
theorem interpolateSegments_of_fails (h : FirstFailure tables segs before source target fault) :
    interpolateSegments tables n start segs =
      let offset := start + (before.flatMap Segment.source).length
      .error (fault.toDiagnostic target (.within n offset (offset + source.length))) := by
  obtain ⟨⟨after, rfl⟩, ⟨out, hout⟩, hfails⟩ := h
  induction hout generalizing start with
  | nil =>
    rw [List.nil_append, interpolateSegments, Reference.resolve_eq_error_iff.2 hfails]
    rfl
  | @literal segs out text _ ih =>
    rw [List.cons_append, interpolateSegments, ih, List.flatMap_cons, List.length_append,
      ← Nat.add_assoc]
    rfl
  | @reference piece other _ _ _ hvalue _ ih =>
    rw [List.cons_append, interpolateSegments, Reference.resolve_eq_ok_iff.2 hvalue,
      List.flatMap_cons, List.length_append, ← Nat.add_assoc]
    simp only [Except.mapError, ih]
    rfl

/-- A line with its values, if it comes at this state of the fence. -/
def interpolateLine (tables : List TableResult) (fence : Fence) (n : Nat) (line : List Char) :
    Except Diagnostic (List Char) :=
  if (fence.feed line).1 then .ok line else interpolateSegments tables n 0 (segments line)

theorem interpolateLine_of_fills (hsegs : ReadsLine fence line segs) (h : Fills tables segs out) :
    interpolateLine tables fence n line = .ok out := by
  cases hsegs with
  | fenced hfence =>
    obtain _ | @⟨_, _, _, ⟨⟩⟩ := h
    rw [interpolateLine, if_pos hfence, List.append_nil]
  | scanned hopen hscan =>
    rw [interpolateLine, hopen, ← scan_iff.1 hscan]
    exact interpolateSegments_of_fills h

/-- A line reports its first reference without a value. -/
theorem interpolateLine_of_fails (hline : '\n' ∉ line) (hsegs : ReadsLine fence line segs)
    (h : FirstFailure tables segs before source target fault) :
    interpolateLine tables fence n line =
      .error (fault.toDiagnostic target (Text.span n (before.flatMap Segment.source) source)) := by
  have hsource := hsegs.flatMap_source
  obtain ⟨after, hafter⟩ := h.eq
  cases hsegs with
  | fenced =>
    rcases List.singleton_eq_append_iff.1 hafter with ⟨-, heq⟩ | ⟨-, heq⟩
    · cases heq
    · cases heq
  | scanned hopen hscan =>
    rw [interpolateLine, hopen, ← scan_iff.1 hscan]
    rw [hafter, List.flatMap_append, List.flatMap_cons] at hsource
    have hbefore : '\n' ∉ before.flatMap Segment.source := fun hc =>
      hline (hsource ▸ List.mem_append_left _ hc)
    have hpiece : '\n' ∉ source := fun hc =>
      hline (hsource ▸ List.mem_append_right _ (List.mem_append_left _ hc))
    rw [Text.span_of_notMem n hbefore hpiece]
    rw [interpolateSegments_of_fails h]
    dsimp only
    rw [Nat.zero_add]
    rfl

theorem interpolateLines_cons (tables : List TableResult) (fence : Fence) (n : Nat)
    (line : List Char) (lines : List (List Char)) :
    interpolateLines tables fence n (line :: lines) =
      interpolateLine tables fence n line >>= fun first =>
        (first :: ·) <$> interpolateLines tables (fence.feed line).2 (n + 1) lines := by
  rw [interpolateLines, interpolateLine]
  obtain ⟨fenced, next⟩ := fence.feed line
  cases fenced
  · rfl
  · rfl

/-- The first failure of a text in two parts is one of the first part, or the first part has its
values. -/
theorem FirstFailure.of_append {text : List Char}
    (h : FirstFailure tables (segs ++ .literal text :: rest) before source target fault) :
    FirstFailure tables segs before source target fault ∨
    ∃ later, before = segs ++ .literal text :: later ∧
      (∃ out, Fills tables segs out) ∧ FirstFailure tables rest later source target fault := by
  obtain ⟨⟨after, heq⟩, ⟨out, hout⟩, hfails⟩ := h
  rcases List.append_eq_append_iff.1 heq with ⟨part, rfl, hpart⟩ | ⟨part, rfl, hpart⟩
  · cases part with
    | nil => cases hpart
    | cons seg later =>
      obtain ⟨rfl, rfl⟩ := List.cons.inj hpart
      obtain ⟨first, _, -, hfirst, hlast⟩ := hout.append
      cases hlast with
      | literal hlater =>
        exact .inr ⟨later, rfl, ⟨first, hfirst⟩, ⟨after, rfl⟩, ⟨_, hlater⟩, hfails⟩
  · cases part with
    | nil => cases hpart
    | cons seg part =>
      obtain ⟨rfl, rfl⟩ := List.cons.inj hpart
      exact .inl ⟨⟨part, rfl⟩, ⟨out, hout⟩, hfails⟩

/-- Where all is filled, the lines make up the text. -/
theorem interpolateLines_of_fills (h : Reads fence lines segs) (hfills : Fills tables segs out) :
    ∃ outs, interpolateLines tables fence n lines = .ok outs ∧ outs ≠ [] ∧
      Text.unlines outs = out := by
  induction h generalizing n out with
  | last hsegs =>
    refine ⟨[out], ?_, List.cons_ne_nil _ _, List.intercalate_singleton⟩
    rw [interpolateLines_cons, interpolateLine_of_fills hsegs hfills]
    rfl
  | cons hsegs _ ih =>
    obtain ⟨first, _, rfl, hfirst, hlast⟩ := hfills.append
    cases hlast with
    | literal hrest =>
      obtain ⟨outs, houts, hne, rfl⟩ := ih (n := n + 1) hrest
      refine ⟨first :: outs, ?_, List.cons_ne_nil _ _, Text.unlines_cons first hne⟩
      rw [interpolateLines_cons, interpolateLine_of_fills hsegs hfirst, houts]
      rfl

/-- A body reports its first reference without a value, at its line. -/
theorem interpolateLines_of_fails (h : Reads fence lines segs)
    (hlines : ∀ line ∈ lines, '\n' ∉ line)
    (hfails : FirstFailure tables segs before source target fault) :
    interpolateLines tables fence n lines =
      .error (fault.toDiagnostic target (Text.span n (before.flatMap Segment.source) source)) := by
  induction h generalizing n before with
  | last hsegs =>
    rw [interpolateLines_cons, interpolateLine_of_fails (hlines _ List.mem_cons_self) hsegs hfails]
    rfl
  | @cons _ line segs _ _ hsegs _ ih =>
    obtain ⟨hline, hlines⟩ := List.forall_mem_cons.1 hlines
    rw [interpolateLines_cons]
    rcases hfails.of_append with hfails | ⟨later, rfl, ⟨first, hfirst⟩, hfails⟩
    · rw [interpolateLine_of_fails hline hsegs hfails]
      rfl
    · have hspan : Text.span n ((segs ++ .literal ['\n'] :: later).flatMap Segment.source) source =
          Text.span (n + 1) (later.flatMap Segment.source) source := by
        rw [List.flatMap_append, List.flatMap_cons, hsegs.flatMap_source]
        exact Text.span_line n hline
      rw [hspan, interpolateLine_of_fills hsegs hfirst, ih hlines hfails]
      rfl

/-! ## Bodies -/

theorem interpolate_of_fills (n : Nat) {body : List Char} (h : Reads none (Text.lines body) segs)
    (hfills : Fills tables segs out) : interpolate tables n (Text.lines body) = .ok out := by
  obtain ⟨outs, houts, -, rfl⟩ := interpolateLines_of_fills (n := n) h hfills
  rw [interpolate, houts]
  rfl

theorem fills_source (h : ∀ source target, .reference source target ∉ segs) :
    Fills tables segs (segs.flatMap Segment.source) := by
  induction segs with
  | nil => exact .nil
  | cons seg segs ih =>
    have hrest := ih fun source target hmem => h source target (List.mem_cons_of_mem _ hmem)
    cases seg with
    | literal text => exact .literal hrest
    | reference source target => exact absurd List.mem_cons_self (h source target)

/-- A body is cut in one way into references and text. Interpolation puts the values in place of the
references, or fails at the first reference without a value. -/
theorem interpolate_outcome (tables : List TableResult) (n : Nat) (body : List Char) :
    ∃ segs, (∀ others, Reads none (Text.lines body) others ↔ others = segs) ∧
      segs.flatMap Segment.source = body ∧
      (∀ source target, .reference source target ∈ segs → IsReference source target ∧
        '\n' ∉ source) ∧
      (∀ out, interpolate tables n (Text.lines body) = .ok out ↔ Fills tables segs out) ∧
      ((∃ d, interpolate tables n (Text.lines body) = .error d) ↔
        ∃ source target fault, .reference source target ∈ segs ∧ target.Fails tables fault) ∧
      (∀ d, interpolate tables n (Text.lines body) = .error d ↔
        ∃ before source target fault, FirstFailure tables segs before source target fault ∧
          d = fault.toDiagnostic target (Text.span n (before.flatMap Segment.source) source) ∧
          d.code = .aggregateReference) ∧
      ((∀ source target, .reference source target ∉ segs) →
        interpolate tables n (Text.lines body) = .ok body) := by
  obtain ⟨segs, hsegs⟩ := exists_reads none (Text.lines_ne_nil body)
  have hsource : segs.flatMap Segment.source = body :=
    hsegs.flatMap_source.trans (Text.unlines_lines body)
  have hlines : ∀ line ∈ Text.lines body, '\n' ∉ line := fun _ => Text.newline_notMem_of_mem_lines
  have hfills {out : List Char} (h : Fills tables segs out) :
      interpolate tables n (Text.lines body) = .ok out := by
    obtain ⟨outs, houts, -, rfl⟩ := interpolateLines_of_fills (n := n) hsegs h
    rw [interpolate, houts]
    rfl
  have hfails {before : List Segment} {source : List Char} {target : Reference}
      {fault : Reference.Fault} (h : FirstFailure tables segs before source target fault) :
        interpolate tables n (Text.lines body) =
          .error (fault.toDiagnostic target
            (Text.span n (before.flatMap Segment.source) source)) := by
    rw [interpolate, interpolateLines_of_fails hsegs hlines h]
    rfl
  have hok {out : List Char} (h : interpolate tables n (Text.lines body) = .ok out) :
      Fills tables segs out := by
    rcases fills_or_fails tables segs with ⟨other, hother⟩ | ⟨_, _, _, _, hfirst⟩
    · rw [hfills hother] at h
      exact Except.ok.inj h ▸ hother
    · cases h.symm.trans (hfails hfirst)
  have herror {d : Diagnostic} (h : interpolate tables n (Text.lines body) = .error d) :
      ∃ before source target fault, FirstFailure tables segs before source target fault ∧
        d = fault.toDiagnostic target (Text.span n (before.flatMap Segment.source) source) := by
    rcases fills_or_fails tables segs with ⟨out, hout⟩ | ⟨before, source, target, fault, hfirst⟩
    · cases h.symm.trans (hfills hout)
    · exact ⟨before, source, target, fault, hfirst, Except.error.inj (h.symm.trans (hfails hfirst))⟩
  refine ⟨segs, fun others => ⟨fun h => h.unique hsegs, fun h => h ▸ hsegs⟩, hsource,
    fun source target => hsegs.isReference hlines, fun out => ⟨hok, hfills⟩, ⟨?_, ?_⟩, fun d =>
      ⟨fun h => ?_, ?_⟩,
    fun h => hsource ▸ hfills (fills_source h)⟩
  · rintro ⟨d, hd⟩
    obtain ⟨before, source, target, fault, hfirst, -⟩ := herror hd
    obtain ⟨after, hafter⟩ := hfirst.eq
    exact ⟨source, target, fault, hafter ▸ List.mem_append_right _ List.mem_cons_self, hfirst.fails⟩
  · rintro ⟨source, target, fault, hmem, hfault⟩
    cases hresult : interpolate tables n (Text.lines body) with
    | error d => exact ⟨d, rfl⟩
    | ok out =>
      obtain ⟨value, hvalue⟩ := (hok hresult).names hmem
      cases (Reference.resolve_eq_ok_iff.2 hvalue).symm.trans
        (Reference.resolve_eq_error_iff.2 hfault)
  · obtain ⟨before, source, target, fault, hfirst, rfl⟩ := herror h
    exact ⟨before, source, target, fault, hfirst, rfl, rfl⟩
  · rintro ⟨before, source, target, fault, hfirst, rfl, -⟩
    exact hfails hfirst

end TableDoc
