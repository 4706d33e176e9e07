import TableDoc.Compilation.Plan

/-!
# Places of diagnostics

A span is inside a document if it is a stretch of one of its lines (`Span.Inside`). A diagnostic on
its way out may not have a place yet, but if it names a table it has one (`Diagnostic.Sound`); a row
names its table and has a place, and so has the diagnostic once it has left the row
(`Diagnostic.Sound.complete_of_row`). A layer that only knows an entry of the schema gives the place
of the entry, or else of the table, if the schema has one: then a table is named, and a place is
there if the table has one (`Diagnostic.Sound.placed`).
-/

namespace TableDoc

variable {lines : List (List Char)} {text : List Char} {n start stop : Nat}

/-- The span is a stretch of one of the lines. -/
structure Span.Inside (lines : List (List Char)) (span : Span) : Prop where
  line : span.stop.line = span.start.line
  text : ∃ text, lines[span.start.line]? = some text ∧
    span.start.character ≤ span.stop.character ∧ span.stop.character ≤ text.length

theorem Span.inside_within (h : lines[n]? = some text) (hstart : start ≤ stop)
    (hstop : stop ≤ text.length) :
    (Span.within n start stop).Inside lines :=
  ⟨rfl, text, h, hstart, hstop⟩

theorem Span.inside_ofLine (h : lines[n]? = some text) : (Span.ofLine n text).Inside lines :=
  inside_within h (Nat.zero_le _) (Nat.le_refl _)

namespace Diagnostic

/-- No diagnostic of a reference in the text; its place, if it has one, is inside the document, and
it has one if it names a table. -/
structure Sound (lines : List (List Char)) (d : Diagnostic) : Prop where
  code : d.code ≠ .aggregateReference
  inside : ∀ span ∈ d.span, span.Inside lines
  complete : d.table.isSome → d.span.isSome

/-- Also, it names a table, and so it has a place. -/
structure Complete (lines : List (List Char)) (d : Diagnostic) : Prop extends Sound lines d where
  table : d.table.isSome

/-- No diagnostic of a reference in the text; it names a table, its place, if it has one, is inside
the document, and it has one if the schema knows where the table is declared. -/
structure Placed (lines : List (List Char)) (s : Schema) (d : Diagnostic) : Prop where
  code : d.code ≠ .aggregateReference
  inside : ∀ span ∈ d.span, span.Inside lines
  table : ∃ name, d.table = some name ∧ ((s.tableSpan? name).isSome → d.span.isSome)

variable {s : Schema} {d d' : Diagnostic} {span : Option Span}

theorem Complete.placed (h : d.Complete lines) : d.Placed lines s := by
  obtain ⟨name, hname⟩ := Option.isSome_iff_exists.1 h.table
  exact ⟨h.code, h.inside, name, hname, fun _ => h.complete h.table⟩

/-- A failure of a table with a place inside the document is complete. -/
theorem complete_of_span {place : Span} (hcode : d.code ≠ .aggregateReference)
    (htable : d.table.isSome) (hspan : d.span = some place) (hinside : place.Inside lines) :
    d.Complete lines where
  code := hcode
  inside span' hmem := by
    rw [hspan] at hmem
    cases hmem
    exact hinside
  complete _ := by rw [hspan]; rfl
  table := htable

/-- Completing a diagnostic: the table and the place are those that it has, or else those given. -/
theorem Sound.placed (h : d.Sound lines) (name : String)
    (hinside : ∀ span' ∈ span, span'.Inside lines)
    (hspan : (s.tableSpan? name).isSome → span.isSome) (hcode : d'.code = d.code)
    (htable : d'.table = some (d.table.getD name)) (hplace : d'.span = (d.span <|> span)) :
    d'.Placed lines s where
  code := hcode ▸ h.code
  inside span' hmem := by
    rw [hplace] at hmem
    rcases hd : d.span with _ | inner <;> rw [hd] at hmem
    · exact hinside span' hmem
    · exact h.inside span' (hd ▸ hmem)
  table := by
    refine ⟨_, htable, fun hknown => ?_⟩
    rw [hplace]
    rcases ht : d.table with _ | inner <;> rw [ht] at hknown
    · rcases hd : d.span with _ | place
      · exact hspan hknown
      · rfl
    · obtain ⟨place, hd⟩ := Option.isSome_iff_exists.1 (h.complete (by rw [ht]; rfl))
      rw [hd]
      rfl

/-- Completing a diagnostic of a row, which has a place. -/
theorem Sound.complete_of_row {place : Span} (h : d.Sound lines) (hinside : place.Inside lines)
    (hcode : d'.code = d.code) (htable : d'.table.isSome)
    (hplace : d'.span = (d.span <|> some place)) :
    d'.Complete lines := by
  rcases hd : d.span with _ | inner <;> rw [hd] at hplace
  · exact complete_of_span (hcode ▸ h.code) htable hplace hinside
  · exact complete_of_span (hcode ▸ h.code) htable hplace (h.inside inner hd)

end Diagnostic

namespace Formula.Error

/-- The diagnostic of the error is sound. -/
abbrev Sound (lines : List (List Char)) (e : Error) : Prop := e.toDiagnostic.Sound lines

/-- The error did not arise in another row. -/
def isOwn : Error → Bool
  | inner _ => false
  | _ => true

/-- An error of the formula itself says nothing of a place. -/
theorem sound_of_isOwn {e : Error} (h : e.isOwn) : e.Sound lines := by
  cases e with
  | inner d => cases h
  | _ => exact ⟨nofun, nofun, nofun⟩

end Formula.Error

end TableDoc
