import TableDoc.Proofs.Diagnostic
import TableDoc.Proofs.Sequence
import TableDoc.Schema.Declaration

/-!
# Where the schema says that its entries stand

Going through the lines of a front section adds one place at a time, the whole of the line at hand
(`EntryScan.inside_feed`). So all places of a schema are lines of its document
(`Schema.inside_of_ofDocument`).
-/

namespace TableDoc

variable {lines : List (List Char)} {line : List Char} {n : Nat} {span : Span}

/-- All places are inside the lines. -/
structure EntryMap.Inside (lines : List (List Char)) (places : EntryMap) : Prop where
  tables : ∀ table ∈ places.tables, table.2.Inside lines
  entries : ∀ entry ∈ places.entries, entry.2.Inside lines

namespace EntryScan

variable {s : EntryScan}

theorem inside_feed {indent : Nat} {key : String} (h : s.found.Inside lines)
    (hspan : span.Inside lines) :
    (s.feed indent key span).found.Inside lines := by
  fun_cases feed s indent key span
  all_goals first
    | exact h
    | exact { h with tables := List.forall_mem_cons.2 ⟨hspan, h.tables⟩ }
    | exact { h with entries := List.forall_mem_cons.2 ⟨hspan, h.entries⟩ }

/-- A line adds no place outside of the document. -/
theorem inside_feedLine (h : s.found.Inside lines) (hline : lines[n]? = some line) :
    (s.feedLine n line).found.Inside lines := by
  rw [feedLine]
  split
  · exact h
  · split
    · exact h
    · exact inside_feed h (Span.inside_ofLine hline)

end EntryScan

namespace EntryMap

/-- All entries of a front section stand inside the document. -/
theorem inside_ofLines {texts : List (List Char)} (h : texts <+: lines.drop n) :
    (ofLines n texts).Inside lines := by
  refine List.foldlRecOn (motive := fun s : EntryScan => s.found.Inside lines) _ _ ⟨nofun, nofun⟩ ?_
  rintro s hs ⟨line, i⟩ hmem
  obtain ⟨hle, htext⟩ := List.mem_zipIdx_iff_le_and_getElem?_sub.1 hmem
  refine EntryScan.inside_feedLine hs ?_
  obtain ⟨hi, hget⟩ := List.getElem?_eq_some_iff.1 htext
  have hline := List.prefix_iff_getElem?.1 h _ hi
  rwa [hget, List.getElem?_drop, Nat.add_sub_cancel' hle] at hline

end EntryMap

namespace Schema

variable {d : Document} {s : Schema} {name entry : String} {part : Section}

theorem inside_tableSpan? (h : s.places.Inside lines) :
    ∀ span ∈ s.tableSpan? name, span.Inside lines :=
  fun _ hspan => h.tables _ (mem_of_lookup hspan)

theorem inside_entrySpan? (h : s.places.Inside lines) :
    ∀ span ∈ s.entrySpan? name part entry, span.Inside lines := by
  intro span hspan
  rw [entrySpan?] at hspan
  rcases hentry : s.places.entry? name part entry with _ | place <;> rw [hentry] at hspan
  · exact inside_tableSpan? h span hspan
  · cases hspan
    exact h.entries _ (mem_of_lookup hentry)

/-- Where a table has a place, all its entries have one. -/
theorem isSome_entrySpan? (h : (s.tableSpan? name).isSome) :
    (s.entrySpan? name part entry).isSome := by
  rw [entrySpan?]
  cases s.places.entry? name part entry with
  | none => exact h
  | some place => rfl

variable [Yaml.Loader]

/-- The places that a schema knows are found in the front section that it is read from. -/
theorem places_of_ofDocument (h : Schema.ofDocument d = .ok s) :
    d.frontEnd? = some s.frontEnd ∧ s.places = EntryMap.ofLines 1 (d.frontLines s.frontEnd) := by
  rw [Schema.ofDocument] at h
  split at h
  · cases h
  · split at h
    · cases h
    · next frontEnd hfront =>
      rw [Schema.ofFront] at h
      split at h
      · cases h
      · cases h
        exact ⟨hfront, rfl⟩

/-- All places that a schema knows are inside its document, which has the front section that it is
read from. -/
theorem inside_of_ofDocument (h : Schema.ofDocument d = .ok s) :
    s.places.Inside d.lines ∧ d.frontEnd? = some s.frontEnd := by
  obtain ⟨hfront, hplaces⟩ := places_of_ofDocument h
  refine ⟨hplaces ▸ EntryMap.inside_ofLines ?_, hfront⟩
  rw [Document.frontLines, List.drop_take]
  exact List.take_prefix _ _

end Schema

end TableDoc
