import TableDoc.Proofs.Markdown.Fences

/-!
# Groups by their keys

A group is selected by its key between double quotes, whatever the key is: blanks and quotes in it
are kept, and it is not looked through for brackets, backticks or opening braces. Only a closing
bracket, two closing braces or a line break would end the reference before its time. So a line that
is such a reference is replaced by the value of the group (`interpolate_groupLine`).
-/

namespace TableDoc

open Segment (IsReference)

variable {c d : Char} {key : List Char} {table aggregate : String} {tables : List TableResult}
  {result : TableResult} {grouped : GroupedAggregate} {value : Scalar}

theorem infix_of_append_cons (hne : c ≠ d) {before after : List Char}
    (h : [c, c] <:+: before ++ d :: after) :
    [c, c] <:+: before ∨ [c, c] <:+: after := by
  obtain ⟨left, right, h⟩ := h
  rw [List.append_assoc] at h
  rcases Text.append_eq_append_cons h with ⟨rest, -, rfl⟩ | ⟨rest, rfl, hrest⟩
  · exact .inr ⟨rest, right, List.append_assoc _ _ _⟩
  · match rest with
    | [] => exact absurd (List.cons.inj hrest).1 hne
    | [_] => exact absurd (List.cons.inj (List.cons.inj hrest).2).1 hne
    | a :: b :: rest =>
      obtain ⟨ha, hrest⟩ := List.cons.inj hrest
      obtain ⟨hb, -⟩ := List.cons.inj hrest
      rw [← ha, ← hb]
      exact .inl ⟨left, rest, List.append_assoc _ _ _⟩

namespace Reference

/-- A group is selected by its key between double quotes. -/
def bracket (key : List Char) : List Char := '[' :: '\x22' :: (key ++ ['\x22', ']'])

/-- What stands between the braces of a reference to a group. -/
def quotedGroup (table aggregate : String) (key : List Char) : List Char :=
  ' ' :: (table.toList ++ '.' :: (aggregate.toList ++ bracket key)) ++ [' ']

/-- A key in quotes and brackets selects the group of this key. -/
theorem selects_bracket (h : ']' ∉ key) : Selects (bracket key) (.ofList key) := by
  have hquoted : ']' ∉ '\x22' :: (key ++ ['\x22']) := by
    refine List.not_mem_cons_of_ne_of_not_mem (by decide) (List.not_mem_append h ?_)
    decide
  have hlast : ('\x22' :: (key ++ ['\x22'])).getLast? = some '\x22' := by
    rw [← List.cons_append, List.getLast?_concat]
  have htrimmed : Text.IsTrimmed ('\x22' :: (key ++ ['\x22'])) :=
    Text.isTrimmed_of_ends rfl rfl hlast rfl
  have hbracket : bracket key = '[' :: ([] ++ '\x22' :: (key ++ ['\x22']) ++ [] ++ [']']) := by
    simp only [bracket, List.nil_append, List.append_nil, List.cons_append, List.append_assoc]
  rw [hbracket]
  exact .mk nofun htrimmed nofun hquoted (.quoted List.mem_cons_self)

theorem written_quotedGroup (htable : IsName table.toList) (haggregate : IsName aggregate.toList)
    (h : ']' ∉ key) :
    Written (quotedGroup table aggregate key) ⟨table, aggregate, some (.ofList key)⟩ := by
  have hblank : Text.Blanks [' '] := by decide
  have hwritten := Written.group hblank htable haggregate (selects_bracket h) hblank
  rwa [String.ofList_toList, String.ofList_toList] at hwritten

/-- A group in quotes between braces is a reference to it. -/
theorem isReference_quotedGroup (htable : IsName table.toList)
    (haggregate : IsName aggregate.toList) (h : ']' ∉ key)
    (hbraces : ¬['\x7d', '\x7d'] <:+: key) :
    IsReference ('\x7b' :: '\x7b' :: (quotedGroup table aggregate key ++ ['\x7d', '\x7d']))
      ⟨table, aggregate, some (.ofList key)⟩ := by
  refine .mk (fun hpiece => ?_) (written_quotedGroup htable haggregate h)
  have hfree {cs : List Char} (hcs : '\x7d' ∉ cs) : ¬['\x7d', '\x7d'] <:+: cs := fun hpiece =>
    hcs (hpiece.subset List.mem_cons_self)
  have hname {cs : List Char} (hcs : IsName cs) : '\x7d' ∉ cs :=
    fun hmem => absurd (hcs.2 _ hmem) (by decide)
  have htext : quotedGroup table aggregate key =
      (' ' :: (table.toList ++ '.' :: (aggregate.toList ++ ['[']))) ++
        '\x22' :: (key ++ '\x22' :: [']', ' ']) := by
    simp only [quotedGroup, bracket, List.cons_append, List.append_assoc, List.nil_append]
  rw [htext] at hpiece
  -- only the key may have closing braces
  rcases infix_of_append_cons (by decide) hpiece with hbefore | hlater
  · refine hfree ?_ hbefore
    have hpoint : '\x7d' ∉ '.' :: (aggregate.toList ++ ['[']) :=
      List.not_mem_cons_of_ne_of_not_mem (by decide)
        (List.not_mem_append (hname haggregate) (by decide))
    exact List.not_mem_cons_of_ne_of_not_mem (by decide) (List.not_mem_append (hname htable) hpoint)
  · rcases infix_of_append_cons (by decide) hlater with hkey | hafter
    · exact hbraces hkey
    · exact hfree (by decide) hafter

end Reference

/-- A line that is one reference, to a group by its key between double quotes. -/
def groupLine (table aggregate key : String) : List Char :=
  ("\x7b\x7b " ++ table ++ "." ++ aggregate ++ "[\"" ++ key ++ "\"] \x7d\x7d").toList

theorem groupLine_eq (table aggregate key : String) : groupLine table aggregate key =
    '\x7b' :: '\x7b' :: (Reference.quotedGroup table aggregate key.toList ++ ['\x7d', '\x7d']) := by
  simp [groupLine, Reference.quotedGroup, Reference.bracket]

theorem trim_groupLine (table aggregate key : String) :
    Text.trim (groupLine table aggregate key) = groupLine table aggregate key := by
  have hlast : (groupLine table aggregate key).getLast? = some '\x7d' := by
    have htext : groupLine table aggregate key =
        ('\x7b' :: '\x7b' ::
          (Reference.quotedGroup table aggregate key.toList ++ ['\x7d'])) ++ ['\x7d'] := by
      rw [groupLine_eq]
      simp only [List.cons_append, List.append_assoc, List.nil_append]
    rw [htext, List.getLast?_concat]
  have hhead : (groupLine table aggregate key).head? = some '\x7b' := by
    rw [groupLine_eq]
    rfl
  exact (Text.isTrimmed_of_ends hhead rfl hlast rfl).trim_eq

theorem newline_notMem_groupLine {key : String} (htable : Reference.IsName table.toList)
    (haggregate : Reference.IsName aggregate.toList) (h : '\n' ∉ key.toList) :
    '\n' ∉ groupLine table aggregate key := by
  have hname {cs : List Char} (hcs : Reference.IsName cs) : '\n' ∉ cs :=
    fun hmem => absurd (hcs.2 _ hmem) (by decide)
  simp only [groupLine_eq, Reference.quotedGroup, Reference.bracket, List.mem_cons, List.mem_append,
    hname htable, hname haggregate, h]
  decide

/-- The whole line is read as one reference, to the group with this key. -/
theorem reads_groupLine {key : String} (htable : Reference.IsName table.toList)
    (haggregate : Reference.IsName aggregate.toList) (hbracket : ']' ∉ key.toList)
    (hbraces : ¬['\x7d', '\x7d'] <:+: key.toList) (hline : '\n' ∉ key.toList) :
    Reads none (Text.lines (groupLine table aggregate key))
      [.reference (groupLine table aggregate key) ⟨table, aggregate, some key⟩] := by
  have hsource := Reference.isReference_quotedGroup htable haggregate hbracket hbraces
  rw [String.ofList_toList, ← groupLine_eq] at hsource
  have hscan : Segment.Scan (groupLine table aggregate key ++ []) _ := .reference hsource .nil
  rw [List.append_nil] at hscan
  have hfeed : Markdown.Fence.feed none (groupLine table aggregate key) = (false, none) := by
    refine Markdown.feed_none_of_head? ?_
    rw [trim_groupLine, groupLine_eq]
    rintro ⟨⟩
  rw [Text.lines_of_notMem (newline_notMem_groupLine htable haggregate hline)]
  exact .last (.scanned (congrArg Prod.fst hfeed) hscan)

/-- Interpolation puts the value of a group in the place of a line that refers to it by its key
between double quotes. -/
theorem interpolate_groupLine {key : String} (htable : Reference.IsName result.name.toList)
    (hresult : tables.find? (·.name = result.name) = some result)
    (haggregate : Reference.IsName grouped.name.toList)
    (hscalar : result.aggregates.get? grouped.name = none)
    (hgrouped : result.grouped? grouped.name = some grouped)
    (hvalue : grouped.get? key = some value) (hbracket : ']' ∉ key.toList)
    (hbraces : ¬['\x7d', '\x7d'] <:+: key.toList) (hline : '\n' ∉ key.toList) (n : Nat) :
    interpolate tables n (Text.lines (groupLine result.name grouped.name key)) =
      .ok value.toText.toList := by
  have hfills : Fills tables
      [.reference (groupLine result.name grouped.name key) ⟨result.name, grouped.name, some key⟩]
      (value.toText.toList ++ []) :=
    .reference (.group hresult hscalar hgrouped hvalue) .nil
  rw [List.append_nil] at hfills
  exact interpolate_of_fills n (reads_groupLine htable haggregate hbracket hbraces hline) hfills

/-- An aggregate with a key full of marks. -/
def markedGroups : GroupedAggregate := ⟨"9", [("", .null), (" \"[\x7b\x7b`'\" \x7d", .text "a")]⟩

/-- The first of two tables with the same name has the aggregate. -/
def markedTables : List TableResult := [⟨"t_1", [], ∅, [markedGroups]⟩, ⟨"t_1", [], ∅, []⟩]

theorem interpolate_groupLine_marked :
    let line := groupLine "t_1" "9" " \"[\x7b\x7b`'\" \x7d"
    line = "\x7b\x7b t_1.9[\" \"[\x7b\x7b`'\" \x7d\"] \x7d\x7d".toList ∧
      interpolate markedTables 7 (Text.lines line) = .ok (Scalar.text "a").toText.toList := by
  intro line
  let table : TableResult := ⟨"t_1", [], ∅, [markedGroups]⟩
  have htable : Reference.IsName "t_1".toList := by decide
  have haggregate : Reference.IsName "9".toList := by decide
  have hresult : markedTables.find? (·.name = table.name) = some table := by
    simp [markedTables, table]
  have hgrouped : table.grouped? markedGroups.name = some markedGroups := by
    simp [TableResult.grouped?, table]
  have hscalar : table.aggregates.get? markedGroups.name = none := rfl
  have hvalue : markedGroups.get? " \"[\x7b\x7b`'\" \x7d" = some (.text "a") := rfl
  refine ⟨by decide, ?_⟩
  exact interpolate_groupLine htable hresult haggregate hscalar hgrouped hvalue (by decide)
    (by decide) (by decide) 7

end TableDoc
