import TableDoc.Proofs.Formula.Surroundings
import TableDoc.Schema.Basic

/-!
# Grouped aggregates

An entry is grouped if it is an expression, `by` and a column, with blanks between them (`Grouped`).
Such an entry is split if its expression stands on one line, and otherwise taken as a whole
(`ofText_of_grouped`). No entry that is a formula is grouped, so a formula keeps all of its text but
the blanks at its ends (`ofText_of_parse`).
-/

namespace TableDoc.AggregateDefinition

open Text (Blanks isBlank)
open Formula (IsWord parse)

variable {source before word after expression column : List Char}

/-! ## Words at the end -/

theorem isColumnName_iff : isColumnName column ↔ IsWord column := by
  cases column with
  | nil => exact iff_of_false nofun nofun
  | cons c cs => simp [isColumnName, IsWord]

theorem isBlank_of_mem_getLast? (hafter : Blanks after) (hne : after ≠ []) :
    ∀ c ∈ (before ++ after).getLast?, isBlank c := by
  intro c hc
  rw [List.getLast?_append_of_ne_nil before hne] at hc
  exact hafter c (List.mem_of_getLast? hc)

theorem lastWord_append (hbefore : ∀ c ∈ before.getLast?, isBlank c)
    (hword : ∀ c ∈ word, isBlank c = false) (hne : word ≠ []) (hafter : Blanks after) :
    lastWord (before ++ word ++ after) = (before, word) := by
  have hlast : ∀ c ∈ (before ++ word).getLast?, isBlank c = false := by
    intro c hc
    rw [List.getLast?_append_of_ne_nil before hne] at hc
    exact hword c (List.mem_of_getLast? hc)
  have hbackwards : ∀ c ∈ word.reverse, (!isBlank c) = true := by
    intro c hc
    rw [hword c (List.mem_reverse.1 hc), Bool.not_false]
  have hrest : ∀ c ∈ before.reverse.head?, (!isBlank c) = false := by
    intro c hc
    rw [List.head?_reverse] at hc
    rw [hbefore c hc, Bool.not_true]
  rw [lastWord, Text.trimEnd_append hafter hlast, List.reverse_append,
    Text.dropWhile_append hbackwards hrest, Text.takeWhile_append hbackwards hrest,
    List.reverse_reverse, List.reverse_reverse]

theorem of_lastWord (h : lastWord source = (before, word)) : (∀ c ∈ before.getLast?, isBlank c) ∧
    ∃ after, Blanks after ∧ source = before ++ word ++ after := by
  obtain ⟨after, hafter, hsource⟩ := Text.exists_trimEnd source
  obtain ⟨rfl, rfl⟩ := Prod.mk.inj h
  refine ⟨fun c hc => ?_, after, hafter, ?_⟩
  · rw [List.getLast?_reverse] at hc
    simpa using Text.of_mem_head?_dropWhile hc
  · rw [← List.reverse_append, List.takeWhile_append_dropWhile, List.reverse_reverse]
    exact hsource

/-! ## Grouped entries -/

/-- The entry is an expression, `by` and a column, with blanks between them. -/
structure Grouped (source expression column : List Char) : Prop where
  last : ∃ c ∈ expression.getLast?, isBlank c = false
  name : IsWord column
  parts : ∃ before after trailing, Blanks before ∧ before ≠ [] ∧ Blanks after ∧ after ≠ [] ∧
    Blanks trailing ∧ source = expression ++ before ++ ['b', 'y'] ++ after ++ column ++ trailing

/-- A grouping is split off unless the expression has several lines. -/
theorem splitGrouping?_of_grouped (h : Grouped source expression column) :
    splitGrouping? source = if '\n' ∈ expression then none else some (expression, column) := by
  obtain ⟨⟨last, hlast, hblank⟩, hcolumn, before, after, trailing, hbefore, hne, hafter, hne',
      htrailing, rfl⟩ := h
  have hby : ∀ c ∈ ['b', 'y'], isBlank c = false :=
    List.forall_mem_cons.2 ⟨rfl, List.forall_mem_singleton.2 rfl⟩
  have hexpression_ne : expression ≠ [] := by
    rintro rfl
    cases hlast
  have hlastWord : lastWord (expression ++ before ++ ['b', 'y'] ++ after ++ column ++ trailing) =
      (_, column) :=
    lastWord_append (isBlank_of_mem_getLast? hafter hne') hcolumn.isBlank hcolumn.ne_nil htrailing
  have hsecondLast : lastWord (expression ++ before ++ ['b', 'y'] ++ after) = (_, ['b', 'y']) :=
    lastWord_append (isBlank_of_mem_getLast? hbefore hne) hby (List.cons_ne_nil _ _) hafter
  have htrim : Text.trimEnd (expression ++ before) = expression := by
    refine Text.trimEnd_append hbefore fun c hc => ?_
    rw [Option.mem_unique hc hlast, hblank]
  simp only [splitGrouping?, hlastWord, hsecondLast, htrim]
  by_cases hline : '\n' ∈ expression
  · rw [if_pos hline, if_neg fun h => h.2.2.2 hline]
  · rw [if_neg hline, if_pos ⟨isColumnName_iff.2 hcolumn, trivial, hexpression_ne, hline⟩]

/-- What is split is an expression with its grouping. -/
theorem grouped_of_splitGrouping? (h : splitGrouping? source = some (expression, column)) :
    Grouped source expression column := by
  rw [splitGrouping?] at h
  rcases hcolumn : lastWord source with ⟨beforeColumn, word⟩
  rcases hby : lastWord beforeColumn with ⟨beforeBy, by_⟩
  simp only [hcolumn, hby] at h
  split at h
  · next hgrouped =>
    cases h
    obtain ⟨hname, rfl, hne, -⟩ := hgrouped
    obtain ⟨hlast, trailing, htrailing, rfl⟩ := of_lastWord hcolumn
    obtain ⟨hlast', after, hafter, rfl⟩ := of_lastWord hby
    obtain ⟨before, hbefore, hbeforeBy⟩ := Text.exists_trimEnd beforeBy
    obtain ⟨last, hexpression⟩ := Option.ne_none_iff_exists'.1 (mt List.getLast?_eq_none_iff.1 hne)
    have hblank := Text.isBlank_of_mem_getLast?_trimEnd hexpression
    refine ⟨⟨last, hexpression, hblank⟩, isColumnName_iff.1 hname, before, after, trailing, hbefore,
      ?_, hafter, ?_, htrailing, ?_⟩
    · rintro rfl
      rw [hbeforeBy, List.append_nil] at hlast'
      rw [hlast' last hexpression] at hblank
      cases hblank
    · rintro rfl
      exact absurd (hlast 'y' (by simp)) (by decide)
    · rw [← hbeforeBy]
  · cases h

/-- No formula is a grouped entry. -/
theorem Grouped.not_parse (h : Grouped source expression column) (e : Formula.Expr) :
    parse (.ofList source) ≠ .ok e := by
  obtain ⟨-, hcolumn, before, after, trailing, hbefore, hne, hafter, hne', htrailing, rfl⟩ := h
  exact Formula.not_parse_words hbefore hne (by decide) (by decide) hafter hne' hcolumn htrailing

theorem Grouped.trim (h : Grouped source expression column) :
    Grouped (Text.trim source) (Text.trimStart expression) column := by
  obtain ⟨⟨last, hlast, hblank⟩, hcolumn, before, after, trailing, hbefore, hne, hafter, hne',
      htrailing, rfl⟩ := h
  obtain ⟨blanks, hblanks, hexpression⟩ := Text.exists_trimStart expression
  have hstart : Text.trimStart expression ≠ [] := by
    intro hnil
    rw [hexpression, hnil, List.append_nil] at hlast
    rw [hblanks last (List.mem_of_getLast? hlast)] at hblank
    cases hblank
  have hlast' : last ∈ (Text.trimStart expression).getLast? := by
    rwa [← List.getLast?_append_of_ne_nil blanks hstart, ← hexpression]
  have htext :
      Text.IsTrimmed
        (Text.trimStart expression ++ (before ++ (['b', 'y'] ++ (after ++ column)))) := by
    constructor
    · intro c hc
      rw [List.head?_append_of_ne_nil _ hstart] at hc
      exact Text.of_mem_head?_dropWhile hc
    · intro c hc
      simp only [← List.append_assoc] at hc
      rw [List.getLast?_append_of_ne_nil _ hcolumn.ne_nil] at hc
      exact hcolumn.isBlank c (List.mem_of_getLast? hc)
  refine ⟨⟨last, hlast', hblank⟩, hcolumn, before, after, [], hbefore, hne, hafter, hne', nofun, ?_⟩
  have htrim := Text.trim_append hblanks htext htrailing
  rw [← List.append_assoc blanks, ← hexpression] at htrim
  simp only [List.append_assoc, List.append_nil] at htrim ⊢
  exact htrim

/-- An entry with a grouping is split if its expression stands on one line. Otherwise it is taken as
a whole, blanks at its ends apart, and that is no formula. -/
theorem ofText_of_grouped {source : String} (h : Grouped source.toList expression column)
    (name : String) :
    ('\n' ∉ expression → ofText name source = ⟨name, .ofList expression, some (.ofList column)⟩) ∧
      ('\n' ∈ expression → ofText name source = ⟨name, .ofList (Text.trim source.toList), none⟩ ∧
        ∀ e, parse (ofText name source).expression ≠ .ok e) := by
  have hsplit := splitGrouping?_of_grouped h
  constructor
  · intro hline
    rw [ofText, hsplit, if_neg hline]
  · intro hline
    have htext : ofText name source = ⟨name, .ofList (Text.trim source.toList), none⟩ := by
      rw [ofText, hsplit, if_pos hline]
    rw [htext]
    exact ⟨rfl, h.trim.not_parse⟩

theorem ofText_of_grouped_lines :
    ofText "a" "avg(hours) by  project " = ⟨"a", "avg(hours)", some "project"⟩ ∧
      ofText "a" "sum(\nhours) by project" = ⟨"a", "sum(\nhours) by project", none⟩ ∧
      ∀ e, parse "sum(\nhours) by project" ≠ .ok e := by
  have hline : Grouped "avg(hours) by  project ".toList "avg(hours)".toList "project".toList :=
    ⟨⟨')', rfl, rfl⟩, by decide, [' '], [' ', ' '], [' '], by decide, by decide, by decide,
      by decide, by decide, rfl⟩
  have hlines : Grouped "sum(\nhours) by project".toList "sum(\nhours)".toList "project".toList :=
    ⟨⟨')', rfl, rfl⟩, by decide, [' '], [' '], [], by decide, by decide, by decide, by decide,
      by decide, rfl⟩
  have htext := (ofText_of_grouped hline "a").1 (by decide)
  obtain ⟨hwhole, hparse⟩ := (ofText_of_grouped hlines "a").2 (by decide)
  rw [hwhole] at hparse
  exact ⟨htext, hwhole, hparse⟩

/-- An expression on several lines is not split from its grouping. -/
theorem ofText_of_grouped_needs_line :
    ¬∀ (name : String) (expression before after column trailing : List Char),
      (∃ c ∈ expression.getLast?, isBlank c = false) → Blanks before → before ≠ [] → Blanks after →
      after ≠ [] → IsWord column → Blanks trailing →
      ofText name (.ofList (expression ++ before ++ ['b', 'y'] ++ after ++ column ++ trailing)) =
        ⟨name, .ofList expression, some (.ofList column)⟩ := by
  intro h
  have hsum :=
    h "a" "sum(\nhours)".toList [' '] [' '] "project".toList [] ⟨')', rfl, rfl⟩ (by decide)
      (by decide) (by decide) (by decide) (by decide) (by decide)
  exact absurd hsum (by decide +kernel)

/-- A formula is not split, and without the blanks at its ends it is the same formula. -/
theorem ofText_of_parse {source : String} {e : Formula.Expr} (h : parse source = .ok e)
    (name : String) :
    (ofText name source).groupBy = none ∧ parse (ofText name source).expression = .ok e := by
  have hsource : parse (.ofList source.toList) = .ok e := by rwa [String.ofList_toList]
  have hnone : splitGrouping? source.toList = none := by
    refine Option.eq_none_iff_forall_ne_some.2 fun (expression, column) hsplit => ?_
    exact (grouped_of_splitGrouping? hsplit).not_parse e hsource
  obtain ⟨before, after, hbefore, hafter, htrim⟩ := Text.exists_trim source.toList
  rw [htrim] at hsource
  rw [ofText, hnone]
  exact ⟨rfl, Formula.parse_of_blanks hbefore hafter hsource⟩

theorem ofText_of_parse_by :
    let source := " \"x by y\" == by\n"
    let e : Formula.Expr := .binary (.comparison .equal) (.text "x by y") (.identifier "by")
    parse source = .ok e ∧ (ofText "a" source).groupBy = none ∧
      parse (ofText "a" source).expression = .ok e := by
  intro source e
  let quoted : Formula.Token := ⟨.text, "x by y", 1, 9⟩
  let equal : Formula.Token := ⟨.operator, "==", 10, 12⟩
  let name : Formula.Token := ⟨.identifier, "by", 13, 15⟩
  have hlex :
      (Formula.lexFrom 0 source.toList).toOption =
        some ([quoted, equal, name] ++ [.ending 16]) := by
    decide +kernel
  have hequal :
      Formula.Derives (Formula.BinaryOperator.comparison .equal).layer
        ([quoted] ++ equal :: [name]) e :=
    .compared rfl ((Formula.Derives.text rfl).loosen (by decide)) ⟨rfl, rfl⟩
      ((Formula.Derives.identifier rfl).loosen (by decide))
  have hparse : parse source = .ok e := by
    rcases htokens : Formula.lexFrom 0 source.toList with _ | tokens <;> rw [htokens] at hlex
    · cases hlex
    · cases hlex
      rw [← String.ofList_toList (s := source)]
      exact Formula.parse_ofList_eq_ok_iff.2 ⟨_, _, htokens, .tighter hequal⟩
  exact ⟨hparse, ofText_of_parse hparse "a"⟩

end TableDoc.AggregateDefinition
