import Mathlib
import TableDoc.Proofs.Compilation.Shape
import TableDoc.Proofs.Text

/-!
# Line breaks

A text comes to the same result with any of the three line breaks, as long as it has just one of
them, and with line feeds in place of whatever line breaks it has (`compile_lineBreaks`). This rests
on the normal form of texts: it is what two replacements make of a text, one after the other
(`Text.normalize_eq_replace`), and it undoes the replacement of line feeds by another line break
(`Text.normalize_replace`).
-/

namespace TableDoc

namespace Text

/-- The text with every occurrence of `old`, which is not empty, replaced by `new`. Occurrences are
looked for from the left, each behind the one before it. -/
def replace (old new : List Char) : List Char → List Char
  | [] => []
  | c :: cs =>
    if old <+: c :: cs then new ++ replace old new (cs.drop (old.length - 1))
    else c :: replace old new cs
termination_by cs => cs.length
decreasing_by all_goals simp only [List.length_cons, List.length_drop]; omega

variable {c : Char} {cs old new : List Char}

theorem replace_of_prefix (h : old <+: c :: cs) :
    replace old new (c :: cs) = new ++ replace old new (cs.drop (old.length - 1)) := by
  rw [replace, if_pos h]

theorem replace_cons (h : ¬old <+: c :: cs) :
    replace old new (c :: cs) = c :: replace old new cs := by
  rw [replace, if_neg h]

theorem replace_self (a : Char) (new cs : List Char) :
    replace [a] new (a :: cs) = new ++ replace [a] new cs :=
  replace_of_prefix (List.prefix_append [a] cs)

theorem replace_ne {a : Char} (h : c ≠ a) : replace [a] new (c :: cs) = c :: replace [a] new cs :=
  replace_cons fun hprefix => h (List.cons_prefix_cons.1 hprefix).1.symm

theorem notMem_replace {a : Char} (h : a ∉ new) (cs : List Char) : a ∉ replace [a] new cs := by
  induction cs with
  | nil =>
    rw [replace]
    exact List.not_mem_nil
  | cons c cs ih =>
    by_cases hc : c = a
    · subst hc
      rw [replace_self]
      exact List.not_mem_append h ih
    · rw [replace_ne hc]
      exact List.not_mem_cons_of_ne_of_not_mem (Ne.symm hc) ih

/-! ## The normal form -/

/-- The pairs of a carriage return and a line feed are replaced first, then the carriage returns
that are left. -/
theorem normalize_eq_replace (cs : List Char) :
    normalize cs = replace ['\r'] ['\n'] (replace ['\r', '\n'] ['\n'] cs) := by
  fun_induction normalize cs with
  | case1 cs ih =>
    have hpair :
        replace ['\r', '\n'] ['\n'] ('\r' :: '\n' :: cs) = '\n' :: replace ['\r', '\n'] ['\n'] cs :=
      replace_of_prefix (List.prefix_append ['\r', '\n'] cs)
    rw [hpair, replace_ne (by decide), ih]
  | case2 cs hcs ih =>
    have hprefix : ¬['\r', '\n'] <+: '\r' :: cs := by
      rintro ⟨rest, heq⟩
      exact hcs rest (List.cons.inj heq).2.symm
    rw [replace_cons hprefix, replace_self, ih]
    rfl
  | case3 c cs _ hc ih =>
    rw [replace_cons fun h => hc (List.cons_prefix_cons.1 h).1.symm, replace_ne hc, ih]
  | case4 => rw [replace, replace]

/-- The normal form gets back the line feeds that were replaced by another line break. -/
theorem normalize_replace {lineBreak : List Char} (hbreak : lineBreak ∈ [['\r', '\n'], ['\r']])
    (h : '\r' ∉ cs) :
    normalize (replace ['\n'] lineBreak cs) = cs := by
  induction cs with
  | nil =>
    rw [replace]
    rfl
  | cons c cs ih =>
    have ih := ih (List.not_mem_of_not_mem_cons h)
    by_cases hc : c = '\n'
    · subst hc
      rw [replace_self]
      rcases List.mem_pair.1 hbreak with rfl | rfl
      · exact (normalize_pair _).trans (congrArg _ ih)
      · -- the line feeds of the rest are replaced too, so none comes right after this one
        have hfeed : '\n' ∉ replace ['\n'] ['\r'] cs := notMem_replace (by decide) cs
        exact (normalize_return fun hhead => hfeed (List.mem_of_head? hhead)).trans (congrArg _ ih)
    · rw [replace_ne hc, normalize_cons (List.ne_of_not_mem_cons h).symm, ih]

/-- The text with a line feed for each of its line breaks. -/
def normalForm (text : String) : String :=
  .ofList (replace ['\r'] ['\n'] (replace ['\r', '\n'] ['\n'] text.toList))

/-- The text with another line break for each of its line feeds. -/
def withBreaks (lineBreak : List Char) (text : String) : String :=
  .ofList (replace ['\n'] lineBreak text.toList)

theorem toList_normalForm (text : String) : (normalForm text).toList = normalize text.toList := by
  rw [normalForm, String.toList_ofList, normalize_eq_replace]

end Text

/-- A pass that replaces the line breaks of a text again sees the same lines. -/
theorem ofText_normalForm (text : String) :
    Document.ofText (Text.normalForm text) = Document.ofText text := by
  rw [Document.ofText, Document.ofText, Text.toList_normalForm,
    Text.normalize_of_notMem (Text.return_notMem_normalize text.toList)]

theorem ofText_withBreaks {text : String} {lineBreak : List Char}
    (hbreak : lineBreak ∈ [['\r', '\n'], ['\r']]) (h : '\r' ∉ text.toList) :
    Document.ofText (Text.withBreaks lineBreak text) = Document.ofText text := by
  rw [Document.ofText, Document.ofText, Text.withBreaks, String.toList_ofList,
    Text.normalize_replace hbreak h, Text.normalize_of_notMem h]

/-- The lines of a document are those of the normal form of its text. So a text comes to the same as
its normal form, which has no carriage return, and a text without carriage returns comes to the same
as with pairs of a carriage return and a line feed, or carriage returns alone, in place of its line
feeds. -/
theorem compile_lineBreaks [Cell.DateReader] [Yaml.Loader] (text : String) (withFront : Bool) :
    (Document.ofText text).lines = Text.lines (Text.normalForm text).toList ∧
      '\r' ∉ (Text.normalForm text).toList ∧
      compile (.ofText (Text.normalForm text)) withFront = compile (.ofText text) withFront ∧
      ('\r' ∉ text.toList → Text.normalForm text = text ∧ ∀ lineBreak ∈ [['\r', '\n'], ['\r']],
        compile (.ofText (Text.withBreaks lineBreak text)) withFront =
          compile (.ofText text) withFront) := by
  have hnormal := Text.toList_normalForm text
  refine ⟨?_, ?_, ?_, fun h => ⟨?_, fun lineBreak hbreak => ?_⟩⟩
  · rw [hnormal, Document.ofText]
  · rw [hnormal]
    exact Text.return_notMem_normalize text.toList
  · rw [ofText_normalForm]
  · rw [← String.toList_inj, hnormal, Text.normalize_of_notMem h]
  · rw [ofText_withBreaks hbreak h]

/-- The text of the document with a column that is copied. -/
def copiedText : String := .ofList (Text.unlines copied.lines)

theorem ofText_copiedText : Document.ofText copiedText = copied := by
  rw [Document.ofText, copiedText, String.toList_ofList]
  exact congrArg Document.mk (by decide +kernel)

theorem compile_lineBreaks_copied : '\r' ∉ copiedText.toList ∧
    (compile (.ofText (Text.withBreaks ['\r', '\n'] copiedText)) true).map
        (fun result => result.tables.map fun table => (table.name, table.rows.map Row.columns)) =
      .ok [("t", [["id", "copy"]])] ∧
    (compile (.ofText (Text.withBreaks ['\r'] copiedText)) true).map
        (fun result => result.tables.map fun table => (table.name, table.rows.map Row.columns)) =
      .ok [("t", [["id", "copy"]])] := by
  have hreturn : '\r' ∉ copiedText.toList := by
    rw [copiedText, String.toList_ofList]
    decide +kernel
  obtain ⟨-, -, -, h⟩ := compile_lineBreaks copiedText true
  obtain ⟨-, hbreaks⟩ := h hreturn
  refine ⟨hreturn, ?_, ?_⟩
  · rw [hbreaks _ (by decide), ofText_copiedText, compile_copied]
  · rw [hbreaks _ (by decide), ofText_copiedText, compile_copied]

end TableDoc
