import Mathlib
import TableDoc.Proofs.Compilation.Places
import TableDoc.Proofs.Document
import TableDoc.Text.Bytes

/-!
# The front section in the text

`compile` takes the front section and the body from the lines of a document. `compileText` cuts the
text instead, at an offset in bytes that it adds up from the lengths of the lines. The offset is
that of the end of a line, so that the cut gives the same front section and a body with the same
lines (`splitFront?_eq`).
-/

namespace TableDoc

namespace Text

/-- A text cut after a number of bytes. There is no such cut inside a character or behind the text.
-/
def splitBytes? (n : Nat) : List Char → Option (List Char × List Char)
  | [] => if n = 0 then some ([], []) else none
  | c :: cs =>
    if n = 0 then some ([], c :: cs)
    else if c.utf8Size ≤ n then
      (splitBytes? (n - c.utf8Size) cs).map fun (before, after) => (c :: before, after)
    else none

theorem byteLength_unlines {ls : List (List Char)} (h : ls ≠ []) :
    (ls.map fun line => byteLength line + 1).sum = byteLength (unlines ls) + 1 := by
  induction ls with
  | nil => exact absurd rfl h
  | cons line ls ih =>
    cases ls with
    | nil =>
      rw [unlines_singleton]
      rfl
    | cons next ls =>
      have hne : next :: ls ≠ [] := List.cons_ne_nil _ _
      rw [List.map_cons, List.sum_cons, ih hne, unlines_cons line hne, byteLength_append,
        byteLength_cons]
      have hnewline : '\n'.utf8Size = 1 := rfl
      omega

theorem splitBytes?_append (before after : List Char) :
    splitBytes? (byteLength before) (before ++ after) = some (before, after) := by
  induction before with
  | nil => cases after <;> rfl
  | cons c before ih =>
    have hpos := Char.utf8Size_pos c
    rw [List.cons_append, splitBytes?, byteLength_cons, if_neg (by omega),
      if_pos (Nat.le_add_right _ _), Nat.add_sub_cancel_left, ih]
    rfl

theorem splitBytes?_of_append {source before after : List Char} (h : before ++ after = source) :
    splitBytes? (min (byteLength before) (byteLength source)) source = some (before, after) := by
  subst h
  rw [byteLength_append, Nat.min_eq_left (Nat.le_add_right _ _)]
  exact splitBytes?_append before after

end Text

/-- The front section of a text, with both its delimiters, and the rest. There is none if the text
has no front section, or if the offset were not between two characters. -/
def splitFront? (source : List Char) : Option (List Char × List Char) := do
  let lines := Text.lines source
  let stop ← Document.frontEnd? ⟨lines⟩
  let offset := ((lines.take (stop + 1)).map fun line => Text.byteLength line + 1).sum - 1
  Text.splitBytes? (min offset (Text.byteLength source)) source

/-- A text is cut at the end of line `stop`, which closes its front section. The first line of the
body is what is left of this line. -/
structure FrontSplit (source : List Char) (stop : Nat) (front body : List Char) : Prop where
  append : front ++ body = source
  frontEnd? : Document.frontEnd? ⟨Text.lines source⟩ = some stop
  closing : (Text.lines source)[stop]? = some Document.delimiter
  front_eq : front = Text.unlines ((Text.lines source).take (stop + 1))
  lines_body : Text.lines body = [] :: (Text.lines source).drop (stop + 1)

/-- Where the lines of a text have a front section, the text can be cut after it, and the cut is the
one that the lines give. -/
theorem splitFront?_eq {source : List Char} {stop : Nat}
    (h : Document.frontEnd? ⟨Text.lines source⟩ = some stop) :
    ∃ front body, splitFront? source = some (front, body) ∧ FrontSplit source stop front body := by
  have hlines : (Text.lines source).take (stop + 1) ≠ [] := by
    simpa [List.take_eq_nil_iff] using Text.lines_ne_nil source
  have happend := Text.unlines_append ((Text.lines source).drop (stop + 1)) hlines
  rw [List.take_append_drop, Text.unlines_lines] at happend
  have hbody : ∀ line ∈ [] :: (Text.lines source).drop (stop + 1), '\n' ∉ line :=
    List.forall_mem_cons.2 ⟨List.not_mem_nil, fun line hline =>
      Text.newline_notMem_of_mem_lines (List.mem_of_mem_drop hline)⟩
  have hsplit : FrontSplit source stop (Text.unlines ((Text.lines source).take (stop + 1)))
      (Text.unlines ([] :: (Text.lines source).drop (stop + 1))) :=
    { append := happend
      frontEnd? := h
      closing := (Document.frontEnd?_eq_some_iff.1 h).2.2.1
      front_eq := rfl
      lines_body := Text.lines_unlines hbody (List.cons_ne_nil _ _) }
  refine ⟨_, _, ?_, hsplit⟩
  rw [splitFront?]
  simp only [h, Option.bind_eq_bind, Option.bind_some, Text.byteLength_unlines hlines,
    Nat.add_sub_cancel]
  exact Text.splitBytes?_of_append happend

example :
    splitFront? "---\nä\n---\n\n---".toList = some ("---\nä\n---".toList, "\n\n---".toList) := by
  decide +kernel

open Compilation

variable [Cell.DateReader] [Yaml.Loader]

/-- What a text comes to, if its front section is cut off before the values are put into the body.
-/
def compileText (text : String) (withFront : Bool) : Except Diagnostic Result := do
  let d := Document.ofText text
  let schema ← Schema.ofDocument d
  let tables ← results schema d
  let some (front, body) := splitFront? (Text.normalize text.toList)
    | throw { code := .frontmatter, message := "Closing --- for frontmatter not found" }
  let body ← interpolate tables schema.frontEnd (Text.lines body)
  return { schema, tables, rendered := .ofList ((if withFront then front else []) ++ body) }

omit [Cell.DateReader] in
theorem exists_splitFront? {text : String} {schema : Schema}
    (h : Schema.ofDocument (.ofText text) = .ok schema) :
    ∃ front body, splitFront? (Text.normalize text.toList) = some (front, body) ∧
      FrontSplit (Text.normalize text.toList) schema.frontEnd front body :=
  splitFront?_eq (Schema.inside_of_ofDocument h).2

theorem compile_of_ofDocument {d : Document} {schema : Schema}
    (h : Schema.ofDocument d = .ok schema) (withFront : Bool) : compile d withFront =
      results schema d >>= fun tables =>
        (interpolate tables schema.frontEnd (d.bodyLines schema.frontEnd)).map fun body =>
          ⟨schema, tables,
            .ofList ((if withFront then d.front schema.frontEnd else []) ++ body)⟩ := by
  rw [compile_eq, h]
  rfl

/-- The failure for a text that cannot be cut never comes up, and the values are put into the same
lines. -/
theorem compileText_eq (text : String) (withFront : Bool) :
    compileText text withFront = compile (.ofText text) withFront := by
  rcases h : Schema.ofDocument (.ofText text) with failure | schema
  · rw [compile_eq, compileText]
    simp only [h]
    rfl
  · obtain ⟨front, body, hsplit, hfront⟩ := exists_splitFront? h
    have hbody : Text.lines body = (Document.ofText text).bodyLines schema.frontEnd :=
      hfront.lines_body
    have heq : front = (Document.ofText text).front schema.frontEnd := hfront.front_eq
    rw [compile_of_ofDocument h, compileText]
    simp only [h, hsplit, hbody, heq]
    change results schema (.ofText text) >>= _ = _
    refine congrArg _ (funext fun tables => ?_)
    rcases interpolate tables schema.frontEnd _ with failure | out <;> rfl

/-- A text fails in the same way with and without its front section, or has the same schema and
tables. Then the text with the front section is just this section more. The section goes up to the
end of the line that closes it, and it is there whenever the schema is; the body is the rest of the
text, and its first line the rest of that line. -/
theorem compile_front (text : String) :
    let source := Text.normalize text.toList
    let d := Document.ofText text
    (∀ schema, Schema.ofDocument d = .ok schema → ∃ front body,
      splitFront? source = some (front, body) ∧ FrontSplit source schema.frontEnd front body) ∧
    (∀ withFront, compileText text withFront = compile d withFront) ∧
    ((∃ failure, compile d true = .error failure ∧ compile d false = .error failure) ∨
      ∃ schema tables front body out, splitFront? source = some (front, body) ∧
        FrontSplit source schema.frontEnd front body ∧
        interpolate tables schema.frontEnd (Text.lines body) = .ok out ∧
        compile d true = .ok ⟨schema, tables, .ofList front ++ .ofList out⟩ ∧
        compile d false = .ok ⟨schema, tables, .ofList out⟩) := by
  intro source d
  refine ⟨fun schema h => exists_splitFront? h, compileText_eq text, ?_⟩
  rcases hschema : Schema.ofDocument d with failure | schema
  · exact .inl ⟨failure, by rw [compile_eq, hschema]; rfl, by rw [compile_eq, hschema]; rfl⟩
  obtain ⟨front, body, hsplit, hfront⟩ := exists_splitFront? hschema
  have hbody : Text.lines body = d.bodyLines schema.frontEnd := hfront.lines_body
  have heq : front = d.front schema.frontEnd := hfront.front_eq
  have hcompile := compile_of_ofDocument hschema
  rcases htables : results schema d with failure | tables <;> rw [htables] at hcompile
  · exact .inl ⟨failure, hcompile true, hcompile false⟩
  have hrendered (withFront : Bool) : compile d withFront =
      (interpolate tables schema.frontEnd (Text.lines body)).map fun out =>
        ⟨schema, tables, .ofList ((if withFront then front else []) ++ out)⟩ := by
    rw [hcompile, hbody, heq]
    rfl
  rcases hout : interpolate tables schema.frontEnd (Text.lines body) with failure | out <;>
    rw [hout] at hrendered
  · exact .inl ⟨failure, hrendered true, hrendered false⟩
  · refine .inr ⟨schema, tables, front, body, out, hsplit, hfront, hout, ?_, hrendered false⟩
    rw [hrendered, ← String.ofList_append]
    rfl

end TableDoc
