import TableDoc.Proofs.Formula.Surroundings

/-!
# Blanks between lexemes

A `Spacing` is a list of lexemes with blanks before, between and after them. Every text that can be
read is the text of one, and its tokens are the lexemes where they stand
(`exists_spacing_of_lexFrom`). Conversely, lexemes that blanks keep apart are read back, and which
blanks these are does not matter for the formula (`lex_spacing`).
-/

namespace TableDoc.Formula

open Lexeme (Apart)

/-- Lexemes among blanks. -/
structure Spacing where
  /-- What stands before the first lexeme. -/
  margin : List Char
  /-- The lexemes, each with what stands after it. -/
  items : List (Lexeme × List Char)
  isSpace_margin : ∀ c ∈ margin, isSpace c
  isSpace_gap : ∀ item ∈ items, ∀ c ∈ item.2, isSpace c

namespace Spacing

def lexemes (s : Spacing) : List Lexeme := s.items.map Prod.fst

/-- Lexemes and what stands after each. -/
def textOf (items : List (Lexeme × List Char)) : List Char :=
  items.flatMap fun item => item.1.written ++ item.2

def text (s : Spacing) : List Char := s.margin ++ textOf s.items

/-- The tokens of lexemes, the first of which starts at `offset`. -/
def tokensFrom (offset : Nat) : List (Lexeme × List Char) → List Token
  | [] => []
  | (l, gap) :: items =>
    l.toToken offset :: tokensFrom (offset + Text.byteLength l.written + Text.byteLength gap) items

def tokens (s : Spacing) : List Token := tokensFrom (Text.byteLength s.margin) s.items

/-- A blank stands between any two lexemes. -/
def Separated (s : Spacing) : Prop := ∀ item ∈ s.items.dropLast, item.2 ≠ []

variable {l : Lexeme} {gap : List Char} {items : List (Lexeme × List Char)}

theorem textOf_cons (l : Lexeme) (gap : List Char) (items : List (Lexeme × List Char)) :
    textOf ((l, gap) :: items) = l.written ++ (gap ++ textOf items) := by
  rw [textOf, List.flatMap_cons, List.append_assoc]
  rfl

/-- The tokens say what the lexemes say. -/
theorem said_tokensFrom (offset : Nat) (items : List (Lexeme × List Char)) :
    (tokensFrom offset items).map Token.said = (items.map Prod.fst).map Lexeme.said := by
  induction items generalizing offset with
  | nil => rfl
  | cons item items ih => exact congrArg _ (ih _)

theorem alike_of_lexemes_eq {s s' : Spacing} (h : s'.lexemes = s.lexemes) :
    Alike s'.tokens s.tokens := by
  rw [Alike, tokens, tokens, said_tokensFrom, said_tokensFrom]
  exact congrArg _ h

theorem kind_ne_ending_of_mem {offset : Nat} (h : ∀ item ∈ items, item.1.kind ≠ .ending) :
    ∀ t ∈ tokensFrom offset items, t.kind ≠ .ending := by
  induction items generalizing offset with
  | nil => nofun
  | cons item items ih =>
    obtain ⟨hitem, hitems⟩ := List.forall_mem_cons.1 h
    exact List.forall_mem_cons.2 ⟨hitem, ih hitems⟩

end Spacing

open Spacing (textOf tokensFrom)

/-! ## What is read is spaced -/

theorem exists_spacing_of_lexFrom {cs : List Char} {offset : Nat} {tokens : List Token}
    (h : lexFrom offset cs = .ok tokens) :
    ∃ s : Spacing, s.text = cs ∧ (∀ l ∈ s.lexemes, l.IsWritten) ∧
      tokens = tokensFrom (offset + Text.byteLength s.margin) s.items ++
        [.ending (offset + Text.byteLength cs)] := by
  fun_induction lexFrom offset cs generalizing tokens with
  | case1 offset =>
    cases h
    exact ⟨⟨[], [], List.forall_mem_nil _, List.forall_mem_nil _⟩, rfl, List.forall_mem_nil _, rfl⟩
  | case2 offset c cs hspace ih =>
    obtain ⟨s, rfl, hs, rfl⟩ := ih h
    refine ⟨⟨c :: s.margin, s.items, ?_, s.isSpace_gap⟩, rfl, hs, ?_⟩
    · exact List.forall_mem_cons.2 ⟨hspace, s.isSpace_margin⟩
    · rw [Text.byteLength_cons, Text.byteLength_cons, Nat.add_assoc, Nat.add_assoc]
  | case3 => cases h
  | case4 offset c cs hspace l rest hread ih =>
    obtain ⟨tokens, htokens, h⟩ := bind_eq_ok_iff.1 h
    cases h
    obtain ⟨s, rfl, hs, rfl⟩ := ih htokens
    refine ⟨⟨[], (l, s.margin) :: s.items, List.forall_mem_nil _, ?_⟩, ?_, ?_, ?_⟩
    · exact List.forall_mem_cons.2 ⟨s.isSpace_margin, s.isSpace_gap⟩
    · rw [Lexeme.read_eq hread]
      exact Spacing.textOf_cons l s.margin s.items
    · exact List.forall_mem_cons.2 ⟨Lexeme.isWritten_of_read hread, hs⟩
    · rw [Lexeme.read_eq hread, Text.byteLength_append, ← Nat.add_assoc]
      rfl

/-! ## What is spaced is read -/

theorem lexFrom_spaces {gap : List Char} (h : ∀ c ∈ gap, isSpace c) (offset : Nat)
    (rest : List Char) :
    lexFrom offset (gap ++ rest) = lexFrom (offset + Text.byteLength gap) rest := by
  induction gap generalizing offset with
  | nil => rfl
  | cons c gap ih =>
    obtain ⟨hc, hgap⟩ := List.forall_mem_cons.1 h
    rw [List.cons_append, lexFrom_space hc, ih hgap, Text.byteLength_cons, Nat.add_assoc]

theorem apart_append {gap rest : List Char} (h : ∀ c ∈ gap, isSpace c)
    (hne : gap = [] → rest = []) :
    Apart (gap ++ rest) := by
  cases gap with
  | nil =>
    obtain rfl := hne rfl
    exact Lexeme.apart_nil
  | cons c gap => exact Lexeme.apart_cons (h c List.mem_cons_self)

/-- Spaced lexemes are read back one after another. -/
theorem lexFrom_textOf {items : List (Lexeme × List Char)} (hl : ∀ item ∈ items, item.1.Spelled)
    (hgap : ∀ item ∈ items, ∀ c ∈ item.2, isSpace c) (hsep : ∀ item ∈ items.dropLast, item.2 ≠ [])
    (offset : Nat) :
    lexFrom offset (textOf items) =
      .ok (tokensFrom offset items ++ [.ending (offset + Text.byteLength (textOf items))]) := by
  induction items generalizing offset with
  | nil => rw [textOf, List.flatMap_nil, lexFrom]; rfl
  | cons item items ih =>
    obtain ⟨l, gap⟩ := item
    obtain ⟨hl, hls⟩ := List.forall_mem_cons.1 hl
    obtain ⟨hgap, hgaps⟩ := List.forall_mem_cons.1 hgap
    have hrest : gap = [] → textOf items = [] := by
      rintro rfl
      cases items with
      | nil => rfl
      | cons next items => exact absurd rfl (hsep _ List.mem_cons_self)
    have hsep' : ∀ item ∈ items.dropLast, item.2 ≠ [] := by
      cases items with
      | nil => exact List.forall_mem_nil _
      | cons next items => exact (List.forall_mem_cons.1 hsep).2
    rw [Spacing.textOf_cons, lexFrom_spelled hl (apart_append hgap hrest), lexFrom_spaces hgap,
      ih hls hgaps hsep', Text.byteLength_append, Text.byteLength_append, ← Nat.add_assoc,
      ← Nat.add_assoc]
    rfl

/-- A text of spaced lexemes has their tokens. -/
theorem lex_text {s : Spacing} (hl : ∀ l ∈ s.lexemes, l.Spelled) (hs : s.Separated) :
    lex (.ofList s.text) = .ok (s.tokens ++ [.ending (Text.byteLength s.text)]) := by
  have hitems :=
    lexFrom_textOf (List.forall_mem_map.1 hl) s.isSpace_gap hs (Text.byteLength s.margin)
  rw [lex, String.toList_ofList, Spacing.text, lexFrom_spaces s.isSpace_margin, Nat.zero_add,
    hitems, Text.byteLength_append]
  rfl

/-- A text of spaced lexemes is parsed as its tokens are derived. -/
theorem parse_text_eq_ok_iff {s : Spacing} {e : Expr} (hl : ∀ l ∈ s.lexemes, l.Spelled)
    (hs : s.Separated) :
    parse (.ofList s.text) = .ok e ↔ Derives .logic s.tokens e := by
  have hlex := lex_text hl hs
  rw [lex, String.toList_ofList] at hlex
  rw [parse_ofList_eq_ok_iff, hlex]
  constructor
  · rintro ⟨ts, stop, heq, hd⟩
    obtain ⟨rfl, -⟩ := List.append_inj' (Except.ok.inj heq) rfl
    exact hd
  · exact fun hd => ⟨_, _, rfl, hd⟩

/-- Lexemes with blanks between them are read one by one, and the formula does not depend on the
blanks. -/
theorem lex_spacing (s : Spacing) (hl : ∀ l ∈ s.lexemes, l.Spelled) (hs : s.Separated) :
    lex (.ofList s.text) = .ok (s.tokens ++ [.ending (Text.byteLength s.text)]) ∧
    ∀ s' : Spacing, s'.lexemes = s.lexemes → s'.Separated → Alike s'.tokens s.tokens ∧
      ∀ e, parse (.ofList s'.text) = .ok e ↔ parse (.ofList s.text) = .ok e := by
  refine ⟨lex_text hl hs, fun s' hlexemes hs' => ?_⟩
  have halike := Spacing.alike_of_lexemes_eq hlexemes
  refine ⟨halike, fun e => ?_⟩
  rw [parse_text_eq_ok_iff hl hs, parse_text_eq_ok_iff (hlexemes ▸ hl) hs']
  exact ⟨fun hd => hd.of_alike _ halike.symm, fun hd => hd.of_alike _ halike⟩

/-- A comparison with a quote, among other blanks. -/
theorem lex_spacing_comparison :
    let half : Lexeme := .verbatim .number ['.', '5']
    let equal : Lexeme := .verbatim .operator ['=', '=']
    let quote : Lexeme := .quotation ['\x22']
    let s : Spacing :=
      ⟨[], [(half, [' ']), (equal, ['\t', '\n']), (quote, [])], by simp, by simp [isSpace]⟩
    let s' : Spacing :=
      ⟨['\r'], [(half, ['\n']), (equal, [' ']), (quote, [' '])], by simp [isSpace],
        by simp [isSpace]⟩
    ((∀ l ∈ s.lexemes, l.Spelled) ∧ s.Separated ∧ s'.lexemes = s.lexemes ∧ s'.Separated) ∧
    lex ".5 ==\t\n\"\\\"\"" =
      .ok [⟨.number, ".5", 0, 2⟩, ⟨.operator, "==", 3, 5⟩, ⟨.text, "\"", 7, 11⟩, .ending 11] ∧
    ∀ e, parse "\r.5\n== \"\\\"\" " = .ok e ↔ parse ".5 ==\t\n\"\\\"\"" = .ok e := by
  intro half equal quote s s'
  have hl : ∀ l ∈ s.lexemes, l.Spelled := by
    refine List.forall_mem_cons.2 ⟨.fraction (by decide),
      List.forall_mem_cons.2 ⟨.longOperator rfl, ?_⟩⟩
    exact List.forall_mem_singleton.2 (.quotation _)
  have hs : s.Separated := by
    unfold Spacing.Separated
    decide
  have hs' : s'.Separated := by
    unfold Spacing.Separated
    decide
  obtain ⟨hlex, hparse⟩ := lex_spacing s hl hs
  exact ⟨⟨hl, hs, rfl, hs'⟩, hlex, (hparse s' rfl hs').2⟩

end TableDoc.Formula
