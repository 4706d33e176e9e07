import TableDoc.Proofs.Formula.Spacing

/-!
# Nothing is lost between the text and its tokens

A text that can be read consists of its tokens, as they are written, and blanks (`Lossless`,
`lex_lossless`). A text with a brace outside of quotes cannot be read, where `Quoting` says from the
characters alone whether quotes are open.
-/

namespace TableDoc.Formula

/-! ## Open quotes -/

/-- Whether a text in quotes is open, and whether its next character is escaped. -/
inductive Quoting where
  | outside
  | inside
  | escaped

def Quoting.next : Quoting → Char → Quoting
  | outside, c => if c = '\x22' then inside else outside
  | inside, c => if c = '\x22' then outside else if c = '\\' then escaped else inside
  | escaped, _ => inside

def Quoting.after (q : Quoting) (cs : List Char) : Quoting := cs.foldl next q

/-- No quotes are open after the text. -/
def Unquoted (cs : List Char) : Prop := Quoting.outside.after cs = .outside

variable {c : Char} {cs ds text before rest : List Char} {l : Lexeme}

theorem Quoting.after_append (q : Quoting) (cs ds : List Char) :
    q.after (cs ++ ds) = (q.after cs).after ds :=
  List.foldl_append

theorem Quoting.inside_after_cons (hquote : c ≠ '\x22') (hbackslash : c ≠ '\\') :
    inside.after (c :: cs) = inside.after cs := by
  rw [after, List.foldl_cons, next, if_neg hquote, if_neg hbackslash]
  rfl

theorem Unquoted.append_iff (h : Unquoted cs) : Unquoted (cs ++ ds) ↔ Unquoted ds := by
  rw [Unquoted, Quoting.after_append, h]
  rfl

theorem unquoted_of_notMem (h : '\x22' ∉ cs) : Unquoted cs := by
  induction cs with
  | nil => rfl
  | cons c cs ih =>
    have hstep : Quoting.next .outside c = .outside := if_neg fun hc =>
      h (by rw [hc]; exact List.mem_cons_self)
    rw [Unquoted, Quoting.after, List.foldl_cons, hstep]
    exact ih (List.not_mem_of_not_mem_cons h)

theorem unquoted_of_spaces (h : ∀ c ∈ cs, isSpace c) : Unquoted cs :=
  unquoted_of_notMem fun hmem => absurd (h _ hmem) (by decide)

theorem Unescapes.after_inside (h : Unescapes cs text) : Quoting.inside.after cs = .inside := by
  induction h with
  | nil => rfl
  | plain hquote hbackslash _ ih => exact (Quoting.inside_after_cons hquote hbackslash).trans ih
  | lineFeed _ ih | tab _ ih | escaped _ _ _ ih => exact ih

/-- Quotes stay open while what is between them goes on. -/
theorem Unescapes.after_prefix (h : Unescapes cs text) (hbefore : before <+: cs) :
    Quoting.inside.after before ≠ .outside := by
  induction h generalizing before with
  | nil =>
    obtain rfl := List.prefix_nil.1 hbefore
    nofun
  | plain hquote hbackslash _ ih =>
    rcases List.prefix_cons_iff.1 hbefore with rfl | ⟨init, rfl, hinit⟩
    · nofun
    · rw [Quoting.inside_after_cons hquote hbackslash]
      exact ih hinit
  | lineFeed _ ih | tab _ ih | escaped _ _ _ ih =>
    rcases List.prefix_cons_iff.1 hbefore with rfl | ⟨_, rfl, htail⟩
    · nofun
    rcases List.prefix_cons_iff.1 htail with rfl | ⟨init, rfl, hinit⟩
    · nofun
    · change Quoting.inside.after init ≠ .outside
      exact ih hinit

/-! ## Characters of lexemes -/

/-- Only a quotation has quotes or braces in it. -/
theorem Token.Kind.Writes.notMem {kind : Token.Kind} (h : kind.Writes cs)
    (hc : c = '\x22' ∨ c = '\x7b') :
    c ∉ cs := by
  have hdigit : ¬c.isDigit := by rcases hc with rfl | rfl <;> decide
  have hpart : ¬isWordPart c := by rcases hc with rfl | rfl <;> decide
  have hmark : c ∉ Lexeme.marks := by rcases hc with rfl | rfl <;> decide
  have hbooleans : ∀ cs ∈ ["true", "false"].map String.toList, '\x22' ∉ cs ∧
      '\x7b' ∉ cs := by decide
  have hoperators : ∀ cs ∈ operatorSymbols.map String.toList, '\x22' ∉ cs ∧ '\x7b' ∉ cs := by decide
  have ne_mark {d : Char} (hd : d ∈ Lexeme.marks) : c ∉ [d] :=
    fun hmem => hmark (List.mem_singleton.1 hmem ▸ hd)
  intro hmem
  cases kind with
  | number =>
    rcases h with h | ⟨whole, places, hwhole, hplaces, rfl⟩
    · exact hdigit (h.2 c hmem)
    rcases List.mem_append.1 hmem with hmem | hmem
    · exact hdigit (hwhole c hmem)
    rcases List.mem_cons.1 hmem with rfl | hmem
    · exact hmark (by decide)
    · exact hdigit (hplaces.2 c hmem)
  | identifier => exact hpart (h.1.isWordPart c hmem)
  | boolean =>
    rcases hc with rfl | rfl
    · exact (hbooleans cs h).1 hmem
    · exact (hbooleans cs h).2 hmem
  | operator =>
    rcases hc with rfl | rfl
    · exact (hoperators cs h).1 hmem
    · exact (hoperators cs h).2 hmem
  | text | ending => exact h.elim
  | _ =>
    cases h
    exact ne_mark (by decide) hmem

namespace Lexeme

/-- After a lexeme no quotation is open. -/
theorem IsWritten.unquoted (h : l.IsWritten) : Unquoted l.written := by
  cases h with
  | verbatim h => exact unquoted_of_notMem (h.notMem (.inl rfl))
  | @quoted cs text h =>
    have hquote : Quoting.outside.after ['\x22'] = .inside := rfl
    change Quoting.outside.after (['\x22'] ++ (cs ++ ['\x22'])) = .outside
    rw [Quoting.after_append, Quoting.after_append, hquote, h.after_inside]
    rfl

/-- A brace in a lexeme is between quotes. -/
theorem IsWritten.of_brace (h : l.IsWritten) (hl : l.written = before ++ '\x7b' :: rest) :
    l.kind = .text ∧ before ≠ [] ∧ rest ≠ [] ∧ ¬Unquoted before := by
  cases h with
  | @verbatim kind cs h =>
    have hmem : '\x7b' ∈ cs := by
      rw [show cs = _ from hl]
      exact List.mem_append_right _ List.mem_cons_self
    exact absurd hmem (h.notMem (.inr rfl))
  | @quoted cs text h =>
    rcases before with _ | ⟨c, before⟩
    · cases hl
    obtain ⟨rfl, htail⟩ : '\x22' = c ∧ cs ++ ['\x22'] = before ++ '\x7b' :: rest := List.cons.inj hl
    rcases Text.append_eq_append_cons htail with ⟨inner, rfl, rfl⟩ | ⟨inner, -, hinner⟩
    · exact ⟨rfl, List.cons_ne_nil _ _, List.append_ne_nil_of_right_ne_nil _ nofun,
        h.after_prefix ⟨_, rfl⟩⟩
    · rcases inner with _ | ⟨_, _ | _⟩ <;> cases hinner

end Lexeme

/-! ## Tokens and characters of a text that is read -/

/-- The character after a text is part of a lexeme with a token, and no quotes are open where the
lexeme starts. -/
inductive Within (ts : List Token) : List Char → Char → Prop
  | intro {l : Lexeme} {front first rest : List Char} {c : Char} :
    l.IsWritten → l.written = first ++ c :: rest →
    Unquoted front → l.toToken (Text.byteLength front) ∈ ts → Within ts (front ++ first) c

variable {ts : List Token} {t : Token}

theorem Within.mono {us : List Token} (h : Within ts before c) (hsub : ts ⊆ us) :
    Within us before c := by
  obtain ⟨hl, hwritten, hfront, ht⟩ := h
  exact .intro hl hwritten hfront (hsub ht)

/-- What is within a token is covered by it. -/
theorem Within.exists_covering (h : Within ts before c) :
    ∃ t ∈ ts, t.start ≤ Text.byteLength before ∧ Text.byteLength before < t.stop := by
  obtain ⟨-, hwritten, -, ht⟩ := h
  refine ⟨_, ht, ?_⟩
  simp only [Lexeme.toToken, hwritten, Text.byteLength_append, Text.byteLength_cons]
  have hc := c.utf8Size_pos
  omega

/-- A brace within a token is in a quotation. -/
theorem Within.brace (h : Within ts before '\x7b') : ¬Unquoted before ∧
    ∃ t ∈ ts, t.kind = .text ∧ t.start < Text.byteLength before ∧
      Text.byteLength before + 1 < t.stop := by
  obtain ⟨hl, hwritten, hfront, ht⟩ := h
  obtain ⟨hkind, hfirst, hrest, hquotes⟩ := hl.of_brace hwritten
  refine ⟨fun h => hquotes (hfront.append_iff.1 h), _, ht, hkind, ?_⟩
  simp only [Lexeme.toToken, hwritten, Text.byteLength_append, Text.byteLength_cons]
  have hbrace : '\x7b'.utf8Size = 1 := rfl
  have hbefore := Text.byteLength_pos hfirst
  have hafter := Text.byteLength_pos hrest
  omega

namespace Spacing

variable {items : List (Lexeme × List Char)} {lead after : List Char}

theorem le_start_of_mem {offset : Nat} (h : t ∈ tokensFrom offset items) : offset ≤ t.start := by
  induction items generalizing offset with
  | nil => cases h
  | cons item items ih =>
    rcases List.mem_cons.1 h with rfl | h
    · exact Nat.le_refl _
    · exact Nat.le_trans (Nat.le_trans (Nat.le_add_right _ _) (Nat.le_add_right _ _)) (ih h)

/-- Tokens follow one another without overlaps. -/
theorem pairwise_tokensFrom (offset : Nat) (items : List (Lexeme × List Char)) :
    (tokensFrom offset items).Pairwise fun t u => t.stop ≤ u.start := by
  induction items generalizing offset with
  | nil => exact .nil
  | cons item items ih =>
    exact .cons (fun t ht => Nat.le_trans (Nat.le_add_right _ _) (le_start_of_mem ht)) (ih _)

/-- A token stands where its lexeme is written. -/
theorem exists_of_mem_tokensFrom (h : t ∈ tokensFrom (Text.byteLength lead) items) :
    ∃ item ∈ items, ∃ before after, lead ++ textOf items = before ++ item.1.written ++ after ∧
      t = item.1.toToken (Text.byteLength before) := by
  induction items generalizing lead with
  | nil => cases h
  | cons item items ih =>
    rcases List.mem_cons.1 h with rfl | h
    · exact ⟨item, List.mem_cons_self, lead, item.2 ++ textOf items,
        by rw [textOf_cons, List.append_assoc], rfl⟩
    · rw [← Text.byteLength_append, ← Text.byteLength_append] at h
      obtain ⟨found, hfound, before, after, htext, ht⟩ := ih h
      refine ⟨found, List.mem_cons_of_mem _ hfound, before, after, ?_, ht⟩
      rw [← htext, textOf_cons, List.append_assoc, List.append_assoc]

/-- Each character of a text is a space between the lexemes, or within one of their tokens. -/
theorem isSpace_or_within (hl : ∀ item ∈ items, item.1.IsWritten)
    (hgap : ∀ item ∈ items, ∀ c ∈ item.2, isSpace c) (hlead : Unquoted lead)
    (h : textOf items = before ++ c :: after) :
    isSpace c ∨ Within (tokensFrom (Text.byteLength lead) items) (lead ++ before) c := by
  induction items generalizing lead before with
  | nil => cases before <;> cases h
  | cons item items ih =>
    obtain ⟨l, gap⟩ := item
    obtain ⟨hl, hls⟩ := List.forall_mem_cons.1 hl
    obtain ⟨hgap, hgaps⟩ := List.forall_mem_cons.1 hgap
    rw [textOf_cons] at h
    rcases Text.append_eq_append_cons h with ⟨rest, hrest, -⟩ | ⟨tail, rfl, htail⟩
    · exact .inr (.intro hl hrest hlead List.mem_cons_self)
    rcases Text.append_eq_append_cons htail with ⟨rest, rfl, -⟩ | ⟨last, rfl, hlast⟩
    · exact .inl (hgap c (List.mem_append_right _ List.mem_cons_self))
    have hwritten : Unquoted (lead ++ l.written) := hlead.append_iff.2 hl.unquoted
    have hlead' : Unquoted (lead ++ l.written ++ gap) :=
      hwritten.append_iff.2 (unquoted_of_spaces hgap)
    refine (ih hls hgaps hlead' hlast).imp_right fun hwithin => ?_
    rw [Text.byteLength_append, Text.byteLength_append, List.append_assoc, List.append_assoc]
      at hwithin
    exact hwithin.mono (List.subset_cons_self _ _)

end Spacing

/-- The text consists of the tokens, as they are written, and blanks. -/
structure Lossless (cs : List Char) (ts : List Token) : Prop where
  /-- Each token stands in the text as it is written. -/
  written : ∀ t ∈ ts, ∃ (before : List Char) (l : Lexeme) (after : List Char),
    cs = before ++ l.written ++ after ∧ l.IsWritten ∧ t = l.toToken (Text.byteLength before)
  start_lt_stop : ∀ t ∈ ts, t.start < t.stop
  ordered : ts.Pairwise fun t u => t.stop ≤ u.start
  /-- What no token covers is a blank. -/
  blank : ∀ before c after, cs = before ++ c :: after →
    isSpace c ∨ ∃ t ∈ ts, t.start ≤ Text.byteLength before ∧ Text.byteLength before < t.stop
  /-- A brace stands between the quotes of a text. -/
  brace : ∀ before after, cs = before ++ '\x7b' :: after → ¬Unquoted before ∧
    ∃ t ∈ ts, t.kind = .text ∧ t.start < Text.byteLength before ∧
      Text.byteLength before + 1 < t.stop

/-- Spaced lexemes have tokens that lose nothing of the text. -/
theorem Spacing.lossless {s : Spacing} (hl : ∀ l ∈ s.lexemes, l.IsWritten) :
    Lossless s.text s.tokens := by
  have hitems : ∀ item ∈ s.items, item.1.IsWritten := List.forall_mem_map.1 hl
  have hwritten : ∀ t ∈ s.tokens, ∃ (before : List Char) (l : Lexeme) (after : List Char),
      s.text = before ++ l.written ++ after ∧ l.IsWritten ∧
      t = l.toToken (Text.byteLength before) := by
    intro t ht
    obtain ⟨item, hitem, before, after, htext, rfl⟩ := exists_of_mem_tokensFrom ht
    exact ⟨before, item.1, after, htext, hitems item hitem, rfl⟩
  have hwithin {before after : List Char} {c : Char} (h : s.text = before ++ c :: after) :
      isSpace c ∨ Within s.tokens before c := by
    rcases Text.append_eq_append_cons h with ⟨rest, hrest, -⟩ | ⟨tail, rfl, htail⟩
    · exact .inl (s.isSpace_margin c (hrest ▸ List.mem_append_right _ List.mem_cons_self))
    · exact isSpace_or_within hitems s.isSpace_gap (unquoted_of_spaces s.isSpace_margin) htail
  exact {
    written := hwritten
    start_lt_stop := by
      intro t ht
      obtain ⟨before, l, after, -, hl, rfl⟩ := hwritten t ht
      exact Nat.lt_add_of_pos_right (Text.byteLength_pos hl.written_ne_nil)
    ordered := pairwise_tokensFrom _ _
    blank := fun before c after h => (hwithin h).imp_right Within.exists_covering
    brace := fun before after h => ((hwithin h).resolve_left (by decide)).brace }

/-- What can be read loses nothing, and what has a brace outside of quotes cannot be read. -/
theorem lex_lossless (source : String) :
    (∀ tokens, lex source = .ok tokens → ∃ ts, tokens = ts ++ [.ending source.utf8ByteSize] ∧
      (∀ t ∈ ts, t.kind ≠ .ending) ∧ Lossless source.toList ts) ∧
    ∀ before after, source.toList = before ++ '\x7b' :: after → Unquoted before →
      ∃ e, lex source = .error e := by
  have hok {tokens : List Token} (h : lex source = .ok tokens) : ∃ ts,
      tokens = ts ++ [.ending source.utf8ByteSize] ∧ (∀ t ∈ ts, t.kind ≠ .ending) ∧
      Lossless source.toList ts := by
    obtain ⟨s, htext, hl, rfl⟩ := exists_spacing_of_lexFrom h
    rw [Nat.zero_add, Nat.zero_add, Text.byteLength_toList]
    refine ⟨s.tokens, rfl, Spacing.kind_ne_ending_of_mem ?_, htext ▸ Spacing.lossless hl⟩
    exact fun item hitem => (hl item.1 (List.mem_map_of_mem hitem)).kind_ne_ending
  refine ⟨fun tokens => hok, fun before after hsource hquotes => ?_⟩
  cases h : lex source with
  | error e => exact ⟨e, rfl⟩
  | ok tokens =>
    obtain ⟨ts, -, -, hts⟩ := hok h
    exact absurd hquotes (hts.brace before after hsource).1

/-- Braces in quotes are read, those after a word are not. -/
theorem lex_lossless_braces :
    let ts : List Token :=
      [⟨.identifier, "a", 0, 1⟩, ⟨.operator, "+", 2, 3⟩, ⟨.text, "\x7b\x7b", 4, 8⟩]
    (lex "a + \"\x7b\x7b\"" = .ok (ts ++ [.ending 8]) ∧ Lossless "a + \"\x7b\x7b\"".toList ts) ∧
    Unquoted ['a'] ∧ ∃ e, lex "a\x7b\x7b" = .error e := by
  intro ts
  let s : Spacing := ⟨[], [(.verbatim .identifier ['a'], [' ']), (.verbatim .operator ['+'], [' ']),
    (.quotation ['\x7b', '\x7b'], [])], by simp, by simp [isSpace]⟩
  have hl : ∀ l ∈ s.lexemes, l.Spelled := by
    have hword : IsWord ['a'] := by decide
    refine List.forall_mem_cons.2 ⟨.word hword, List.forall_mem_cons.2 ⟨.shortOperator rfl, ?_⟩⟩
    exact List.forall_mem_singleton.2 (.quotation _)
  have hs : s.Separated := by
    unfold Spacing.Separated
    decide
  have hlex : lex "a + \"\x7b\x7b\"" = .ok (ts ++ [.ending 8]) := lex_text hl hs
  obtain ⟨us, heq, -, hus⟩ := (lex_lossless "a + \"\x7b\x7b\"").1 _ hlex
  obtain ⟨rfl, -⟩ := List.append_inj' heq rfl
  exact ⟨⟨hlex, hus⟩, rfl, (lex_lossless "a\x7b\x7b").2 ['a'] ['\x7b'] rfl rfl⟩

end TableDoc.Formula
