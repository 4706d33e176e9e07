import TableDoc.Proofs.Formula.Boundaries

/-!
# Texts around a formula

Two operands never stand side by side in a formula (`Derives.alternates`), and the last token is no
operator (`Derives.exists_concat`). So no formula ends in two words with blanks between them
(`not_parse_words`). Blanks around a formula do not matter (`parse_of_blanks`), since the places of
tokens do not (`Derives.of_alike`).
-/

namespace TableDoc.Formula

open Text (Blanks isBlank)

/-! ## Tokens side by side -/

variable {layer : Layer} {t : Token} {ts us : List Token} {e : Expr}

/-- The token is a number, a text, a truth value or a name. -/
def Token.isOperand (t : Token) : Bool :=
  t.kind = .number || t.kind = .text || t.kind = .boolean || t.kind = .identifier

/-- No two operands stand side by side. -/
def Alternates (ts : List Token) : Prop := ts.IsChain fun t u => ¬(t.isOperand ∧ u.isOperand)

/-- A token that is no operand can stand between what alternates. -/
theorem Alternates.between (hts : Alternates ts) (ht : t.isOperand = false) (hus : Alternates us) :
    Alternates (ts ++ t :: us) := by
  refine List.isChain_append.2 ⟨hts, List.isChain_cons.2 ⟨fun u _ h => ?_, hus⟩,
    fun u _ v hv h => ?_⟩
  · exact absurd h.1 (by simp [ht])
  · obtain rfl : t = v := Option.some.inj hv
    exact absurd h.2 (by simp [ht])

theorem Joined.alternates {groups : List (List Token)} (h : Joined groups ts)
    (hgroups : ∀ group ∈ groups, Alternates group) : Alternates ts := by
  induction h with
  | nil => exact .nil
  | one => exact hgroups _ List.mem_cons_self
  | cons hcomma _ ih =>
    obtain ⟨hfirst, hgroups⟩ := List.forall_mem_cons.1 hgroups
    exact hfirst.between (by simp [Token.isOperand, hcomma]) (ih hgroups)

/-- In what is derived, no two operands stand side by side. -/
theorem Derives.alternates (h : Derives layer ts e) : Alternates ts := by
  have mark {t : Token} {kind : Token.Kind} (h : t.kind = kind)
      (hk : kind ∉ [.number, .text, .boolean, .identifier]) : t.isOperand = false := by
    rw [Token.isOperand, h]
    simpa [and_assoc] using hk
  induction h with
  | tighter _ ih => exact ih
  | folded _ _ ht _ ihl ihr | compared _ _ ht _ ihl ihr =>
    exact ihl.between (mark ht.1 (by decide)) ihr
  | signed ht _ ih => exact Alternates.between .nil (mark ht.1 (by decide)) ih
  | member _ hdot _ ih => exact ih.between (mark hdot (by decide)) (.singleton _)
  | lookup _ hopening _ hclosing ih ihk =>
    exact (ih.between (mark hopening (by decide)) ihk).between (mark hclosing (by decide)) .nil
  | number | text | boolean | identifier => exact .singleton _
  | @call ts name _ _ _ _ hopening _ hjoined hclosing ih =>
    have hparts : Alternates ts := hjoined.alternates (List.forall_mem_map.2 ih)
    have hfirst := Alternates.between (.singleton name) (mark hopening (by decide)) hparts
    exact hfirst.between (mark hclosing (by decide)) .nil
  | parentheses hopening _ hclosing ih =>
    have hfirst := Alternates.between .nil (mark hopening (by decide)) ih
    exact hfirst.between (mark hclosing (by decide)) .nil

/-- The last token is no operator. -/
theorem Derives.exists_concat (h : Derives layer ts e) :
    ∃ init last, ts = init ++ [last] ∧ last.kind ≠ .operator := by
  have closed {t : Token} {kind : Token.Kind} (init : List Token) (h : t.kind = kind)
      (hk : kind ≠ .operator) : ∃ init' last, init ++ [t] = init' ++ [last] ∧
      last.kind ≠ .operator := ⟨init, t, rfl, h ▸ hk⟩
  have after {rs : List Token} (ls : List Token) (t : Token) :
      (∃ init last, rs = init ++ [last] ∧ last.kind ≠ .operator) →
        ∃ init last, ls ++ t :: rs = init ++ [last] ∧ last.kind ≠ .operator := by
    rintro ⟨init, last, rfl, hlast⟩
    exact ⟨ls ++ t :: init, last, by rw [List.append_assoc, List.cons_append], hlast⟩
  induction h with
  | tighter _ ih => exact ih
  | folded _ _ _ _ _ ih | compared _ _ _ _ _ ih => exact after _ _ ih
  | signed _ _ ih => exact after [] _ ih
  | member _ _ hfield => exact after _ _ (closed [] hfield nofun)
  | lookup _ _ _ hclosing => exact closed _ hclosing nofun
  | number ht | text ht | boolean ht | identifier ht => exact closed [] ht nofun
  | call _ _ _ _ hclosing => exact closed _ hclosing nofun
  | parentheses _ _ hclosing => exact closed _ hclosing nofun

/-- The tokens say the same. -/
def Alike (us ts : List Token) : Prop := us.map Token.said = ts.map Token.said

theorem Alike.append {us ls rs : List Token} (h : Alike us (ls ++ rs)) :
    ∃ ls' rs', us = ls' ++ rs' ∧ Alike ls' ls ∧ Alike rs' rs := by
  rw [Alike, List.map_append, List.map_eq_append_iff] at h
  exact h

theorem Alike.cons {us : List Token} (h : Alike us (t :: ts)) :
    ∃ u vs, us = u :: vs ∧ u.kind = t.kind ∧ u.text = t.text ∧ Alike vs ts := by
  rw [Alike, List.map_cons, List.map_eq_cons_iff] at h
  obtain ⟨u, vs, rfl, hu, hvs⟩ := h
  obtain ⟨hkind, htext⟩ := Prod.mk.inj hu
  exact ⟨u, vs, rfl, hkind, htext, hvs⟩

theorem Alike.singleton {us : List Token} (h : Alike us [t]) :
    ∃ u, us = [u] ∧ u.kind = t.kind ∧ u.text = t.text := by
  obtain ⟨u, vs, rfl, hkind, htext, hvs⟩ := h.cons
  exact ⟨u, by rw [List.map_eq_nil_iff.1 hvs], hkind, htext⟩

/-- Groups of tokens that say the same as others derive the same formulas, if this is known of each
group. -/
theorem Joined.of_alike {parts : List (List Token × Expr)} (h : Joined (parts.map Prod.fst) ts)
    (hus : Alike us ts)
    (hparts : ∀ part ∈ parts, ∀ us, Alike us part.1 → Derives .logic us part.2) :
    ∃ groups : List (List Token × Expr), groups.map Prod.snd = parts.map Prod.snd ∧
      (∀ group ∈ groups, Derives .logic group.1 group.2) ∧ Joined (groups.map Prod.fst) us := by
  induction parts generalizing ts us with
  | nil =>
    cases h
    obtain rfl := List.map_eq_nil_iff.1 hus
    exact ⟨[], rfl, nofun, .nil⟩
  | cons part parts ih =>
    obtain ⟨hpart, hparts⟩ := List.forall_mem_cons.1 hparts
    cases parts with
    | nil =>
      cases h
      exact ⟨[(us, part.2)], rfl, List.forall_mem_singleton.2 (hpart us hus), .one⟩
    | cons next parts =>
      cases h with
      | cons hcomma h =>
      obtain ⟨first, _, rfl, hfirst, hrest⟩ := hus.append
      obtain ⟨comma, rest, rfl, hkind, -, hrest⟩ := hrest.cons
      obtain ⟨groups, hsnd, hgroups, hjoined⟩ := ih h hrest hparts
      refine ⟨(first, part.2) :: groups, congrArg (part.2 :: ·) hsnd, ?_, ?_⟩
      · exact List.forall_mem_cons.2 ⟨hpart first hfirst, hgroups⟩
      cases groups with
      | nil => cases hsnd
      | cons group groups => exact .cons (hkind.trans hcomma) hjoined

/-- The places of tokens do not matter. -/
theorem Derives.of_alike (h : Derives layer ts e) : ∀ us, Alike us ts → Derives layer us e := by
  induction h with
  | tighter _ ih => exact fun us hus => .tighter (ih us hus)
  | folded hop _ ht _ ihl ihr =>
    intro us hus
    obtain ⟨ls, _, rfl, hls, hrest⟩ := hus.append
    obtain ⟨u, rs, rfl, hkind, htext, hrs⟩ := hrest.cons
    exact .folded hop (ihl ls hls) ⟨hkind.trans ht.1, htext.trans ht.2⟩ (ihr rs hrs)
  | compared hop _ ht _ ihl ihr =>
    intro us hus
    obtain ⟨ls, _, rfl, hls, hrest⟩ := hus.append
    obtain ⟨u, rs, rfl, hkind, htext, hrs⟩ := hrest.cons
    exact .compared hop (ihl ls hls) ⟨hkind.trans ht.1, htext.trans ht.2⟩ (ihr rs hrs)
  | signed ht _ ih =>
    intro us hus
    obtain ⟨u, vs, rfl, hkind, htext, hvs⟩ := hus.cons
    exact .signed ⟨hkind.trans ht.1, htext.trans ht.2⟩ (ih vs hvs)
  | member _ hdot hfield ih =>
    intro us hus
    obtain ⟨vs, _, rfl, hvs, hrest⟩ := hus.append
    obtain ⟨dot, _, rfl, hkind, -, hrest⟩ := hrest.cons
    obtain ⟨name, rfl, hname, htext⟩ := hrest.singleton
    exact htext ▸ .member (ih vs hvs) (hkind.trans hdot) (hname.trans hfield)
  | lookup _ hopening _ hclosing ih ihk =>
    intro us hus
    obtain ⟨_, _, rfl, hfirst, hlast⟩ := hus.append
    obtain ⟨vs, _, rfl, hvs, hrest⟩ := hfirst.append
    obtain ⟨opening, ks, rfl, hkind, -, hks⟩ := hrest.cons
    obtain ⟨closing, rfl, hkind', -⟩ := hlast.singleton
    exact .lookup (ih vs hvs) (hkind.trans hopening) (ihk ks hks) (hkind'.trans hclosing)
  | number ht hx =>
    intro us hus
    obtain ⟨u, rfl, hkind, htext⟩ := hus.singleton
    exact .number (hkind.trans ht) (htext.symm ▸ hx)
  | text ht =>
    intro us hus
    obtain ⟨u, rfl, hkind, htext⟩ := hus.singleton
    exact htext ▸ .text (hkind.trans ht)
  | boolean ht =>
    intro us hus
    obtain ⟨u, rfl, hkind, htext⟩ := hus.singleton
    exact htext ▸ .boolean (hkind.trans ht)
  | identifier ht =>
    intro us hus
    obtain ⟨u, rfl, hkind, htext⟩ := hus.singleton
    exact htext ▸ .identifier (hkind.trans ht)
  | call hname hopening _ hjoined hclosing ih =>
    intro us hus
    obtain ⟨_, _, rfl, hfirst, hlast⟩ := hus.append
    obtain ⟨function, _, rfl, hkind, htext, hfirst⟩ := hfirst.cons
    obtain ⟨opening, vs, rfl, hkind', -, hvs⟩ := hfirst.cons
    obtain ⟨closing, rfl, hkind'', -⟩ := hlast.singleton
    obtain ⟨groups, hsnd, hgroups, hjoined'⟩ := hjoined.of_alike hvs ih
    exact htext ▸ hsnd ▸ .call (hkind.trans hname) (hkind'.trans hopening) hgroups hjoined'
      (hkind''.trans hclosing)
  | parentheses hopening _ hclosing ih =>
    intro us hus
    obtain ⟨_, _, rfl, hfirst, hlast⟩ := hus.append
    obtain ⟨opening, vs, rfl, hkind, -, hvs⟩ := hfirst.cons
    obtain ⟨closing, rfl, hkind', -⟩ := hlast.singleton
    exact .parentheses (hkind.trans hopening) (ih vs hvs) (hkind'.trans hclosing)

/-! ## Formulas among blanks and words -/

variable {cs rest before word between last after : List Char}

theorem IsWord.isWordPart (h : IsWord cs) : ∀ c ∈ cs, isWordPart c := by
  cases cs with
  | nil => nofun
  | cons c cs =>
    refine List.forall_mem_cons.2 ⟨?_, fun d hd => ?_⟩
    · rw [Formula.isWordPart, Char.isAlphanum]
      grind [h.1]
    · simpa [Formula.isWordPart] using h.2 d hd

theorem IsWord.ne_nil (h : IsWord cs) : cs ≠ [] := by
  rintro rfl
  exact h

theorem IsWord.isBlank (h : IsWord cs) : ∀ c ∈ cs, Text.isBlank c = false :=
  fun c hc => isBlank_of_isWordPart (h.isWordPart c hc)

theorem IsWord.quote_notMem (h : IsWord cs) : '\x22' ∉ cs :=
  fun hmem => absurd (h.isWordPart _ hmem) (by decide)

/-- What is parsed is derived, up to the only token that is an end. -/
theorem derives_of_parseTokens {stop : Nat} (h : parseTokens (ts ++ [.ending stop]) = .ok e)
    (hts : ∀ t ∈ ts, t.kind ≠ .ending) : Derives .logic ts e := by
  rw [parseTokens_concat] at h
  obtain ⟨⟨whole, rest⟩, hwhole, h⟩ := bind_eq_ok_iff.1 h
  obtain ⟨us, hus, hd, -⟩ := Parser.accepts _ _ (Nat.lt_succ_self _) hwhole
  replace h : (if (Parser.current _ rest).kind = .ending then .ok whole else .error _) =
    Except.ok e := h
  split at h
  · next hrest =>
    cases h
    have hsplit : ts ++ [.ending stop] = us ++ rest := hus
    have hfirst : (ts ++ [Token.ending stop]).takeWhile (·.kind ≠ .ending) = ts :=
      Text.takeWhile_append (fun t ht => decide_eq_true (hts t ht)) (by rintro t ⟨⟩; rfl)
    have hread : (us ++ rest).takeWhile (·.kind ≠ .ending) = us := by
      refine Text.takeWhile_append
        (fun t ht => decide_eq_true (hd.kind_ne_ending t ht)) fun t ht => ?_
      cases rest with
      | nil => cases ht
      | cons first rest =>
        cases ht
        exact decide_eq_false (not_not.2 hrest)
    rwa [← hfirst, hsplit, hread]
  · cases h

/-- A text is a formula if its tokens up to the ending derive one. -/
theorem parse_ofList_eq_ok_iff : parse (.ofList cs) = .ok e ↔
    ∃ ts stop, lexFrom 0 cs = .ok (ts ++ [.ending stop]) ∧ Derives .logic ts e := by
  rw [parse, lex, String.toList_ofList]
  constructor
  · intro h
    obtain ⟨tokens, htokens, h⟩ := bind_eq_ok_iff.1 h
    rw [← List.append_nil cs] at htokens
    obtain ⟨ts, us, hts, hus, rfl, hkind⟩ := exists_of_lexFrom_append detached_nil htokens
    cases lexFrom_of_blanks (List.forall_mem_nil _) hus
    exact ⟨ts, _, hts, derives_of_parseTokens h hkind⟩
  · rintro ⟨ts, stop, hlex, hd⟩
    rw [hlex]
    exact parseTokens_of_derives hd stop

/-- Blanks around a formula do not matter. -/
theorem parse_of_blanks (hbefore : Blanks before) (hafter : Blanks after)
    (h : parse (.ofList (before ++ cs ++ after)) = .ok e) : parse (.ofList cs) = .ok e := by
  obtain ⟨ts, stop, hlex, hd⟩ := parse_ofList_eq_ok_iff.1 h
  rw [List.append_assoc] at hlex
  have hskipped := lexFrom_of_blanks_append hbefore hlex
  rw [Nat.zero_add] at hskipped
  obtain ⟨us, vs, hus, hvs, heq, -⟩ := exists_of_lexFrom_append (detached_of_blanks hafter) hskipped
  cases lexFrom_of_blanks hafter hvs
  obtain ⟨rfl, -⟩ := List.append_inj' heq rfl
  have hback : lexFrom 0 cs = .ok _ := lexFrom_back hus
  rw [List.map_append, List.map_singleton, Token.back_ending] at hback
  exact parse_ofList_eq_ok_iff.2 ⟨_, _, hback, hd.of_alike _ (List.map_map.trans rfl)⟩

/-- A word before a blank is a token of its own. -/
theorem exists_of_lexFrom_word (hword : IsWord word) (hrest : ∀ c ∈ rest.head?, isBlank c)
    {offset : Nat} {tokens : List Token} (h : lexFrom offset (word ++ rest) = .ok tokens) : ∃ t us,
      t.kind = Lexeme.wordKind word ∧ tokens = t :: us ∧
      lexFrom (offset + Text.byteLength word) rest = .ok us := by
  cases word with
  | nil => exact hword.elim
  | cons c cs =>
    obtain ⟨hc, hcs⟩ := List.forall_mem_cons.1 hword.isWordPart
    have hstart : isWordStart c := by simpa [isWordStart] using hword.1
    have hread := Lexeme.read_word hstart hcs fun d hd =>
      eq_false_of_isBlank (hrest d hd) isBlank_of_isWordPart
    rw [List.cons_append, lexFrom_of_read (Lexeme.isSpace_eq_false hstart rfl) hread] at h
    obtain ⟨us, hus, h⟩ := bind_eq_ok_iff.1 h
    cases h
    exact ⟨_, us, rfl, rfl, hus⟩

theorem isOperand_of_wordKind (hkind : t.kind = Lexeme.wordKind word) (hne : t.kind ≠ .operator) :
    t.isOperand := by
  rw [Lexeme.wordKind] at hkind
  split at hkind
  · simp [Token.isOperand, hkind]
  split at hkind
  · exact absurd hkind hne
  · simp [Token.isOperand, hkind]

/-- No formula ends in two words with blanks between them, unless the first of them is an operator.
-/
theorem not_parse_words (hbefore : Blanks before) (hne : before ≠ []) (hword : IsWord word)
    (hkind : Lexeme.wordKind word ≠ .operator) (hbetween : Blanks between) (hne' : between ≠ [])
    (hlast : IsWord last) (hafter : Blanks after) :
    parse (.ofList (cs ++ before ++ word ++ between ++ last ++ after)) ≠ .ok e := by
  intro h
  obtain ⟨ts, stop, hlex, hd⟩ := parse_ofList_eq_ok_iff.1 h
  have hend := detached_of_blanks hafter
  have hrest :=
    Detached.blanks_append hbetween hne' (List.not_mem_append hlast.quote_notMem hend.quote_notMem)
  have hall :=
    Detached.blanks_append hbefore hne (List.not_mem_append hword.quote_notMem hrest.quote_notMem)
  simp only [List.append_assoc] at hlex
  -- the tokens are those of the text before the words, the two words and the end
  obtain ⟨us, words, -, hwords, heq, -⟩ := exists_of_lexFrom_append hall hlex
  obtain ⟨t, second, ht, rfl, hsecond⟩ :=
    exists_of_lexFrom_word hword hrest.head? (lexFrom_of_blanks_append hbefore hwords)
  obtain ⟨u, tail, hu, rfl, htail⟩ :=
    exists_of_lexFrom_word hlast hend.head? (lexFrom_of_blanks_append hbetween hsecond)
  cases lexFrom_of_blanks hafter htail
  obtain ⟨rfl, -⟩ := List.append_inj' (heq.trans (List.append_assoc us [t, u] [_]).symm) rfl
  obtain ⟨init, final, hfinal, hoperator⟩ := hd.exists_concat
  obtain ⟨-, hfinal⟩ := List.append_inj' ((List.append_assoc us [t] [u]).trans hfinal) rfl
  cases hfinal
  obtain ⟨-, hpair, -⟩ := List.isChain_append.1 hd.alternates
  exact List.isChain_pair.1 hpair ⟨isOperand_of_wordKind ht (ht ▸ hkind),
    isOperand_of_wordKind hu hoperator⟩

end TableDoc.Formula
