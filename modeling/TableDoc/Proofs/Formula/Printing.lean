import TableDoc.Proofs.Formula.Lexemes
import TableDoc.Proofs.Formula.Parsing

/-!
# Printed formulas

`Prints` says which lexemes a formula is printed with: only the parentheses that are needed, and
numbers as any numerals that are read as them. Tokens that say what these lexemes say derive the
formula (`spells_of_prints`), and blanks between the lexemes keep them apart (`lexFrom_spaced`), so
the parser gives the formula back (`parse_printed`).
-/

namespace TableDoc.Formula

/-! ## Formulas in a formula -/

mutual

/-- The formula and all formulas in it. -/
def Expr.subformulas : Expr → List Expr
  | .number x => [.number x]
  | .text s => [.text s]
  | .boolean b => [.boolean b]
  | .identifier name => [.identifier name]
  | .unary op operand => .unary op operand :: operand.subformulas
  | .binary op left right => .binary op left right :: (left.subformulas ++ right.subformulas)
  | .call function arguments => .call function arguments :: Expr.subformulasOfAll arguments
  | .member base field => .member base field :: base.subformulas
  | .lookup table key => .lookup table key :: (table.subformulas ++ key.subformulas)

/-- All formulas in a list of formulas. -/
def Expr.subformulasOfAll : List Expr → List Expr
  | [] => []
  | e :: es => e.subformulas ++ Expr.subformulasOfAll es

end

/-- The name that stands at the top of a formula: of a column or table, a function or a field. -/
def Expr.name? : Expr → Option String
  | .identifier name | .call name _ | .member _ name => some name
  | _ => none

/-- The formula has a binary operator at the top. -/
def Expr.isBinary : Expr → Bool
  | .binary .. => true
  | _ => false

/-- The formula has a sign at the top. -/
def Expr.isUnary : Expr → Bool
  | .unary .. => true
  | _ => false

/-! ## Printing -/

/-- A word that is not taken for a truth value or an operator. -/
def IsName (name : String) : Prop := IsWord name.toList ∧ name ∉ ["true", "false", "and", "or"]

/-- Digits, with or without a point and further digits. -/
def IsNumeral (cs : List Char) : Prop :=
  IsDigits cs ∨ ∃ whole places, IsDigits whole ∧ IsDigits places ∧ cs = whole ++ '.' :: places

/-- An operand of `op` needs parentheses if its operator binds weaker, or equally on the right side,
or if both are comparisons. -/
def Expr.needsParentheses (op : BinaryOperator) (onRight : Bool) : Expr → Bool
  | .binary inner _ _ =>
    inner.power < op.power || (onRight && inner.power = op.power) ||
      (inner.isComparison && op.isComparison)
  | _ => false

/-- Lexemes, in parentheses if they are needed. -/
def enclose (needed : Bool) (ls : List Lexeme) : List Lexeme :=
  if needed then .verbatim .leftParen ['('] :: ls ++ [.verbatim .rightParen [')']] else ls

/-- Lists of lexemes with a comma between any two. -/
def separated : List (List Lexeme) → List Lexeme
  | [] => []
  | [ls] => ls
  | ls :: groups => ls ++ .verbatim .comma [','] :: separated groups

/-- The lexemes are those that the formula is printed with. -/
inductive Prints : Expr → List Lexeme → Prop
  | number : IsNumeral cs → Decimal.read? cs = some x → Prints (.number x) [.verbatim .number cs]
  | text : Prints (.text s) [.quotation s.toList]
  | boolean : Prints (.boolean b) [.verbatim .boolean (if b then "true" else "false").toList]
  | identifier : IsName name → Prints (.identifier name) [.verbatim .identifier name.toList]
  | unary : Prints operand ls →
    Prints (.unary op operand) (.verbatim .operator op.symbol.toList :: enclose operand.isBinary ls)
  | binary : Prints left ls → Prints right rs →
    Prints (.binary op left right) (enclose (left.needsParentheses op false) ls ++
      .verbatim .operator op.symbol.toList :: enclose (right.needsParentheses op true) rs)
  | call {parts : List (Expr × List Lexeme)} :
    IsName function → (∀ part ∈ parts, Prints part.1 part.2) →
    Prints (.call function (parts.map Prod.fst)) (.verbatim .identifier function.toList ::
      .verbatim .leftParen ['('] :: separated (parts.map Prod.snd) ++
        [.verbatim .rightParen [')']])
  | member : Prints base ls → IsName field →
    Prints (.member base field) (enclose (base.isBinary || base.isUnary) ls ++
      [.verbatim .dot ['.'], .verbatim .identifier field.toList])
  | lookup : Prints table ls → Prints key ks →
    Prints (.lookup table key) (enclose (table.isBinary || table.isUnary) ls ++
      .verbatim .leftBracket ['['] :: ks ++ [.verbatim .rightBracket [']']])

/-- The text of lexemes with a blank between any two. -/
def spaced (ls : List Lexeme) : List Char := [' '].intercalate (ls.map Lexeme.written)

/-! ## Printed lexemes are read back -/

theorem IsName.wordKind (h : IsName name) : Lexeme.wordKind name.toList = .identifier := by
  obtain ⟨-, h⟩ := h
  simp only [List.mem_cons, List.not_mem_nil, or_false, not_or] at h
  simp only [Lexeme.wordKind, String.toList_inj]
  rw [if_neg (by simp [h]), if_neg (by simp [h])]

theorem IsName.spelled (h : IsName name) : (Lexeme.verbatim .identifier name.toList).Spelled :=
  h.wordKind ▸ .word h.1

theorem IsNumeral.spelled (h : IsNumeral cs) : (Lexeme.verbatim .number cs).Spelled := by
  rcases h with h | ⟨whole, places, hwhole, hplaces, rfl⟩
  · exact .whole h
  · exact .decimal hwhole hplaces

theorem spelled_word {kind : Token.Kind} {word : List Char} (h : IsWord word)
    (hkind : Lexeme.wordKind word = kind) : (Lexeme.verbatim kind word).Spelled := hkind ▸ .word h

theorem BinaryOperator.spelled (op : BinaryOperator) :
    (Lexeme.verbatim .operator op.symbol.toList).Spelled := by
  match op with
  | .arithmetic op => cases op <;> exact .shortOperator rfl
  | .comparison .less | .comparison .greater => exact .shortOperator rfl
  | .comparison .equal | .comparison .notEqual => exact .longOperator rfl
  | .comparison .lessEqual | .comparison .greaterEqual => exact .longOperator rfl
  | .connective .and => exact spelled_word (by decide) rfl
  | .connective .or => exact spelled_word (by decide) rfl

theorem UnaryOperator.spelled (op : UnaryOperator) :
    (Lexeme.verbatim .operator op.symbol.toList).Spelled := by
  cases op <;> exact .shortOperator rfl

variable {e : Expr} {l : Lexeme} {ls rs : List Lexeme} {ts : List Token}

theorem spelled_enclose {needed : Bool} (h : ∀ l ∈ ls, l.Spelled) :
    ∀ l ∈ enclose needed ls, l.Spelled := by
  cases needed with
  | false => exact h
  | true =>
    refine List.forall_mem_append.2 ⟨List.forall_mem_cons.2 ⟨.delimiter rfl, h⟩, ?_⟩
    exact List.forall_mem_singleton.2 (.delimiter rfl)

theorem spelled_separated {groups : List (List Lexeme)}
    (h : ∀ group ∈ groups, ∀ l ∈ group, l.Spelled) :
    ∀ l ∈ separated groups, l.Spelled := by
  induction groups with
  | nil => nofun
  | cons group groups ih =>
    obtain ⟨hgroup, hgroups⟩ := List.forall_mem_cons.1 h
    cases groups with
    | nil => exact hgroup
    | cons next groups =>
      refine List.forall_mem_append.2 ⟨hgroup, List.forall_mem_cons.2 ⟨.delimiter rfl, ih hgroups⟩⟩

theorem spelled_of_prints (h : Prints e ls) : ∀ l ∈ ls, l.Spelled := by
  induction h with
  | number hcs => exact List.forall_mem_singleton.2 hcs.spelled
  | text => exact List.forall_mem_singleton.2 (.quotation _)
  | @boolean b =>
    refine List.forall_mem_singleton.2 ?_
    cases b
    · exact spelled_word (by decide) rfl
    · exact spelled_word (by decide) rfl
  | identifier hname => exact List.forall_mem_singleton.2 hname.spelled
  | unary _ ih => exact List.forall_mem_cons.2 ⟨UnaryOperator.spelled _, spelled_enclose ih⟩
  | binary _ _ ihl ihr =>
    refine List.forall_mem_append.2 ⟨spelled_enclose ihl, ?_⟩
    exact List.forall_mem_cons.2 ⟨BinaryOperator.spelled _, spelled_enclose ihr⟩
  | call hname _ ih =>
    refine List.forall_mem_append.2 ⟨List.forall_mem_cons.2 ⟨hname.spelled, ?_⟩, ?_⟩
    · exact List.forall_mem_cons.2 ⟨.delimiter rfl, spelled_separated (List.forall_mem_map.2 ih)⟩
    · exact List.forall_mem_singleton.2 (.delimiter rfl)
  | member _ hfield ih =>
    refine List.forall_mem_append.2 ⟨spelled_enclose ih, ?_⟩
    exact List.forall_mem_cons.2 ⟨.delimiter rfl, List.forall_mem_singleton.2 hfield.spelled⟩
  | lookup _ _ iht ihk =>
    refine List.forall_mem_append.2 ⟨List.forall_mem_append.2 ⟨spelled_enclose iht, ?_⟩, ?_⟩
    · exact List.forall_mem_cons.2 ⟨.delimiter rfl, ihk⟩
    · exact List.forall_mem_singleton.2 (.delimiter rfl)

/-- The kind and text of a token. -/
def Token.said (t : Token) : Token.Kind × String := (t.kind, t.text)

/-- The kind and text of the token of a lexeme. -/
def Lexeme.said (l : Lexeme) : Token.Kind × String := (l.kind, .ofList l.text)

theorem lexFrom_spaced (h : ∀ l ∈ ls, l.Spelled) (offset : Nat) :
    ∃ ts stop, lexFrom offset (spaced ls) = .ok (ts ++ [.ending stop]) ∧
      ts.map Token.said = ls.map Lexeme.said := by
  induction ls generalizing offset with
  | nil => exact ⟨[], offset, by rw [spaced, List.map_nil, List.intercalate_nil, lexFrom]; rfl, rfl⟩
  | cons l ls ih =>
    obtain ⟨hl, hls⟩ := List.forall_mem_cons.1 h
    cases ls with
    | nil =>
      refine ⟨[l.toToken offset], offset + Text.byteLength l.written, ?_, rfl⟩
      have hlex := lexFrom_spelled hl Lexeme.apart_nil offset
      rw [List.append_nil, lexFrom] at hlex
      rw [spaced, List.map_singleton, List.intercalate_singleton, hlex]
      rfl
    | cons next ls =>
      obtain ⟨ts, stop, hts, hsaid⟩ := ih hls (offset + Text.byteLength l.written + 1)
      refine ⟨l.toToken offset :: ts, stop, ?_, congrArg _ hsaid⟩
      have hspaced : spaced (l :: next :: ls) = l.written ++ ' ' :: spaced (next :: ls) := by
        rw [spaced, List.map_cons, List.map_cons, List.intercalate_cons_cons, List.append_assoc]
        rfl
      rw [hspaced, lexFrom_spelled hl (Lexeme.apart_cons rfl), lexFrom_space rfl]
      change lexFrom (offset + Text.byteLength l.written + 1) (spaced (next :: ls)) >>= _ = _
      rw [hts]
      rfl

/-! ## Printed formulas are derived -/

/-- The layer of the grammar in which a formula without parentheses stands. -/
def Expr.layer : Expr → Layer
  | .binary op .. => op.layer
  | .unary .. => .unary
  | .member .. | .lookup .. => .suffixed
  | _ => .primary

theorem Layer.le_primary (layer : Layer) : layer.power ≤ primary.power := by
  cases layer <;> decide

theorem Layer.logic_le (layer : Layer) : logic.power ≤ layer.power := by
  cases layer <;> decide

theorem BinaryOperator.layer_le_unary (op : BinaryOperator) :
    op.layer.next.power ≤ Layer.unary.power := by
  rcases op with (_ | _ | _ | _) | op | op <;> exact Nat.le_of_ble_eq_true rfl

theorem Expr.unary_le (h : e.isBinary = false) : Layer.unary.power ≤ e.layer.power := by
  cases e with
  | binary => cases h
  | _ => exact Nat.le_of_ble_eq_true rfl

theorem Expr.suffixed_le (h : (e.isBinary || e.isUnary) = false) :
    Layer.suffixed.power ≤ e.layer.power := by
  cases e with
  | binary | unary => cases h
  | _ => exact Nat.le_of_ble_eq_true rfl

variable {op : BinaryOperator}

theorem Expr.right_le (h : e.needsParentheses op true = false) :
    op.layer.next.power ≤ e.layer.power := by
  cases e with
  | binary inner =>
    simp only [needsParentheses, Bool.or_eq_false_iff, Bool.true_and, decide_eq_false_iff_not] at h
    rw [← op.above_power]
    refine Layer.power_above_le ?_
    rw [layer, inner.power_layer]
    omega
  | _ => exact Nat.le_trans op.layer_le_unary (Nat.le_of_ble_eq_true rfl)

/-- A left operand without parentheses may have an operator of the same power, but no comparison is
chained. -/
theorem Expr.left_le (h : e.needsParentheses op false = false) :
    op.layer.power ≤ e.layer.power ∧
    (op.isComparison = true → op.layer.next.power ≤ e.layer.power) := by
  cases e with
  | binary inner =>
    simp only [needsParentheses, Bool.or_eq_false_iff, Bool.false_and, decide_eq_false_iff_not,
      Bool.and_eq_false_iff] at h
    have hle : op.layer.power ≤ inner.layer.power := by
      rw [inner.power_layer, op.power_layer]
      omega
    refine ⟨hle, fun hop => ?_⟩
    rw [op.isComparison_iff.1 hop] at hle ⊢
    refine Layer.sum_power_le hle fun hinner => ?_
    rw [hop, inner.isComparison_iff.2 hinner] at h
    simp at h
  | _ =>
    refine ⟨?_, fun _ => Nat.le_trans op.layer_le_unary (Nat.le_of_ble_eq_true rfl)⟩
    rw [op.power_layer]
    exact Nat.le_trans op.power_le (Nat.le_of_ble_eq_true rfl)

/-- The tokens say what the lexemes say. -/
def Says (ts : List Token) (ls : List Lexeme) : Prop := ts.map Token.said = ls.map Lexeme.said

theorem Says.append (h : Says ts (ls ++ rs)) :
    ∃ us vs, ts = us ++ vs ∧ Says us ls ∧ Says vs rs := by
  rw [Says, List.map_append, List.map_eq_append_iff] at h
  exact h

theorem Says.cons (h : Says ts (l :: ls)) :
    ∃ t us, ts = t :: us ∧ t.kind = l.kind ∧ t.text = .ofList l.text ∧ Says us ls := by
  rw [Says, List.map_cons, List.map_eq_cons_iff] at h
  obtain ⟨t, us, rfl, ht, hus⟩ := h
  obtain ⟨hkind, htext⟩ := Prod.mk.inj ht
  exact ⟨t, us, rfl, hkind, htext, hus⟩

theorem Says.singleton (h : Says ts [l]) :
    ∃ t, ts = [t] ∧ t.kind = l.kind ∧ t.text = .ofList l.text := by
  obtain ⟨t, us, rfl, hkind, htext, hus⟩ := h.cons
  exact ⟨t, by rw [List.map_eq_nil_iff.1 hus], hkind, htext⟩

/-- The tokens that say what the lexemes say derive the formula in a layer. -/
def Spells (layer : Layer) (ls : List Lexeme) (e : Expr) : Prop :=
  ∀ ts, Says ts ls → Derives layer ts e

theorem Spells.loosen {layer looser : Layer} (h : Spells layer ls e)
    (hl : looser.power ≤ layer.power) :
    Spells looser ls e :=
  fun ts hts => (h ts hts).loosen hl

/-- Parentheses let a formula stand in any layer. -/
theorem Spells.enclose {layer : Layer} {needed : Bool} (h : Spells e.layer ls e)
    (hlayer : needed = false → layer.power ≤ e.layer.power) :
    Spells layer (enclose needed ls) e := by
  cases needed with
  | false => exact h.loosen (hlayer rfl)
  | true =>
    intro ts hts
    obtain ⟨_, _, rfl, hfirst, hlast⟩ := Says.append hts
    obtain ⟨opening, us, rfl, hopening, -, hus⟩ := hfirst.cons
    obtain ⟨closing, rfl, hclosing, -⟩ := hlast.singleton
    have hinner := (h us hus).loosen e.layer.logic_le
    exact (Derives.parentheses hopening hinner hclosing).loosen layer.le_primary

/-- The groups of tokens between the commas derive the formulas. -/
theorem joined_of_separated {parts : List (Expr × List Lexeme)}
    (hts : Says ts (separated (parts.map Prod.snd)))
    (h : ∀ part ∈ parts, Spells .logic part.2 part.1) :
    ∃ groups : List (List Token × Expr), groups.map Prod.snd = parts.map Prod.fst ∧
      (∀ group ∈ groups, Derives .logic group.1 group.2) ∧ Joined (groups.map Prod.fst) ts := by
  induction parts generalizing ts with
  | nil =>
    obtain rfl := List.map_eq_nil_iff.1 hts
    exact ⟨[], rfl, nofun, .nil⟩
  | cons part parts ih =>
    obtain ⟨hpart, hparts⟩ := List.forall_mem_cons.1 h
    cases parts with
    | nil => exact ⟨[(ts, part.1)], rfl, List.forall_mem_singleton.2 (hpart ts hts), .one⟩
    | cons next parts =>
      obtain ⟨us, _, rfl, hus, hrest⟩ := Says.append hts
      obtain ⟨comma, vs, rfl, hcomma, -, hvs⟩ := hrest.cons
      obtain ⟨groups, hfst, hgroups, hjoined⟩ := ih hvs hparts
      refine ⟨(us, part.1) :: groups, congrArg _ hfst,
        List.forall_mem_cons.2 ⟨hpart us hus, hgroups⟩, ?_⟩
      cases groups with
      | nil => cases hfst
      | cons group groups => exact .cons hcomma hjoined

theorem spells_of_prints (h : Prints e ls) : Spells e.layer ls e := by
  induction h with
  | number _ hx =>
    intro ts hts
    obtain ⟨t, rfl, hkind, htext⟩ := hts.singleton
    refine .number hkind ?_
    rw [htext, String.toList_ofList]
    exact hx
  | @text s =>
    intro ts hts
    obtain ⟨t, rfl, hkind, htext⟩ := hts.singleton
    have hs : t.text = s := htext.trans String.ofList_toList
    exact hs ▸ .text hkind
  | @boolean b =>
    intro ts hts
    obtain ⟨t, rfl, hkind, htext⟩ := hts.singleton
    have hb : decide (t.text = "true") = b := by
      rw [htext]
      cases b <;> rfl
    exact hb ▸ .boolean hkind
  | @identifier name =>
    intro ts hts
    obtain ⟨t, rfl, hkind, htext⟩ := hts.singleton
    have hname : t.text = name := htext.trans String.ofList_toList
    exact hname ▸ .identifier hkind
  | unary _ ih =>
    intro ts hts
    obtain ⟨t, us, rfl, hkind, htext, hus⟩ := hts.cons
    exact .signed ⟨hkind, htext.trans String.ofList_toList⟩ (ih.enclose Expr.unary_le us hus)
  | @binary left ls right rs op _ _ ihl ihr =>
    intro ts hts
    obtain ⟨us, _, rfl, hus, hrest⟩ := hts.append
    obtain ⟨t, vs, rfl, hkind, htext, hvs⟩ := hrest.cons
    have ht : t.Spells op.symbol := ⟨hkind, htext.trans String.ofList_toList⟩
    have hright := ihr.enclose Expr.right_le vs hvs
    cases hop : op.isComparison with
    | false => exact .folded hop (ihl.enclose (fun h => (Expr.left_le h).1) us hus) ht hright
    | true => exact .compared hop (ihl.enclose (fun h => (Expr.left_le h).2 hop) us hus) ht hright
  | @call function parts _ _ ih =>
    intro ts hts
    obtain ⟨_, _, rfl, hfirst, hlast⟩ := hts.append
    obtain ⟨name, _, rfl, hname, htext, hfirst⟩ := hfirst.cons
    obtain ⟨opening, us, rfl, hopening, -, hus⟩ := hfirst.cons
    obtain ⟨closing, rfl, hclosing, -⟩ := hlast.singleton
    obtain ⟨groups, hfst, hgroups, hjoined⟩ := joined_of_separated hus fun part hp =>
      (ih part hp).loosen part.1.layer.logic_le
    have hf : name.text = function := htext.trans String.ofList_toList
    exact hf ▸ hfst ▸ .call hname hopening hgroups hjoined hclosing
  | @member base _ field _ _ ih =>
    intro ts hts
    obtain ⟨us, _, rfl, hus, hrest⟩ := hts.append
    obtain ⟨dot, _, rfl, hdot, -, hrest⟩ := hrest.cons
    obtain ⟨name, rfl, hname, htext⟩ := hrest.singleton
    have hf : name.text = field := htext.trans String.ofList_toList
    exact hf ▸ .member (ih.enclose Expr.suffixed_le us hus) hdot hname
  | @lookup _ _ key _ _ _ iht ihk =>
    intro ts hts
    obtain ⟨_, _, rfl, hfirst, hlast⟩ := hts.append
    obtain ⟨us, _, rfl, hus, hrest⟩ := hfirst.append
    obtain ⟨opening, ks, rfl, hopening, -, hks⟩ := hrest.cons
    obtain ⟨closing, rfl, hclosing, -⟩ := hlast.singleton
    exact .lookup (iht.enclose Expr.suffixed_le us hus) hopening
      ((ihk ks hks).loosen key.layer.logic_le) hclosing

/-! ## Printing and parsing -/

/-- Tokens with an ending are parsed as an expression that leaves only the ending. -/
theorem parseTokens_concat (ts : List Token) (stop : Nat) : parseTokens (ts ++ [.ending stop]) =
    Parser.outcome (Parser.expression (.ending stop) 0 (ts ++ [.ending stop])) >>= fun whole =>
      if (Parser.current (.ending stop) whole.2).kind = .ending then .ok whole.1
      else .error (.parse (Parser.current (.ending stop) whole.2) .trailing) := by
  have hlast :
      Token.ending stop = .ending ((ts ++ [Token.ending stop]).getLast?.elim 0 Token.stop) := by
    rw [List.getLast?_concat]
    rfl
  rw [Parser.parseTokens_eq hlast]

/-- The parser reads what the grammar derives, up to the end of the tokens. -/
theorem parseTokens_of_derives (h : Derives .logic ts e) (stop : Nat) :
    parseTokens (ts ++ [.ending stop]) = .ok e := by
  have hstops : Parser.Stops 0 [.ending stop] := Parser.stops_of_kind rfl (.inr (.inr (.inr rfl)))
  rw [parseTokens_concat, (Parser.reads_of_derives h).logic hstops]
  rfl

/-- A numeral that is read as a number. -/
def HasNumeral (x : Float) : Prop := ∃ cs, IsNumeral cs ∧ Decimal.read? cs = some x

/-- The names in a formula are words without a meaning of their own, and its numbers can be written.
-/
structure Expr.Printable (e : Expr) : Prop where
  names : ∀ part ∈ e.subformulas, ∀ name ∈ part.name?, IsName name
  numbers : ∀ x, .number x ∈ e.subformulas → HasNumeral x

theorem Expr.Printable.of_subset {inner : Expr} (h : e.Printable)
    (hsub : inner.subformulas ⊆ e.subformulas) :
    inner.Printable where
  names part hp := h.names part (hsub hp)
  numbers x hx := h.numbers x (hsub hx)

theorem Expr.mem_subformulas (e : Expr) : e ∈ e.subformulas := by
  cases e <;> exact List.mem_cons_self

theorem Expr.subformulas_subset {es : List Expr} (he : e ∈ es) :
    e.subformulas ⊆ subformulasOfAll es := by
  induction es with
  | nil => cases he
  | cons first es ih =>
    rw [subformulasOfAll]
    rcases List.mem_cons.1 he with rfl | he
    · exact List.subset_append_left _ _
    · exact List.subset_append_of_subset_right _ (ih he)

/-- Every formula whose names and numbers can be written is printed somehow. -/
theorem exists_prints_of_printable :
    (∀ e : Expr, e.Printable → ∃ ls, Prints e ls) ∧
    ∀ es : List Expr, (∀ e ∈ es, e.Printable) → ∃ parts : List (Expr × List Lexeme),
      parts.map Prod.fst = es ∧ ∀ part ∈ parts, Prints part.1 part.2 := by
  apply Expr.subformulas.mutual_induct (fun e => e.Printable → ∃ ls, Prints e ls)
    (fun es => (∀ e ∈ es, e.Printable) → ∃ parts : List (Expr × List Lexeme),
      parts.map Prod.fst = es ∧ ∀ part ∈ parts, Prints part.1 part.2)
  case case1 =>
    intro x h
    obtain ⟨cs, hcs, hx⟩ := h.numbers x (Expr.mem_subformulas _)
    exact ⟨_, .number hcs hx⟩
  case case2 => exact fun s _ => ⟨_, .text⟩
  case case3 => exact fun b _ => ⟨_, .boolean⟩
  case case4 => exact fun name h => ⟨_, .identifier (h.names _ (Expr.mem_subformulas _) name rfl)⟩
  case case5 =>
    intro op operand ih h
    obtain ⟨ls, hls⟩ := ih (h.of_subset (List.subset_cons_self _ _))
    exact ⟨_, .unary hls⟩
  case case6 =>
    intro op left right ihl ihr h
    obtain ⟨ls, hls⟩ :=
      ihl (h.of_subset (List.subset_cons_of_subset _ (List.subset_append_left _ _)))
    obtain ⟨rs, hrs⟩ :=
      ihr (h.of_subset (List.subset_cons_of_subset _ (List.subset_append_right _ _)))
    exact ⟨_, .binary hls hrs⟩
  case case7 =>
    intro function arguments ih h
    obtain ⟨parts, rfl, hparts⟩ := ih fun e he =>
      h.of_subset (List.subset_cons_of_subset _ (Expr.subformulas_subset he))
    exact ⟨_, .call (h.names _ (Expr.mem_subformulas _) function rfl) hparts⟩
  case case8 =>
    intro base field ih h
    obtain ⟨ls, hls⟩ := ih (h.of_subset (List.subset_cons_self _ _))
    exact ⟨_, .member hls (h.names _ (Expr.mem_subformulas _) field rfl)⟩
  case case9 =>
    intro table key iht ihk h
    obtain ⟨ls, hls⟩ :=
      iht (h.of_subset (List.subset_cons_of_subset _ (List.subset_append_left _ _)))
    obtain ⟨ks, hks⟩ :=
      ihk (h.of_subset (List.subset_cons_of_subset _ (List.subset_append_right _ _)))
    exact ⟨_, .lookup hls hks⟩
  case case10 => exact fun _ => ⟨[], rfl, nofun⟩
  case case11 =>
    intro e es ih ihs h
    obtain ⟨he, hes⟩ := List.forall_mem_cons.1 h
    obtain ⟨ls, hls⟩ := ih he
    obtain ⟨parts, rfl, hparts⟩ := ihs hes
    exact ⟨(e, ls) :: parts, rfl, List.forall_mem_cons.2 ⟨hls, hparts⟩⟩

/-- A formula that is printed is read back, however its numbers are written. -/
theorem parse_printed (e : Expr) (h : e.Printable) :
    (∃ ls, Prints e ls) ∧ ∀ ls, Prints e ls → parse (.ofList (spaced ls)) = .ok e := by
  refine ⟨exists_prints_of_printable.1 e h, fun ls hls => ?_⟩
  obtain ⟨ts, stop, hlex, hts⟩ := lexFrom_spaced (spelled_of_prints hls) 0
  rw [parse, lex, String.toList_ofList, hlex]
  exact parseTokens_of_derives ((spells_of_prints hls ts hts).loosen e.layer.logic_le) stop

theorem parse_printed_difference :
    let negated : Expr := .unary .negate (.number (Decimal.nearest 15 (-1)))
    let price : Expr := .member (.lookup (.identifier "t") (.text "a\"")) "price"
    let e : Expr :=
      .binary (.arithmetic .multiply) (.binary (.arithmetic .subtract) negated price) price
    e.Printable ∧
      parse "( - 1.5 - t [ \"a\\\"\" ] . price ) * t [ \"a\\\"\" ] . price" = .ok e := by
  intro negated price e
  have hname {name : String} (h : name ∈ ["t", "price"]) : IsName name := by
    simp only [List.mem_cons, List.not_mem_nil, or_false] at h
    rcases h with rfl | rfl
    · exact ⟨by decide, by decide⟩
    · exact ⟨by decide, by decide⟩
  have hnumeral : IsNumeral "1.5".toList := .inr ⟨['1'], ['5'], by decide, by decide, rfl⟩
  have hprintable : e.Printable := {
    names := by
      simp only [e, negated, price, Expr.subformulas]
      simp [Expr.name?, hname]
    numbers := by
      simp only [e, negated, price, Expr.subformulas]
      rintro x hx
      obtain rfl : x = Decimal.nearest 15 (-1) := by simpa using hx
      exact ⟨_, hnumeral, rfl⟩ }
  have hnegated : Prints negated _ := .unary (.number hnumeral rfl)
  have hprice : Prints price _ :=
    .member (.lookup (.identifier (hname (by decide))) .text) (hname (by decide))
  have hprints : Prints e _ := .binary (.binary hnegated hprice) hprice
  refine ⟨hprintable, Eq.trans (congrArg parse ?_) ((parse_printed e hprintable).2 _ hprints)⟩
  rfl

end TableDoc.Formula
