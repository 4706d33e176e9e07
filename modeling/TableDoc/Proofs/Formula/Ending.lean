import TableDoc.Proofs.Formula.ParserSteps

/-!
# The end of the tokens

Where the tokens run out, the parser works with an ending token that is not among them. Nothing
changes if it is put there (`parseTokens_concat_ending`). No function of the parser takes the token
at the end: it reads the same without it and leaves it behind the tokens that it leaves anyway, or
fails in the same way (`Parser.leaves`).
-/

namespace TableDoc.Formula

namespace Parser

variable {ending : Token}

/-- Leaves one more token behind what is left. -/
def leave (ending : Token) (found : α × List Token) : α × List Token :=
  (found.1, found.2 ++ [ending])

/-- The second run reads what the first does and leaves the ending token behind the tokens that the
first leaves, or both fail in the same way. -/
def Leaves {m n : Nat} (ending : Token) (x : Except Error (Taken α m))
    (y : Except Error (Taken α n)) : Prop :=
  outcome y = (outcome x).map (leave ending)

theorem Leaves.bind {m n : Nat} {x : Except Error (Taken α m)} {y : Except Error (Taken α n)}
    {f g : α × List Token → Except Error (β × List Token)} (h : Leaves ending x y)
    (hfg : ∀ t : Taken α m, g (t.value, t.rest ++ [ending]) =
      (f (t.value, t.rest)).map (leave ending)) :
    outcome y >>= g = (outcome x >>= f).map (leave ending) := by
  rw [h]
  cases x with
  | error => rfl
  | ok t => exact hfg t

theorem leaves_expect {kind : Token.Kind} (what : Expected) (h : ending.kind ≠ kind)
    (ts : List Token) :
    Leaves ending (expect ending what kind ts) (expect ending what kind (ts ++ [ending])) := by
  cases ts with
  | nil =>
    rw [List.nil_append, expect, expect, if_neg h]
    rfl
  | cons t rest =>
    rw [List.cons_append, expect, expect]
    split <;> rfl

theorem leaves_suffixes_nil (h : ending.kind = .ending) (base : Expr) :
    Leaves ending (suffixes ending base []) (suffixes ending base ([] ++ [ending])) := by
  have hstop : ∀ t ∈ [ending].head?, t.kind ≠ .dot ∧ t.kind ≠ .leftBracket ∧
      t.kind ≠ .leftParen := by simp [h]
  rw [Leaves, List.nil_append, suffixes, outcome_suffixes base hstop]
  rfl

theorem current_concat_ending (ts : List Token) :
    current ending (ts ++ [ending]) = current ending ts := by
  cases ts <;> rfl

/-- The induction is that of the parser. -/
theorem leaves (h : ending.kind = .ending) :
    (∀ least ts,
      Leaves ending (expression ending least ts) (expression ending least (ts ++ [ending]))) ∧
    (∀ least left compares ts, Leaves ending (operators ending least left compares ts)
      (operators ending least left compares (ts ++ [ending]))) ∧
    (∀ ts, Leaves ending (operand ending ts) (operand ending (ts ++ [ending]))) ∧
    (∀ ts, Leaves ending (arguments ending ts) (arguments ending (ts ++ [ending]))) ∧
    (∀ ts, Leaves ending (furtherArguments ending ts) (furtherArguments ending (ts ++ [ending]))) ∧
    ∀ base ts, Leaves ending (suffixes ending base ts) (suffixes ending base (ts ++ [ending])) := by
  apply expression.mutual_induct ending
    (fun least ts =>
      Leaves ending (expression ending least ts) (expression ending least (ts ++ [ending])))
    (fun least left compares ts => Leaves ending (operators ending least left compares ts)
      (operators ending least left compares (ts ++ [ending])))
    (fun ts => Leaves ending (operand ending ts) (operand ending (ts ++ [ending])))
    (fun ts => Leaves ending (arguments ending ts) (arguments ending (ts ++ [ending])))
    (fun ts =>
      Leaves ending (furtherArguments ending ts) (furtherArguments ending (ts ++ [ending])))
    (fun base ts => Leaves ending (suffixes ending base ts) (suffixes ending base (ts ++ [ending])))
  case case1 =>
    intro least ts hleft hwhole
    rw [Leaves, outcome_expression, outcome_expression]
    exact hleft.bind fun left => hwhole left
  case case2 =>
    intro least left compares
    rw [Leaves, List.nil_append, operators,
      outcome_operators_of_none (by rw [binaryOperator?, h]; rfl)]
    rfl
  case case3 =>
    intro least left compares t ts hnone
    rw [Leaves, List.cons_append, outcome_operators_of_none hnone, outcome_operators_of_none hnone]
    rfl
  case case4 =>
    intro least left compares t ts op hop hle
    rw [Leaves, List.cons_append, outcome_operators_of_le hop hle, outcome_operators_of_le hop hle]
    rfl
  case case5 =>
    intro least left compares t ts op hop hle hchained
    have hlt := Nat.lt_of_not_le hle
    rw [Leaves, List.cons_append, outcome_operators_of_lt hop hlt, outcome_operators_of_lt hop hlt,
      if_pos hchained, if_pos hchained]
    rfl
  case case6 =>
    intro least left compares t ts op hop hle hchained hright hwhole
    have hlt := Nat.lt_of_not_le hle
    rw [Leaves, List.cons_append, outcome_operators_of_lt hop hlt, outcome_operators_of_lt hop hlt,
      if_neg hchained, if_neg hchained]
    exact hright.bind fun right => hwhole right
  case case7 =>
    rw [Leaves, List.nil_append, outcome_operand_nil, outcome_operand_of_unexpected (by simp [h])]
    rfl
  case case8 =>
    intro t ts hkind x hx hsuffixes
    rw [Leaves, List.cons_append, outcome_operand_of_number hkind,
      outcome_operand_of_number hkind, hx]
    exact hsuffixes
  case case9 =>
    intro t ts hkind hx
    rw [Leaves, List.cons_append, outcome_operand_of_number hkind,
      outcome_operand_of_number hkind, hx]
    rfl
  case case10 =>
    intro t ts hkind hsuffixes
    rw [Leaves, List.cons_append, outcome_operand_of_text hkind, outcome_operand_of_text hkind]
    exact hsuffixes
  case case11 =>
    intro t ts hkind hsuffixes
    rw [Leaves, List.cons_append, outcome_operand_of_boolean hkind,
      outcome_operand_of_boolean hkind]
    exact hsuffixes
  case case12 =>
    intro t hkind
    have hnext : ∀ next ∈ [ending].head?, next.kind ≠ .leftParen := by simp [h]
    have hlast : ∀ next ∈ ([] : List Token).head?, next.kind ≠ .leftParen := by simp
    rw [Leaves, List.cons_append, List.nil_append, outcome_operand_of_identifier hkind hnext,
      outcome_operand_of_identifier hkind hlast]
    exact leaves_suffixes_nil h _
  case case13 =>
    intro t hkind opening ts hopening harguments hsuffixes
    rw [Leaves, List.cons_append, List.cons_append, outcome_operand_of_call hkind hopening,
      outcome_operand_of_call hkind hopening]
    exact harguments.bind fun arguments =>
      (leaves_expect _ (by simp [h]) arguments.rest).bind fun closing => hsuffixes arguments closing
  case case14 =>
    intro t hkind next ts hnext hsuffixes
    have hnext (rest : List Token) : ∀ t ∈ (next :: rest).head?, t.kind ≠ .leftParen := by
      rintro _ ⟨⟩
      exact hnext
    rw [Leaves, List.cons_append, List.cons_append, outcome_operand_of_identifier hkind (hnext _),
      outcome_operand_of_identifier hkind (hnext _)]
    exact hsuffixes
  case case15 =>
    intro t ts hkind hinner hsuffixes
    rw [Leaves, List.cons_append, outcome_operand_of_leftParen hkind,
      outcome_operand_of_leftParen hkind]
    exact hinner.bind fun inner =>
      (leaves_expect _ (by simp [h]) inner.rest).bind fun closing => hsuffixes inner closing
  case case16 =>
    intro t ts hkind op hop hinner
    rw [Leaves, List.cons_append, outcome_operand_of_operator hkind,
      outcome_operand_of_operator hkind, hop]
    exact hinner.bind fun inner => rfl
  case case17 =>
    intro t ts hkind hop
    rw [Leaves, List.cons_append, outcome_operand_of_operator hkind,
      outcome_operand_of_operator hkind, hop]
    rfl
  case case18 =>
    intro t ts hnumber htext hboolean hidentifier hparen hoperator
    have hkind : t.kind ∈ [.rightParen, .comma, .dot, .leftBracket, .rightBracket, .ending] := by
      cases hk : t.kind <;> simp_all
    rw [Leaves, List.cons_append, outcome_operand_of_unexpected hkind,
      outcome_operand_of_unexpected hkind]
    rfl
  case case19 =>
    intro ts hclosing
    rw [Leaves, arguments, arguments, current_concat_ending, if_pos hclosing, if_pos hclosing]
    rfl
  case case20 =>
    intro ts hclosing hfirst hothers
    rw [Leaves, outcome_arguments hclosing, outcome_arguments (by rwa [current_concat_ending])]
    exact hfirst.bind fun first => (hothers first).bind fun others => rfl
  case case21 =>
    have hstop : ∀ t ∈ [ending].head?, t.kind ≠ .comma := by simp [h]
    rw [Leaves, List.nil_append, furtherArguments, outcome_furtherArguments hstop]
    rfl
  case case22 =>
    intro t ts hcomma hnext hothers
    rw [Leaves, List.cons_append, outcome_furtherArguments_of_comma hcomma,
      outcome_furtherArguments_of_comma hcomma]
    exact hnext.bind fun next => (hothers next).bind fun others => rfl
  case case23 =>
    intro t ts hcomma
    rw [Leaves, List.cons_append, outcome_furtherArguments (by simpa),
      outcome_furtherArguments (by simpa)]
    rfl
  case case24 =>
    exact leaves_suffixes_nil h
  case case25 =>
    intro base t ts hkind hsuffixes
    rw [Leaves, List.cons_append, outcome_suffixes_of_dot base hkind,
      outcome_suffixes_of_dot base hkind]
    exact (leaves_expect _ (by simp [h]) ts).bind fun field => hsuffixes field
  case case26 =>
    intro base t ts hkind hkey hsuffixes
    rw [Leaves, List.cons_append, outcome_suffixes_of_leftBracket base hkind,
      outcome_suffixes_of_leftBracket base hkind]
    exact hkey.bind fun key =>
      (leaves_expect _ (by simp [h]) key.rest).bind fun closing => hsuffixes key closing
  case case27 =>
    intro base t ts hkind
    rw [Leaves, List.cons_append, outcome_suffixes_of_leftParen base hkind,
      outcome_suffixes_of_leftParen base hkind]
    rfl
  case case28 =>
    intro base t ts hdot hbracket hparen
    rw [Leaves, List.cons_append, outcome_suffixes base (by simp_all),
      outcome_suffixes base (by simp_all)]
    rfl

end Parser

/-- Tokens spell the same formula, or fail for the same reason at the same token, if an ending token
follows them whose place is where the last of them ends. -/
theorem parseTokens_concat_ending (tokens : List Token) :
    parseTokens (tokens ++ [.ending (tokens.getLast?.elim 0 Token.stop)]) = parseTokens tokens := by
  generalize hending : Token.ending (tokens.getLast?.elim 0 Token.stop) = ending
  have hlast : ending = .ending ((tokens ++ [ending]).getLast?.elim 0 Token.stop) := by
    rw [List.getLast?_concat, ← hending]
    rfl
  have hrun : Parser.Leaves ending (Parser.expression ending 0 tokens)
      (Parser.expression ending 0 (tokens ++ [ending])) :=
        (Parser.leaves (hending ▸ rfl)).1 0 tokens
  rw [Parser.parseTokens_eq hlast, Parser.parseTokens_eq hending.symm, hrun]
  cases Parser.outcome (Parser.expression ending 0 tokens) with
  | error => rfl
  | ok found =>
    change (if (Parser.current ending (found.2 ++ [ending])).kind = .ending then _ else _) = _
    rw [Parser.current_concat_ending]
    rfl

end TableDoc.Formula
