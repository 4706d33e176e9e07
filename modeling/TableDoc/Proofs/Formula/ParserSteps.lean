import TableDoc.Formula.Parser

/-!
# Steps of the parser

What each function of the parser reads, by the token at hand, as equations about its `outcome`: what
is read and the tokens that are left, without the bound that shows that they get fewer.
-/

namespace TableDoc.Formula.Parser

/-- What is read and the tokens after it, without the bound on their number. -/
def outcome {n : Nat} (x : Except Error (Taken α n)) : Except Error (α × List Token) :=
  x.map fun t => (t.value, t.rest)

theorem outcome_bind {m n : Nat} {x : Except Error (Taken α m)}
    {f : Taken α m → Except Error (Taken β n)} {g : α × List Token → Except Error (β × List Token)}
    (h : ∀ t, outcome (f t) = g (t.value, t.rest)) :
    outcome (x >>= f) = outcome x >>= g := by
  cases x with
  | error => rfl
  | ok t => exact h t

theorem outcome_weaken {m n : Nat} {x : Except Error (Taken α m)} (h : m ≤ n) :
    outcome (x >>= fun t => pure (t.weaken h)) = outcome x := by
  cases x <;> rfl

section
variable {ending : Token} {least : Nat} {t : Token} {ts rest : List Token} {left : Expr}
  {compares : Bool}

theorem outcome_expression (least : Nat) (ts : List Token) :
    outcome (expression ending least ts) = outcome (operand ending ts) >>= fun (left, rest) =>
      outcome (operators ending least left false rest) := by
  rw [expression]
  exact outcome_bind fun left => outcome_weaken _

theorem outcome_operators_of_none (h : binaryOperator? t = none) :
    outcome (operators ending least left compares (t :: rest)) = .ok (left, t :: rest) := by
  rw [operators]
  simp only [h]
  rfl

theorem outcome_operators_of_le {op : BinaryOperator} (h : binaryOperator? t = some op)
    (hp : op.power ≤ least) :
    outcome (operators ending least left compares (t :: rest)) = .ok (left, t :: rest) := by
  rw [operators]
  simp only [h, hp, if_true]
  rfl

/-- An operator of greater power takes its right side, unless it would chain comparisons. -/
theorem outcome_operators_of_lt {op : BinaryOperator} (h : binaryOperator? t = some op)
    (hp : least < op.power) :
    outcome (operators ending least left compares (t :: rest)) =
      if op.isComparison && compares then .error (.parse t .chained)
      else outcome (expression ending op.power rest) >>= fun (right, rest) =>
        outcome (operators ending least (.binary op left right) op.isComparison rest) := by
  rw [operators]
  simp only [h, Nat.not_le.2 hp, if_false]
  split
  · rfl
  · exact outcome_bind fun right => outcome_weaken _

theorem outcome_expect {kind : Token.Kind} (what : Expected) (h : t.kind = kind) :
    outcome (expect ending what kind (t :: rest)) = .ok (t, rest) := by
  rw [expect, if_pos h]
  rfl

theorem of_outcome_expect {kind : Token.Kind} {what : Expected}
    (h : outcome (expect ending what kind ts) = .ok (t, rest)) :
    ts = t :: rest ∧ t.kind = kind := by
  cases ts with
  | nil => cases h
  | cons first others =>
    rw [expect] at h
    split at h
    · next hk =>
      cases h
      exact ⟨rfl, hk⟩
    · cases h

theorem outcome_suffixes_of_dot (base : Expr) (h : t.kind = .dot) :
    outcome (suffixes ending base (t :: rest)) =
      outcome (expect ending .field .identifier rest) >>= fun (field, rest) =>
        outcome (suffixes ending (.member base field.text) rest) := by
  rw [suffixes]
  simp only [h]
  exact outcome_bind fun field => outcome_weaken _

theorem outcome_suffixes_of_leftBracket (base : Expr) (h : t.kind = .leftBracket) :
    outcome (suffixes ending base (t :: rest)) =
      outcome (expression ending 0 rest) >>= fun (key, rest) =>
        outcome (expect ending .closingBracket .rightBracket rest) >>= fun (_, rest) =>
          outcome (suffixes ending (.lookup base key) rest) := by
  rw [suffixes]
  simp only [h]
  exact outcome_bind fun key => outcome_bind fun closing => outcome_weaken _

theorem outcome_suffixes_of_leftParen (base : Expr) (h : t.kind = .leftParen) :
    outcome (suffixes ending base (t :: rest)) = .error (.parse t .notCallable) := by
  rw [suffixes]
  simp only [h]
  rfl

theorem outcome_suffixes (base : Expr) (h : ∀ t ∈ ts.head?,
    t.kind ≠ .dot ∧ t.kind ≠ .leftBracket ∧ t.kind ≠ .leftParen) :
    outcome (suffixes ending base ts) = .ok (base, ts) := by
  cases ts with
  | nil => rw [suffixes]; rfl
  | cons t rest =>
    obtain ⟨hdot, hbracket, hparen⟩ := h t rfl
    rw [suffixes]
    split
    · next hk => exact absurd hk hdot
    · next hk => exact absurd hk hbracket
    · next hk => exact absurd hk hparen
    · rfl

theorem outcome_arguments_of_rightParen (h : t.kind = .rightParen) :
    outcome (arguments ending (t :: rest)) = .ok ([], t :: rest) := by
  rw [arguments, if_pos (show (current ending (t :: rest)).kind = .rightParen from h)]
  rfl

/-- One argument and those after it. -/
def listing (ending : Token) (ts : List Token) : Except Error (List Expr × List Token) :=
  outcome (expression ending 0 ts) >>= fun (first, rest) =>
    outcome (furtherArguments ending rest) >>= fun (others, rest) => .ok (first :: others, rest)

theorem outcome_arguments (h : (current ending ts).kind ≠ .rightParen) :
    outcome (arguments ending ts) = listing ending ts := by
  rw [arguments, if_neg h]
  exact outcome_bind fun first => outcome_bind fun others => rfl

theorem outcome_furtherArguments_of_comma (h : t.kind = .comma) :
    outcome (furtherArguments ending (t :: rest)) = listing ending rest := by
  rw [furtherArguments]
  simp only [h]
  exact outcome_bind fun first => outcome_bind fun others => rfl

theorem outcome_furtherArguments (h : ∀ t ∈ ts.head?, t.kind ≠ .comma) :
    outcome (furtherArguments ending ts) = .ok ([], ts) := by
  cases ts with
  | nil => rw [furtherArguments]; rfl
  | cons t rest => rw [furtherArguments, if_neg (h t rfl)]; rfl

theorem outcome_operand_nil : outcome (operand ending []) = .error (.parse ending .unexpected) := by
  rw [operand]
  rfl

theorem outcome_operand_of_number (h : t.kind = .number) :
    outcome (operand ending (t :: rest)) = match Decimal.read? t.text.toList with
      | some x => outcome (suffixes ending (.number x) rest)
      | none => .error (.parse t .invalidNumber) := by
  rw [operand.eq_def]
  simp only [h]
  cases Decimal.read? t.text.toList <;> rfl

theorem outcome_operand_of_text (h : t.kind = .text) :
    outcome (operand ending (t :: rest)) = outcome (suffixes ending (.text t.text) rest) := by
  rw [operand.eq_def]
  simp only [h]

theorem outcome_operand_of_boolean (h : t.kind = .boolean) :
    outcome (operand ending (t :: rest)) =
      outcome (suffixes ending (.boolean (t.text = "true")) rest) := by
  rw [operand.eq_def]
  simp only [h]

theorem outcome_operand_of_identifier (h : t.kind = .identifier)
    (hrest : ∀ next ∈ rest.head?, next.kind ≠ .leftParen) :
    outcome (operand ending (t :: rest)) = outcome (suffixes ending (.identifier t.text) rest) := by
  rw [operand.eq_def]
  simp only [h]
  cases rest with
  | nil => rw [suffixes]
  | cons next rest => simp only [if_neg (hrest next rfl)]

theorem outcome_operand_of_call {opening : Token} (h : t.kind = .identifier)
    (hopening : opening.kind = .leftParen) :
    outcome (operand ending (t :: opening :: rest)) =
      outcome (arguments ending rest) >>= fun (arguments, rest) =>
        outcome (expect ending .closingArguments .rightParen rest) >>= fun (_, rest) =>
          outcome (suffixes ending (.call t.text arguments) rest) := by
  rw [operand.eq_def]
  simp only [h, hopening]
  exact outcome_bind fun arguments => outcome_bind fun closing => outcome_weaken _

theorem outcome_operand_of_leftParen (h : t.kind = .leftParen) :
    outcome (operand ending (t :: rest)) =
      outcome (expression ending 0 rest) >>= fun (inner, rest) =>
        outcome (expect ending .closing .rightParen rest) >>= fun (_, rest) =>
          outcome (suffixes ending inner rest) := by
  rw [operand.eq_def]
  simp only [h]
  exact outcome_bind fun inner => outcome_bind fun closing => outcome_weaken _

theorem outcome_operand_of_operator (h : t.kind = .operator) :
    outcome (operand ending (t :: rest)) = match UnaryOperator.ofSymbol? t.text with
      | some op => outcome (expression ending UnaryOperator.power rest) >>= fun (inner, rest) =>
        .ok (.unary op inner, rest)
      | none => .error (.parse t .unexpected) := by
  rw [operand.eq_def]
  simp only [h]
  cases UnaryOperator.ofSymbol? t.text with
  | none => rfl
  | some op => exact outcome_bind fun inner => rfl

theorem outcome_operand_of_unexpected
    (h : t.kind ∈ [.rightParen, .comma, .dot, .leftBracket, .rightBracket, .ending]) :
    outcome (operand ending (t :: rest)) = .error (.parse t .unexpected) := by
  rw [operand.eq_def]
  simp only [List.mem_cons, List.not_mem_nil, or_false] at h
  rcases h with h | h | h | h | h | h <;> (simp only [h]; rfl)

/-- The whole of the tokens is read, up to a token that ends them. -/
theorem parseTokens_eq (h : ending = .ending (ts.getLast?.elim 0 Token.stop)) :
    parseTokens ts = outcome (expression ending 0 ts) >>= fun (whole, rest) =>
      if (current ending rest).kind = .ending then .ok whole
      else .error (.parse (current ending rest) .trailing) := by
  subst h
  rw [parseTokens]
  cases expression _ 0 ts <;> rfl

end

end TableDoc.Formula.Parser
