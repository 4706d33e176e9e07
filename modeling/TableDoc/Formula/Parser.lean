import TableDoc.Decimal.Numeral
import TableDoc.Formula.Expr
import TableDoc.Formula.Lexer

/-!
# From tokens to formulas

A formula is operands and binary operators between them. `expression` reads as much as binds tighter
than a given power; `operand` reads a sign and what it applies to, or a primary with its fields,
keys and arguments. Every step says in its type that it leaves fewer tokens, so no step is
unbounded. Where the tokens run out, the token `ending` stands for every further one.
-/

namespace TableDoc.Formula

/-- A value read from tokens and the tokens after it, fewer than `bound`. -/
structure Taken (α : Type) (bound : Nat) where
  value : α
  rest : List Token
  length_lt : rest.length < bound

namespace Taken

/-- Seen from more tokens. -/
def weaken {α : Type} {m n : Nat} (t : Taken α m) (h : m ≤ n) : Taken α n :=
  ⟨t.value, t.rest, Nat.lt_of_lt_of_le t.length_lt h⟩

end Taken

namespace Parser

variable (ending : Token)

/-- The token at hand. -/
def current (ts : List Token) : Token := ts.headD ending

/-- Takes a token of the kind that is needed. -/
def expect (what : Expected) (kind : Token.Kind) :
    (ts : List Token) → Except Error (Taken Token ts.length)
  | [] => .error (.parse ending (.expected what))
  | t :: ts =>
    if t.kind = kind then .ok ⟨t, ts, by simp⟩ else .error (.parse t (.expected what))

/-- The binary operator that a token is. -/
def binaryOperator? (t : Token) : Option BinaryOperator :=
  if t.kind = .operator then BinaryOperator.ofSymbol? t.text else none

mutual

/-- Reads an operand and all operators after it that bind tighter than `least`. -/
def expression (least : Nat) (ts : List Token) : Except Error (Taken Expr ts.length) := do
  let left ← operand ts
  let whole ← operators least left.value false left.rest
  return whole.weaken left.length_lt
termination_by (ts.length, 2)
decreasing_by
  · exact .right _ (by decide)
  · exact .left _ _ left.length_lt

/-- Reads operators that bind tighter than `least`, and their right operands, after the formula
`left`. -/
def operators (least : Nat) (left : Expr) (leftCompares : Bool) (ts : List Token) :
    Except Error (Taken Expr (ts.length + 1)) :=
  match ts with
  | [] => .ok ⟨left, [], by simp⟩
  | t :: rest =>
    match binaryOperator? t with
    | none => .ok ⟨left, t :: rest, by simp⟩
    | some op =>
      if op.power ≤ least then .ok ⟨left, t :: rest, by simp⟩
      else if op.isComparison && leftCompares then .error (.parse t .chained)
      else do
        let right ← expression op.power rest
        let whole ← operators least (.binary op left right.value) op.isComparison right.rest
        return whole.weaken (by have := right.length_lt; simp only [List.length_cons]; omega)
termination_by (ts.length, 1)
decreasing_by
  · exact .left _ _ (by simp)
  · exact .left _ _ (by have := right.length_lt; simp only [List.length_cons]; omega)

/-- Reads a signed operand, or a primary and what follows it. -/
def operand (ts : List Token) : Except Error (Taken Expr ts.length) :=
  match ts with
  | [] => .error (.parse ending .unexpected)
  | t :: rest =>
    match t.kind with
    | .number =>
      match Decimal.read? t.text.toList with
      | some x => suffixes (.number x) rest
      | none => .error (.parse t .invalidNumber)
    | .text => suffixes (.text t.text) rest
    | .boolean => suffixes (.boolean (t.text = "true")) rest
    | .identifier =>
      match rest with
      | [] => .ok ⟨.identifier t.text, [], by simp⟩
      | next :: rest =>
        if next.kind = .leftParen then do
          let arguments ← arguments rest
          let closing ← expect ending .closingArguments .rightParen arguments.rest
          let whole ← suffixes (.call t.text arguments.value) closing.rest
          return whole.weaken (by
            have := arguments.length_lt; have := closing.length_lt
            simp only [List.length_cons]; omega)
        else suffixes (.identifier t.text) (next :: rest)
    | .leftParen => do
      let inner ← expression 0 rest
      let closing ← expect ending .closing .rightParen inner.rest
      let whole ← suffixes inner.value closing.rest
      return whole.weaken (by
        have := inner.length_lt; have := closing.length_lt; simp only [List.length_cons]; omega)
    | .operator =>
      match UnaryOperator.ofSymbol? t.text with
      | some op => do
        let inner ← expression UnaryOperator.power rest
        return ⟨.unary op inner.value, inner.rest, by
          have := inner.length_lt; simp only [List.length_cons]; omega⟩
      | none => .error (.parse t .unexpected)
    | _ => .error (.parse t .unexpected)
termination_by (ts.length, 1)
decreasing_by
  · exact .left _ _ (by simp)
  · exact .left _ _ (by simp)
  · exact .left _ _ (by simp)
  · exact .left _ _ (by simp only [List.length_cons]; omega)
  · exact .left _ _ (by
      have := arguments.length_lt; have := closing.length_lt; simp only [List.length_cons]; omega)
  · exact .left _ _ (by simp)
  · exact .left _ _ (by simp)
  · exact .left _ _ (by
      have := inner.length_lt; have := closing.length_lt; simp only [List.length_cons]; omega)
  · exact .left _ _ (by simp)

/-- Reads the arguments of a call up to the closing parenthesis. -/
def arguments (ts : List Token) : Except Error (Taken (List Expr) (ts.length + 1)) :=
  if (current ending ts).kind = .rightParen then .ok ⟨[], ts, by simp⟩
  else do
    let first ← expression 0 ts
    let others ← furtherArguments first.rest
    return ⟨first.value :: others.value, others.rest, by
      have := first.length_lt; have := others.length_lt; omega⟩
termination_by (ts.length, 3)
decreasing_by
  · exact .right _ (by decide)
  · exact .left _ _ first.length_lt

/-- Reads the arguments after the first. -/
def furtherArguments (ts : List Token) : Except Error (Taken (List Expr) (ts.length + 1)) :=
  match ts with
  | [] => .ok ⟨[], [], by simp⟩
  | t :: rest =>
    if t.kind = .comma then do
      let next ← expression 0 rest
      let others ← furtherArguments next.rest
      return ⟨next.value :: others.value, others.rest, by
        have := next.length_lt; have := others.length_lt; simp only [List.length_cons]; omega⟩
    else .ok ⟨[], t :: rest, by simp⟩
termination_by (ts.length, 3)
decreasing_by
  · exact .left _ _ (by simp)
  · exact .left _ _ (by have := next.length_lt; simp only [List.length_cons]; omega)

/-- Reads fields and keys after a primary. -/
def suffixes (base : Expr) (ts : List Token) : Except Error (Taken Expr (ts.length + 1)) :=
  match ts with
  | [] => .ok ⟨base, [], by simp⟩
  | t :: rest =>
    match t.kind with
    | .dot => do
      let field ← expect ending .field .identifier rest
      let whole ← suffixes (.member base field.value.text) field.rest
      return whole.weaken (by have := field.length_lt; simp only [List.length_cons]; omega)
    | .leftBracket => do
      let key ← expression 0 rest
      let closing ← expect ending .closingBracket .rightBracket key.rest
      let whole ← suffixes (.lookup base key.value) closing.rest
      return whole.weaken (by
        have := key.length_lt; have := closing.length_lt; simp only [List.length_cons]; omega)
    | .leftParen => .error (.parse t .notCallable)
    | _ => .ok ⟨base, t :: rest, by simp⟩
termination_by (ts.length, 0)
decreasing_by
  · exact .left _ _ (by have := field.length_lt; simp only [List.length_cons]; omega)
  · exact .left _ _ (by simp)
  · exact .left _ _ (by
      have := key.length_lt; have := closing.length_lt; simp only [List.length_cons]; omega)

end

end Parser

/-- The formula that the tokens spell. -/
def parseTokens (tokens : List Token) : Except Error Expr := do
  let ending := Token.ending (tokens.getLast?.elim 0 Token.stop)
  let whole ← Parser.expression ending 0 tokens
  let next := Parser.current ending whole.rest
  if next.kind = .ending then return whole.value else throw (.parse next .trailing)

/-- The formula that a text spells. -/
def parse (source : String) : Except Error Expr := lex source >>= parseTokens

end TableDoc.Formula
