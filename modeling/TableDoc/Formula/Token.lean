/-!
# Tokens

A formula is a list of tokens. A token knows its place in the source in bytes of UTF-8.
-/

namespace TableDoc.Formula

/-- What a token is. -/
inductive Token.Kind where
  | number
  | text
  | boolean
  | identifier
  | leftParen
  | rightParen
  | comma
  | dot
  | leftBracket
  | rightBracket
  | operator
  | ending
  deriving DecidableEq, Repr

/-- A token: `text` is what the source has from `start` up to `stop`, but for a string its contents.
-/
structure Token where
  kind : Token.Kind
  text : String
  start : Nat
  stop : Nat
  deriving DecidableEq, Repr

namespace Token

/-- The token after the last one. -/
def ending (offset : Nat) : Token := ⟨.ending, "", offset, offset⟩

/-- The token in a message. -/
def describe (t : Token) : String :=
  match t.kind with
  | .ending => "end of expression"
  | .text => s!"string \"{t.text}\""
  | _ => s!"'{t.text}'"

end Token

end TableDoc.Formula
