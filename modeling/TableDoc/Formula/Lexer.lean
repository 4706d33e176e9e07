import TableDoc.Formula.Error
import TableDoc.Text.Bytes

/-!
# From text to tokens

`Lexeme.read` reads one lexeme at the head of a text; a lexeme keeps the characters it was written
with, so that they and the rest make up the text again (`Lexeme.read_eq`). `lex` reads lexemes and
skips the blanks of ASCII between them.
-/

namespace TableDoc.Formula

/-- The blanks that may stand between lexemes. -/
def isSpace (c : Char) : Bool :=
  c = ' ' || c = '\t' || c = '\n' || c = '\x0c' || c = '\r'

/-- The characters that start a word. -/
def isWordStart (c : Char) : Bool := c.isAlpha || c = '_'

/-- The characters that continue a word. -/
def isWordPart (c : Char) : Bool := c.isAlphanum || c = '_'

/-- A token without its place. -/
structure Lexeme where
  kind : Token.Kind
  /-- What the token says. -/
  text : List Char
  /-- The characters it is written with. -/
  written : List Char

namespace Lexeme

/-- A lexeme that says what is written. -/
def verbatim (kind : Token.Kind) (written : List Char) : Lexeme := ⟨kind, written, written⟩

/-- The numeral at the head of a text, and what follows it. A point belongs to the numeral only if a
digit follows it. -/
def numeral (cs : List Char) : List Char × List Char :=
  let whole := cs.takeWhile Char.isDigit
  match cs.dropWhile Char.isDigit with
  | '.' :: d :: rest =>
    if d.isDigit then
      (whole ++ '.' :: (d :: rest).takeWhile Char.isDigit, (d :: rest).dropWhile Char.isDigit)
    else (whole, '.' :: d :: rest)
  | rest => (whole, rest)

/-- The character that a backslash before `c` stands for. -/
def unescape (c : Char) : Char :=
  if c = 'n' then '\n' else if c = 't' then '\t' else c

/-- What follows an opening quote: the contents of the string, the characters up to and with the
closing quote, and the rest. -/
def quoted? : List Char → Option (List Char × List Char × List Char)
  | [] => none
  | c :: cs =>
    if c = '\x22' then some ([], [c], cs)
    else if c = '\\' then
      match cs with
      | [] => none
      | e :: cs => (quoted? cs).map fun (text, written, rest) =>
        (unescape e :: text, c :: e :: written, rest)
    else (quoted? cs).map fun (text, written, rest) => (c :: text, c :: written, rest)

/-- What a word is. -/
def wordKind (word : List Char) : Token.Kind :=
  if word = "true".toList ∨ word = "false".toList then .boolean
  else if word = "and".toList ∨ word = "or".toList then .operator
  else .identifier

/-- The delimiters. -/
def delimiterKind? : Char → Option Token.Kind
  | '(' => some .leftParen
  | ')' => some .rightParen
  | ',' => some .comma
  | '.' => some .dot
  | '[' => some .leftBracket
  | ']' => some .rightBracket
  | _ => none

/-- The operators of two characters end in `=`. -/
def startsLongOperator (c : Char) : Bool := c = '=' || c = '!' || c = '<' || c = '>'

/-- The operators of one character. -/
def isShortOperator (c : Char) : Bool :=
  c = '+' || c = '-' || c = '*' || c = '/' || c = '<' || c = '>'

/-- The lexeme at the head of a text, and what follows it. -/
def read (c : Char) (cs : List Char) : Except LexFault (Lexeme × List Char) :=
  if c = '\x7b' ∧ cs.head? = some '\x7b' then .error .reservedBraces
  else if c.isDigit ∨ (c = '.' ∧ cs.head?.any Char.isDigit) then
    let (written, rest) := numeral (c :: cs)
    .ok (verbatim .number written, rest)
  else if c = '\x22' then
    match quoted? cs with
    | some (text, written, rest) => .ok (⟨.text, text, c :: written⟩, rest)
    | none => .error .unterminated
  else if isWordStart c then
    let word := c :: cs.takeWhile isWordPart
    .ok (verbatim (wordKind word) word, cs.dropWhile isWordPart)
  else match delimiterKind? c with
    | some kind => .ok (verbatim kind [c], cs)
    | none =>
      if startsLongOperator c ∧ cs.head? = some '=' then
        .ok (verbatim .operator [c, '='], cs.tail)
      else if isShortOperator c then .ok (verbatim .operator [c], cs)
      else .error (.unexpected c)

/-- The token of a lexeme that starts at `offset`. -/
def toToken (l : Lexeme) (offset : Nat) : Token :=
  ⟨l.kind, .ofList l.text, offset, offset + Text.byteLength l.written⟩

theorem numeral_append (cs : List Char) : (numeral cs).1 ++ (numeral cs).2 = cs := by
  have h := List.takeWhile_append_dropWhile (p := Char.isDigit) (l := cs)
  unfold numeral
  split
  · next d rest hd =>
    rw [hd] at h
    split
    · simp only [List.append_assoc, List.cons_append, List.takeWhile_append_dropWhile]; exact h
    · exact h
  · exact h

theorem numeral_ne_nil {c : Char} {cs : List Char}
    (h : c.isDigit ∨ (c = '.' ∧ cs.head?.any Char.isDigit)) : (numeral (c :: cs)).1 ≠ [] := by
  by_cases hc : c.isDigit
  · unfold numeral
    simp only [List.takeWhile_cons, hc, if_true]
    split
    · split <;> simp
    · simp
  · obtain rfl : c = '.' := (h.resolve_left hc).1
    have hd := (h.resolve_left hc).2
    cases cs with
    | nil => simp at hd
    | cons d rest =>
      have : ('.' : Char).isDigit = false := rfl
      simp only [List.head?_cons, Option.any_some] at hd
      simp [numeral, this, hd]

theorem quoted?_eq {cs text written rest : List Char}
    (h : quoted? cs = some (text, written, rest)) : cs = written ++ rest := by
  fun_induction quoted? cs generalizing text written rest with
  | case1 => simp at h
  | case2 =>
    simp only [Option.some.injEq, Prod.mk.injEq] at h
    obtain ⟨-, rfl, rfl⟩ := h
    rfl
  | case3 => simp at h
  | case4 e cs _ ih =>
    obtain ⟨⟨t, w, r⟩, hw, he⟩ := Option.map_eq_some_iff.1 h
    simp only [Prod.mk.injEq] at he
    obtain ⟨-, rfl, rfl⟩ := he
    simp [ih hw]
  | case5 c cs _ _ ih =>
    obtain ⟨⟨t, w, r⟩, hw, he⟩ := Option.map_eq_some_iff.1 h
    simp only [Prod.mk.injEq] at he
    obtain ⟨-, rfl, rfl⟩ := he
    simp [ih hw]

/-- The characters of the lexeme and the rest are the text. -/
theorem read_eq {c : Char} {cs rest : List Char} {l : Lexeme} (h : read c cs = .ok (l, rest)) :
    c :: cs = l.written ++ rest := by
  unfold read at h
  split at h
  · cases h
  split at h
  · simp only [Except.ok.injEq, Prod.mk.injEq] at h
    obtain ⟨rfl, rfl⟩ := h
    exact (numeral_append _).symm
  split at h
  · split at h
    · next hq =>
      simp only [Except.ok.injEq, Prod.mk.injEq] at h
      obtain ⟨rfl, rfl⟩ := h
      simp [quoted?_eq hq]
    · cases h
  split at h
  · simp only [Except.ok.injEq, Prod.mk.injEq] at h
    obtain ⟨rfl, rfl⟩ := h
    simp [verbatim, List.takeWhile_append_dropWhile]
  split at h
  · simp only [Except.ok.injEq, Prod.mk.injEq] at h
    obtain ⟨rfl, rfl⟩ := h
    rfl
  split at h
  · next ho =>
    simp only [Except.ok.injEq, Prod.mk.injEq] at h
    obtain ⟨rfl, rfl⟩ := h
    cases cs with
    | nil => simp at ho
    | cons d cs => simpa [verbatim] using ho.2
  split at h
  · simp only [Except.ok.injEq, Prod.mk.injEq] at h
    obtain ⟨rfl, rfl⟩ := h
    rfl
  · cases h

/-- A lexeme is written with at least one character. -/
theorem written_ne_nil {c : Char} {cs rest : List Char} {l : Lexeme}
    (h : read c cs = .ok (l, rest)) : l.written ≠ [] := by
  unfold read at h
  split at h
  · cases h
  split at h
  · next hn =>
    simp only [Except.ok.injEq, Prod.mk.injEq] at h
    obtain ⟨rfl, -⟩ := h
    exact numeral_ne_nil hn
  all_goals
    repeat' split at h
    all_goals first | cases h; done | skip
    all_goals
      simp only [Except.ok.injEq, Prod.mk.injEq] at h
      obtain ⟨rfl, -⟩ := h
      simp [verbatim]

theorem length_rest_lt {c : Char} {cs rest : List Char} {l : Lexeme}
    (h : read c cs = .ok (l, rest)) : rest.length < (c :: cs).length := by
  have := List.length_pos_iff.2 (written_ne_nil h)
  rw [read_eq h, List.length_append]
  omega

end Lexeme

/-- The tokens of a text that starts at `offset`. -/
def lexFrom (offset : Nat) : List Char → Except Error (List Token)
  | [] => .ok [.ending offset]
  | c :: cs =>
    if isSpace c then lexFrom (offset + c.utf8Size) cs
    else match _h : Lexeme.read c cs with
      | .error fault => .error (.lex offset fault)
      | .ok (l, rest) => do
        let tokens ← lexFrom (offset + Text.byteLength l.written) rest
        return l.toToken offset :: tokens
termination_by cs => cs.length
decreasing_by
  · simp
  · exact Lexeme.length_rest_lt ‹_›

/-- The tokens of a formula, the last one its end. -/
def lex (source : String) : Except Error (List Token) := lexFrom 0 source.toList

end TableDoc.Formula
