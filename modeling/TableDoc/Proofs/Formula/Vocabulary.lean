import TableDoc.Proofs.Formula.Lexemes

/-!
# What is read as a lexeme

`Token.Kind.Writes` says kind by kind what is written for a token, and `Unescapes` what a text
between quotes stands for. Every lexeme that is read is written so (`Lexeme.isWritten_of_read`).
-/

namespace TableDoc.Formula

def operatorSymbols : List String :=
  ["and", "or", "==", "!=", "<=", ">=", "+", "-", "*", "/", "<", ">"]

/-- What is written for a token of a kind, unless it is a text. -/
def Token.Kind.Writes : Token.Kind → List Char → Prop
  | .number, cs =>
    IsDigits cs ∨ ∃ whole places, (∀ c ∈ whole, c.isDigit) ∧ IsDigits places ∧
      cs = whole ++ '.' :: places
  | .boolean, cs => cs ∈ ["true", "false"].map String.toList
  | .identifier, cs => IsWord cs ∧ cs ∉ ["true", "false", "and", "or"].map String.toList
  | .leftParen, cs => cs = ['(']
  | .rightParen, cs => cs = [')']
  | .comma, cs => cs = [',']
  | .dot, cs => cs = ['.']
  | .leftBracket, cs => cs = ['[']
  | .rightBracket, cs => cs = [']']
  | .operator, cs => cs ∈ operatorSymbols.map String.toList
  | .text, _ | .ending, _ => False

/-- What stands between quotes, and the text that it stands for. -/
inductive Unescapes : List Char → List Char → Prop
  | nil : Unescapes [] []
  | plain {c : Char} {cs text : List Char} : c ≠ '\x22' → c ≠ '\\' → Unescapes cs text →
    Unescapes (c :: cs) (c :: text)
  | lineFeed {cs text : List Char} : Unescapes cs text →
    Unescapes ('\\' :: 'n' :: cs) ('\n' :: text)
  | tab {cs text : List Char} : Unescapes cs text → Unescapes ('\\' :: 't' :: cs) ('\t' :: text)
  | escaped {c : Char} {cs text : List Char} : c ≠ 'n' → c ≠ 't' → Unescapes cs text →
    Unescapes ('\\' :: c :: cs) (c :: text)

namespace Lexeme

/-- The lexeme is what it says, or a text in quotes. -/
inductive IsWritten : Lexeme → Prop
  | verbatim {kind : Token.Kind} {cs : List Char} : kind.Writes cs → IsWritten (.verbatim kind cs)
  | quoted {cs text : List Char} :
    Unescapes cs text → IsWritten ⟨.text, text, '\x22' :: (cs ++ ['\x22'])⟩

variable {c : Char} {cs rest : List Char} {l : Lexeme}

theorem IsWritten.kind_ne_ending (h : l.IsWritten) : l.kind ≠ .ending := by
  cases h with
  | verbatim h =>
    rintro rfl
    exact h
  | quoted => nofun

theorem IsWritten.written_ne_nil (h : l.IsWritten) : l.written ≠ [] := by
  cases h with
  | @verbatim kind cs h =>
    rintro rfl
    cases kind with
    | number =>
      rcases h with h | ⟨whole, places, -, -, h⟩
      · exact h.1 rfl
      · cases whole <;> cases h
    | identifier => exact h.1
    | boolean | operator => exact absurd (List.elem_eq_true_of_mem h) (by decide)
    | _ => cases h
  | quoted => exact List.cons_ne_nil _ _

/-! ## Lexemes that are read -/

/-- What is read as a numeral is written as a number. -/
theorem writes_numeral (h : c.isDigit ∨ c = '.' ∧ cs.head?.any Char.isDigit) :
    Token.Kind.number.Writes (numeral (c :: cs)).1 := by
  have hdigits (ds : List Char) : ∀ d ∈ ds.takeWhile Char.isDigit, d.isDigit :=
    fun _ => Text.of_mem_takeWhile
  rw [numeral]
  split
  · next d rest hrest =>
    split
    · next hd =>
      refine .inr ⟨_, _, hdigits _, ⟨?_, hdigits _⟩, rfl⟩
      rw [List.takeWhile_cons_of_pos hd]
      exact List.cons_ne_nil _ _
    · next hd =>
      refine .inl ⟨?_, hdigits _⟩
      rcases h with hc | ⟨rfl, hhead⟩
      · rw [List.takeWhile_cons_of_pos hc]
        exact List.cons_ne_nil _ _
      · cases hrest
        exact absurd hhead hd
  · next hpoint =>
    refine .inl ⟨?_, hdigits _⟩
    rcases h with hc | ⟨rfl, hhead⟩
    · rw [List.takeWhile_cons_of_pos hc]
      exact List.cons_ne_nil _ _
    · obtain ⟨d, ds, rfl⟩ := List.exists_cons_of_ne_nil (l := cs) (by rintro rfl; cases hhead)
      exact absurd rfl (hpoint d ds)

/-- What is read between quotes unescapes to its text. -/
theorem unescapes_of_quoted? {text written : List Char}
    (h : quoted? cs = some (text, written, rest)) :
    ∃ inner, written = inner ++ ['\x22'] ∧ Unescapes inner text := by
  fun_induction quoted? cs generalizing text written rest with
  | case1 | case3 => cases h
  | case2 cs =>
    cases h
    exact ⟨[], rfl, .nil⟩
  | case4 c cs _ ih =>
    obtain ⟨⟨_, _, _⟩, hquoted, h⟩ := Option.map_eq_some_iff.1 h
    cases h
    obtain ⟨inner, rfl, hinner⟩ := ih hquoted
    refine ⟨'\\' :: c :: inner, rfl, ?_⟩
    by_cases hn : c = 'n'
    · exact hn ▸ .lineFeed hinner
    by_cases ht : c = 't'
    · exact ht ▸ .tab hinner
    rw [unescape, if_neg hn, if_neg ht]
    exact .escaped hn ht hinner
  | case5 c cs hquote hbackslash ih =>
    obtain ⟨⟨_, _, _⟩, hquoted, h⟩ := Option.map_eq_some_iff.1 h
    cases h
    obtain ⟨inner, rfl, hinner⟩ := ih hquoted
    exact ⟨c :: inner, rfl, .plain hquote hbackslash hinner⟩

/-- A word is written as the token of its kind. -/
theorem writes_wordKind (h : IsWord cs) : (wordKind cs).Writes cs := by
  rw [wordKind]
  split
  · next hboolean => simpa [Token.Kind.Writes] using hboolean
  · next hboolean =>
    split
    · next hoperator => rcases hoperator with rfl | rfl <;> exact List.mem_of_elem_eq_true rfl
    · next hoperator => exact ⟨h, by simpa [not_or, and_assoc] using And.intro hboolean hoperator⟩

theorem writes_delimiterKind? {kind : Token.Kind} (h : delimiterKind? c = some kind) :
    kind.Writes [c] := by
  unfold delimiterKind? at h
  split at h <;> cases h <;> rfl

/-- What is read as a lexeme is written as one. -/
theorem isWritten_of_read (h : read c cs = .ok (l, rest)) : l.IsWritten := by
  rw [read] at h
  split at h
  · cases h
  split at h
  · next hnumeral =>
    cases h
    exact .verbatim (writes_numeral hnumeral)
  split at h
  · next hquote =>
    split at h
    · next hquoted =>
      cases h
      obtain ⟨inner, rfl, hinner⟩ := unescapes_of_quoted? hquoted
      exact hquote ▸ .quoted hinner
    · cases h
  split at h
  · next hstart =>
    cases h
    refine .verbatim (writes_wordKind ⟨by simpa [isWordStart] using hstart, fun d hd => ?_⟩)
    simpa [isWordPart] using Text.of_mem_takeWhile hd
  split at h
  · next hkind =>
    cases h
    exact .verbatim (writes_delimiterKind? hkind)
  split at h
  · next hlong =>
    cases h
    refine .verbatim ?_
    have hc := hlong.1
    simp only [startsLongOperator, Bool.or_eq_true, decide_eq_true_eq, or_assoc] at hc
    rcases hc with rfl | rfl | rfl | rfl <;> exact List.mem_of_elem_eq_true rfl
  split at h
  · next hshort =>
    cases h
    refine .verbatim ?_
    simp only [isShortOperator, Bool.or_eq_true, decide_eq_true_eq, or_assoc] at hshort
    rcases hshort with rfl | rfl | rfl | rfl | rfl | rfl <;> exact List.mem_of_elem_eq_true rfl
  · cases h

end Lexeme

end TableDoc.Formula
