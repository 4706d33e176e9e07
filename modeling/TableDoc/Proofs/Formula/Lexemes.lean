import Mathlib
import TableDoc.Formula.Lexer
import TableDoc.Proofs.Text

/-!
# Written lexemes

`Lexeme.Spelled` lists how lexemes are written: numerals, quoted texts, words, delimiters and
operators. A lexeme that is written so is read back if a blank or nothing follows it
(`Lexeme.Spelled.read`), so lexemes between blanks are read one after another (`lexFrom_spelled`).
-/

namespace TableDoc.Formula

/-- One or more digits. -/
def IsDigits (cs : List Char) : Prop := cs ≠ [] ∧ ∀ c ∈ cs, c.isDigit

/-- A letter or an underscore, and then letters, digits and underscores. -/
def IsWord : List Char → Prop
  | [] => False
  | c :: cs => (c.isAlpha ∨ c = '_') ∧ ∀ d ∈ cs, d.isAlphanum ∨ d = '_'

instance : DecidablePred IsDigits := fun cs =>
  decidable_of_iff (cs ≠ [] ∧ cs.all Char.isDigit) (by simp [IsDigits])

instance : DecidablePred IsWord
  | [] => inferInstanceAs (Decidable False)
  | c :: cs =>
    decidable_of_iff ((c.isAlpha || c = '_') && cs.all fun d => d.isAlphanum || d = '_')
      (by simp [IsWord])

/-- A text with a backslash before every quote and backslash. -/
def escape (cs : List Char) : List Char :=
  cs.flatMap fun c => if c = '\x22' ∨ c = '\\' then ['\\', c] else [c]

namespace Lexeme

/-- A text in quotes. -/
def quotation (text : List Char) : Lexeme := ⟨.text, text, '\x22' :: (escape text ++ ['\x22'])⟩

/-- How lexemes are written. -/
inductive Spelled : Lexeme → Prop
  | whole : IsDigits whole → Spelled (.verbatim .number whole)
  | decimal : IsDigits whole → IsDigits places →
    Spelled (.verbatim .number (whole ++ '.' :: places))
  | fraction : IsDigits places → Spelled (.verbatim .number ('.' :: places))
  | quotation (text : List Char) : Spelled (.quotation text)
  | word : IsWord word → Spelled (.verbatim (wordKind word) word)
  | delimiter {kind : Token.Kind} : delimiterKind? c = some kind → Spelled (.verbatim kind [c])
  | longOperator : startsLongOperator c → Spelled (.verbatim .operator [c, '='])
  | shortOperator : isShortOperator c → Spelled (.verbatim .operator [c])

/-! ## Characters that start or end lexemes -/

/-- A blank follows, or nothing. -/
def Apart (rest : List Char) : Prop := ∀ c ∈ rest.head?, isSpace c

theorem apart_nil : Apart [] := nofun

theorem apart_cons {c : Char} {cs : List Char} (h : isSpace c) : Apart (c :: cs) := by
  rintro _ ⟨⟩
  exact h

variable {c d : Char} {cs whole places rest : List Char}

theorem eq_of_isSpace (h : isSpace c) : c = ' ' ∨ c = '\t' ∨ c = '\n' ∨ c = '\x0c' ∨ c = '\r' := by
  simpa [isSpace, or_assoc] using h

theorem eq_false_of_any {p : Char → Bool} (hp : cs.any p = false) (h : c ∈ cs) : p c = false :=
  Bool.eq_false_iff.2 (List.any_eq_false.1 hp c h)

/-- Where a blank or nothing follows, nothing does that has a property which no blank has. -/
theorem Apart.head? {p : Char → Bool} (h : Apart rest)
    (hp : [' ', '\t', '\n', '\x0c', '\r'].any p = false) :
    ∀ c ∈ rest.head?, p c = false := by
  intro c hc
  refine eq_false_of_any hp ?_
  rcases eq_of_isSpace (h c hc) with rfl | rfl | rfl | rfl | rfl <;> decide

/-! ## Numerals -/

/-- Digits are read up to where something apart follows. -/
theorem numeral_of_isDigits (h : ∀ c ∈ whole, c.isDigit) (hrest : Apart rest) :
    numeral (whole ++ rest) = (whole, rest) := by
  have hnone := hrest.head? (p := Char.isDigit) rfl
  rw [numeral, Text.takeWhile_append h hnone, Text.dropWhile_append h hnone]
  split
  · next d rest =>
    exact absurd (hrest '.' rfl) (by decide)
  · rfl

/-- Digits with a point among them are read up to where something apart follows. -/
theorem numeral_of_places (h : ∀ c ∈ whole, c.isDigit) (hplaces : IsDigits places)
    (hrest : Apart rest) :
    numeral (whole ++ '.' :: (places ++ rest)) = (whole ++ '.' :: places, rest) := by
  obtain ⟨d, ds, rfl⟩ := List.exists_cons_of_ne_nil hplaces.1
  have hnone := hrest.head? (p := Char.isDigit) rfl
  have hpoint : ∀ c ∈ ('.' :: (d :: ds ++ rest)).head?, c.isDigit = false := by
    rintro _ ⟨⟩
    rfl
  have hd : d.isDigit := hplaces.2 d List.mem_cons_self
  rw [numeral, Text.takeWhile_append h hpoint, Text.dropWhile_append h hpoint]
  simp only [List.cons_append, hd, if_true]
  rw [← List.cons_append, Text.takeWhile_append hplaces.2 hnone,
    Text.dropWhile_append hplaces.2 hnone]

theorem read_numeral (h : c.isDigit ∨ c = '.' ∧ cs.head?.any Char.isDigit)
    (hn : numeral (c :: cs) = (whole, rest)) : read c cs = .ok (.verbatim .number whole, rest) := by
  have hbrace : ¬(c = '\x7b' ∧ cs.head? = some '\x7b') := by
    rintro ⟨rfl, -⟩
    rcases h with h | h
    · exact absurd h (by decide)
    · exact absurd h.1 (by decide)
  rw [read, if_neg hbrace, if_pos h, hn]

/-! ## Texts and words -/

theorem quoted?_quote (rest : List Char) :
    quoted? ('\x22' :: rest) = some ([], ['\x22'], rest) := by
  rw [quoted?.eq_def]
  rfl

theorem quoted?_backslash (c : Char) (cs : List Char) : quoted? ('\\' :: c :: cs) =
    (quoted? cs).map fun (text, written, rest) =>
      (unescape c :: text, '\\' :: c :: written, rest) := by
  rw [quoted?.eq_def]
  rfl

theorem quoted?_cons (cs : List Char) (hquote : c ≠ '\x22') (hbackslash : c ≠ '\\') :
    quoted? (c :: cs) =
      (quoted? cs).map fun (text, written, rest) => (c :: text, c :: written, rest) := by
  rw [quoted?.eq_def]
  simp only [if_neg hquote, if_neg hbackslash]

/-- A text that is escaped and closed by a quote is read back. -/
theorem quoted?_escape (text rest : List Char) :
    quoted? (escape text ++ '\x22' :: rest) = some (text, escape text ++ ['\x22'], rest) := by
  induction text with
  | nil => exact quoted?_quote rest
  | cons c text ih =>
    rw [escape, List.flatMap_cons, ← escape]
    by_cases hc : c = '\x22' ∨ c = '\\'
    · have hescape : unescape c = c := by rcases hc with rfl | rfl <;> rfl
      rw [if_pos hc, List.append_assoc, List.cons_append, List.cons_append, List.nil_append,
        quoted?_backslash, ih, hescape]
      rfl
    · obtain ⟨hquote, hbackslash⟩ := not_or.1 hc
      rw [if_neg hc, List.append_assoc, List.cons_append, List.nil_append,
        quoted?_cons _ hquote hbackslash, ih]
      rfl

/-- A quotation is read back. -/
theorem read_quotation (text rest : List Char) :
    read '\x22' (escape text ++ '\x22' :: rest) = .ok (.quotation text, rest) := by
  rw [read, if_neg (fun h => absurd h.1 (by decide)), if_neg, if_pos rfl, quoted?_escape]
  · rfl
  · rintro (h | h)
    · exact absurd h (by decide)
    · exact absurd h.1 (by decide)

theorem isDigit_eq_false_of_isWordStart (h : isWordStart c) : c.isDigit = false := by
  simp only [isWordStart, Char.isAlpha, Char.isUpper, Char.isLower, Char.isDigit, Bool.or_eq_true,
    Bool.and_eq_true, decide_eq_true_eq, Bool.and_eq_false_iff, decide_eq_false_iff_not, ge_iff_le,
    UInt32.le_iff_toNat_le] at h ⊢
  rcases h with (h | h) | rfl
  · right
    have := h.1
    simp at this ⊢
    omega
  · right
    have := h.1
    simp at this ⊢
    omega
  · decide

/-- A word is read up to its end. -/
theorem read_word (hc : isWordStart c) (hcs : ∀ d ∈ cs, isWordPart d)
    (hrest : ∀ d ∈ rest.head?, isWordPart d = false) :
    read c (cs ++ rest) = .ok (.verbatim (wordKind (c :: cs)) (c :: cs), rest) := by
  have hne {d : Char} (hd : isWordStart d = false) : c ≠ d := by
    rintro rfl
    rw [hc] at hd
    cases hd
  have hdigit := isDigit_eq_false_of_isWordStart hc
  rw [read, if_neg fun h => hne rfl h.1, if_neg, if_neg (hne rfl), if_pos hc,
    Text.takeWhile_append hcs hrest, Text.dropWhile_append hcs hrest]
  rintro (h | h)
  · rw [hdigit] at h
    cases h
  · exact hne rfl h.1

/-! ## Delimiters and operators -/

/-- The characters that start delimiters and operators. -/
def marks : List Char := ['(', ')', ',', '.', '[', ']', '=', '!', '<', '>', '+', '-', '*', '/']

/-- A mark is a delimiter, or else an operator with an equality sign after it or without. -/
theorem read_mark (h : c ∈ marks) (hpoint : c = '.' → cs.head?.any Char.isDigit = false) :
    read c cs = match delimiterKind? c with
      | some kind => .ok (verbatim kind [c], cs)
      | none =>
        if startsLongOperator c ∧ cs.head? = some '=' then
          .ok (verbatim .operator [c, '='], cs.tail)
        else if isShortOperator c then .ok (verbatim .operator [c], cs)
        else .error (.unexpected c) := by
  have hdigit : c.isDigit = false := eq_false_of_any (rfl : marks.any _ = false) h
  have hword : isWordStart c = false := eq_false_of_any (rfl : marks.any _ = false) h
  have hbrace : c ≠ '\x7b' := fun hc => absurd (hc ▸ h) (by decide)
  have hquote : c ≠ '\x22' := fun hc => absurd (hc ▸ h) (by decide)
  have hnumeral : ¬(c.isDigit = true ∨ c = '.' ∧ cs.head?.any Char.isDigit = true) := by
    rintro (h | ⟨hc, h⟩)
    · rw [hdigit] at h
      cases h
    · rw [hpoint hc] at h
      cases h
  rw [read, if_neg fun h => hbrace h.1, if_neg hnumeral, if_neg hquote]
  exact if_neg (by simp [hword])

theorem mem_marks_of_delimiterKind? {kind : Token.Kind} (h : delimiterKind? c = some kind) :
    c ∈ marks := by
  unfold delimiterKind? at h
  split at h <;> first | decide | cases h

theorem read_delimiter {kind : Token.Kind} (h : delimiterKind? c = some kind) (hrest : Apart rest) :
    read c rest = .ok (.verbatim kind [c], rest) := by
  have hmark := mem_marks_of_delimiterKind? h
  have hnone := hrest.head? (p := Char.isDigit) rfl
  rw [read_mark hmark, h]
  intro _
  cases rest with
  | nil => rfl
  | cons d rest => exact hnone d rfl

theorem operator_start (h : startsLongOperator c ∨ isShortOperator c) :
    c ∈ marks ∧ c ≠ '.' ∧ delimiterKind? c = none := by
  have hmem : c ∈ ['=', '!', '<', '>', '+', '-', '*', '/'] := by
    simp only [startsLongOperator, isShortOperator, Bool.or_eq_true, decide_eq_true_eq] at h
    grind
  simp only [List.mem_cons, List.not_mem_nil, or_false] at hmem
  rcases hmem with rfl | rfl | rfl | rfl | rfl | rfl | rfl | rfl <;> decide

theorem read_longOperator (h : startsLongOperator c) (rest : List Char) :
    read c ('=' :: rest) = .ok (.verbatim .operator [c, '='], rest) := by
  obtain ⟨hmark, hpoint, hkind⟩ := operator_start (.inl h)
  rw [read_mark hmark fun hc => absurd hc hpoint, hkind]
  exact if_pos ⟨h, rfl⟩

theorem read_shortOperator (h : isShortOperator c) (hrest : Apart rest) :
    read c rest = .ok (.verbatim .operator [c], rest) := by
  obtain ⟨hmark, hpoint, hkind⟩ := operator_start (.inr h)
  have hequal : rest.head? ≠ some '=' := fun hr => absurd (hrest '=' hr) (by decide)
  rw [read_mark hmark fun hc => absurd hc hpoint, hkind]
  exact (if_neg fun hl => hequal hl.2).trans (if_pos h)

/-! ## Lexemes between blanks -/

theorem isSpace_eq_false {p : Char → Bool} (h : p c)
    (hp : [' ', '\t', '\n', '\x0c', '\r'].any p = false) :
    isSpace c = false := by
  rw [← Bool.not_eq_true]
  intro hs
  have hapart : Apart [c] := apart_cons hs
  have hc := hapart.head? hp c rfl
  rw [h] at hc
  cases hc

/-- A lexeme is read back if a blank or nothing follows it. -/
theorem Spelled.read {l : Lexeme} (h : l.Spelled) :
    ∃ c cs, l.written = c :: cs ∧ isSpace c = false ∧
    ∀ rest, Apart rest → Lexeme.read c (cs ++ rest) = .ok (l, rest) := by
  cases h with
  | whole hwhole =>
    obtain ⟨c, cs, rfl⟩ := List.exists_cons_of_ne_nil hwhole.1
    have hc : c.isDigit := hwhole.2 c List.mem_cons_self
    refine ⟨c, cs, rfl, isSpace_eq_false hc rfl, fun rest hrest => read_numeral (.inl hc) ?_⟩
    exact numeral_of_isDigits hwhole.2 hrest
  | @decimal _ places hwhole hplaces =>
    obtain ⟨c, cs, rfl⟩ := List.exists_cons_of_ne_nil hwhole.1
    have hc : c.isDigit := hwhole.2 c List.mem_cons_self
    refine ⟨c, cs ++ '.' :: places, rfl, isSpace_eq_false hc rfl, fun rest hrest => ?_⟩
    rw [List.append_assoc]
    exact read_numeral (.inl hc) (numeral_of_places hwhole.2 hplaces hrest)
  | @fraction places hplaces =>
    refine ⟨'.', places, rfl, rfl, fun rest hrest => read_numeral (.inr ⟨rfl, ?_⟩) ?_⟩
    · obtain ⟨d, ds, rfl⟩ := List.exists_cons_of_ne_nil hplaces.1
      exact hplaces.2 d List.mem_cons_self
    · have hwhole : ∀ c ∈ ([] : List Char), c.isDigit := nofun
      exact numeral_of_places hwhole hplaces hrest
  | quotation text =>
    refine ⟨'\x22', _, rfl, rfl, fun rest _ => ?_⟩
    rw [List.append_assoc]
    exact read_quotation text rest
  | @word word hword =>
    match word, hword with
    | c :: cs, ⟨hc, hcs⟩ =>
      have hstart : isWordStart c := by simpa [isWordStart] using hc
      refine ⟨c, cs, rfl, isSpace_eq_false hstart rfl, fun rest hrest =>
        read_word hstart ?_ (hrest.head? rfl)⟩
      intro d hd
      simpa [isWordPart] using hcs d hd
  | @delimiter c _ hkind =>
    refine ⟨c, [], rfl, ?_, fun rest hrest => read_delimiter hkind hrest⟩
    exact isSpace_eq_false (p := fun c => (delimiterKind? c).isSome) (by simp [hkind]) rfl
  | @longOperator c hop =>
    exact ⟨c, ['='], rfl, isSpace_eq_false hop rfl, fun rest _ => read_longOperator hop rest⟩
  | @shortOperator c hop =>
    exact ⟨c, [], rfl, isSpace_eq_false hop rfl, fun rest hrest => read_shortOperator hop hrest⟩

end Lexeme

open Lexeme (Apart)

theorem lexFrom_space {c : Char} (h : isSpace c) (offset : Nat) (cs : List Char) :
    lexFrom offset (c :: cs) = lexFrom (offset + c.utf8Size) cs := by
  rw [lexFrom, if_pos h]

theorem lexFrom_of_error {fault : LexFault} {c : Char} {cs : List Char} (hspace : isSpace c = false)
    (hread : Lexeme.read c cs = .error fault) (offset : Nat) :
    lexFrom offset (c :: cs) = .error (.lex offset fault) := by
  rw [lexFrom, if_neg (by rw [hspace]; decide)]
  split
  · next hf =>
    rw [hread] at hf
    cases hf
    rfl
  · next hf =>
    rw [hread] at hf
    cases hf

theorem lexFrom_of_read {l : Lexeme} {c : Char} {cs rest : List Char} (hspace : isSpace c = false)
    (hread : Lexeme.read c cs = .ok (l, rest)) (offset : Nat) : lexFrom offset (c :: cs) =
      lexFrom (offset + Text.byteLength l.written) rest >>= fun tokens =>
        .ok (l.toToken offset :: tokens) := by
  rw [lexFrom, if_neg (by rw [hspace]; decide)]
  split
  · next fault hf =>
    rw [hread] at hf
    cases hf
  · next hf =>
    rw [hread] at hf
    cases hf
    rfl

theorem lexFrom_spelled {l : Lexeme} {rest : List Char} (h : l.Spelled) (hrest : Apart rest)
    (offset : Nat) :
    lexFrom offset (l.written ++ rest) =
      lexFrom (offset + Text.byteLength l.written) rest >>= fun tokens =>
        .ok (l.toToken offset :: tokens) := by
  obtain ⟨c, cs, hwritten, hspace, hread⟩ := h.read
  rw [hwritten, List.cons_append, lexFrom_of_read hspace (hread rest hrest), hwritten]

end TableDoc.Formula
