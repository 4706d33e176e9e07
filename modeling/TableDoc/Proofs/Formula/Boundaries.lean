import TableDoc.Proofs.Formula.Printing
import TableDoc.Proofs.Formula.Vocabulary

/-!
# Where lexemes end

A blank is part of no lexeme but a text in quotes. So a text that can be read is read by itself if a
blank follows and no quote that could end a text in quotes (`Detached`, `exists_of_lexFrom_append`),
blanks at its head are skipped (`lexFrom_of_blanks_append`), and what stands before it only moves
the places of its tokens (`lexFrom_back`).
-/

namespace TableDoc.Formula

open Text (Blanks isBlank)

/-! ## Characters that are no blanks -/

variable {c : Char} {cs before rest : List Char}

theorem ne_of_isBlank {d : Char} (h : isBlank c) (hd : isBlank d = false) : c ≠ d := by
  rintro rfl
  rw [h] at hd
  cases hd

theorem eq_false_of_isBlank {p : Char → Bool} (h : isBlank c)
    (hp : ∀ {c}, p c → isBlank c = false) : p c = false := by
  refine Bool.eq_false_iff.2 fun hc => ?_
  rw [hp hc] at h
  cases h

theorem isBlank_of_isWordPart (h : isWordPart c) : isBlank c = false := Text.isBlank_of_isAlphanum h

theorem isBlank_of_isDigit (h : c.isDigit) : isBlank c = false :=
  Text.isBlank_of_isAlphanum (by simp [Char.isAlphanum, h])

theorem isBlank_of_isWordStart (h : isWordStart c) : isBlank c = false := by
  refine Text.isBlank_of_isAlphanum ?_
  rw [isWordStart, Bool.or_eq_true] at h
  rw [Char.isAlphanum, Bool.or_eq_true, Bool.or_eq_true]
  exact h.imp_left .inl

/-! ## Texts that do not go on -/

/-- A blank or nothing comes first, and there is no quote. -/
structure Detached (cs : List Char) : Prop where
  head? : ∀ c ∈ cs.head?, isBlank c
  quote_notMem : '\x22' ∉ cs

theorem detached_of_blanks (h : Blanks cs) : Detached cs where
  head? c hc := h c (List.mem_of_head? hc)
  quote_notMem hmem := absurd (h _ hmem) (by decide)

theorem detached_nil : Detached [] := detached_of_blanks nofun

theorem Detached.blanks_append (h : Blanks before) (hne : before ≠ []) (hrest : '\x22' ∉ rest) :
    Detached (before ++ rest) where
  head? c hc := by
    rw [List.head?_append_of_ne_nil before hne] at hc
    exact (detached_of_blanks h).head? c hc
  quote_notMem := List.not_mem_append (detached_of_blanks h).quote_notMem hrest

theorem Detached.head?_eq_false {p : Char → Bool} (h : Detached rest)
    (hp : ∀ {c}, p c → isBlank c = false) :
    ∀ c ∈ rest.head?, p c = false :=
  fun c hc => eq_false_of_isBlank (h.head? c hc) hp

namespace Lexeme

/-- A numeral ends where what follows is detached. -/
theorem numeral_append_of_detached (hrest : Detached rest) (cs : List Char) :
    numeral (cs ++ rest) = ((numeral cs).1, (numeral cs).2 ++ rest) := by
  have hdigit := hrest.head?_eq_false isBlank_of_isDigit
  have hpoint : rest.head? ≠ some '.' := fun h => absurd (hrest.head? '.' h) (by decide)
  rw [numeral, numeral, Text.takeWhile_append_of_head? cs hdigit,
    Text.dropWhile_append_of_head? cs hdigit]
  rcases cs.dropWhile Char.isDigit with _ | ⟨c, ds⟩
  · split
    · next h => exact absurd (congrArg List.head? h) hpoint
    · rfl
  by_cases hc : c = '.'
  · subst hc
    rcases ds with _ | ⟨d, ds⟩
    · rcases rest with _ | ⟨d, rest⟩
      · rfl
      · simp [hdigit d rfl]
    · simp only [List.cons_append]
      split
      · rw [← List.cons_append, Text.takeWhile_append_of_head? _ hdigit,
          Text.dropWhile_append_of_head? _ hdigit]
      · rfl
  · split
    · next h => exact absurd (List.cons.inj h).1 hc
    · split
      · next h => exact absurd (List.cons.inj h).1 hc
      · rfl

theorem quoted?_eq_none (h : '\x22' ∉ cs) : quoted? cs = none := by
  fun_induction quoted? cs with
  | case1 | case3 => rfl
  | case2 cs => exact absurd List.mem_cons_self h
  | case4 e cs _ ih =>
    rw [ih (List.not_mem_of_not_mem_cons (List.not_mem_of_not_mem_cons h))]
    rfl
  | case5 c cs _ _ ih =>
    rw [ih (List.not_mem_of_not_mem_cons h)]
    rfl

theorem quoted?_append (hrest : '\x22' ∉ rest) (cs : List Char) : quoted? (cs ++ rest) =
    (quoted? cs).map fun (text, written, after) => (text, written, after ++ rest) := by
  fun_induction quoted? cs with
  | case1 => exact quoted?_eq_none hrest
  | case2 cs => exact quoted?_quote _
  | case3 => exact quoted?_eq_none (List.not_mem_cons_of_ne_of_not_mem (by decide) hrest)
  | case4 e cs _ ih =>
    rw [List.cons_append, List.cons_append, quoted?_backslash, ih, Option.map_map, Option.map_map]
    rfl
  | case5 c cs hquote hbackslash ih =>
    rw [List.cons_append, quoted?_cons _ hquote hbackslash, ih, Option.map_map, Option.map_map]
    rfl

/-- A lexeme ends where a blank follows. -/
theorem read_append (hrest : Detached rest) (c : Char) (cs : List Char) :
    read c (cs ++ rest) = (read c cs).map fun (l, after) => (l, after ++ rest) := by
  have hhead {d : Char} (hd : isBlank d = false) : (cs ++ rest).head? = some d ↔
      cs.head? = some d := by
    cases cs with
    | nil => exact iff_of_false (fun h => by simp [hrest.head? d h] at hd) nofun
    | cons e cs => rfl
  have hdigit : (cs ++ rest).head?.any Char.isDigit = cs.head?.any Char.isDigit := by
    cases cs with
    | nil =>
      cases rest with
      | nil => rfl
      | cons d rest => exact hrest.head?_eq_false isBlank_of_isDigit d rfl
    | cons e cs => rfl
  have hword := hrest.head?_eq_false isBlank_of_isWordPart
  rw [read, read]
  simp only [hhead (d := '\x7b') rfl, hhead (d := '=') rfl, hdigit]
  split
  · rfl
  split
  · rw [← List.cons_append, numeral_append_of_detached hrest]
    rfl
  split
  · rw [quoted?_append hrest.quote_notMem]
    cases quoted? cs <;> rfl
  split
  · rw [Text.takeWhile_append_of_head? cs hword, Text.dropWhile_append_of_head? cs hword]
    rfl
  cases delimiterKind? c with
  | some kind => rfl
  | none =>
    dsimp only
    split
    · next h =>
      obtain ⟨d, cs, rfl⟩ := List.exists_cons_of_ne_nil (l := cs) (by rintro rfl; simp at h)
      rfl
    · split <;> rfl

/-- A blank that is no space of formulas begins no lexeme. -/
theorem read_of_isBlank (h : isBlank c) (cs : List Char) : read c cs = .error (.unexpected c) := by
  have hmark : c ∉ marks :=
    fun hmem => ne_of_isBlank h (eq_false_of_any (rfl : marks.any isBlank = false) hmem) rfl
  have hkind : delimiterKind? c = none :=
    Option.eq_none_iff_forall_ne_some.2 fun _ hk => hmark (mem_marks_of_delimiterKind? hk)
  have hlong : ¬startsLongOperator c := fun hop => hmark (operator_start (.inl hop)).1
  have hshort : ¬isShortOperator c := fun hop => hmark (operator_start (.inr hop)).1
  rw [read, if_neg fun hc => ne_of_isBlank h rfl hc.1, if_neg, if_neg (ne_of_isBlank h rfl),
    if_neg, hkind]
  · exact (if_neg fun hop => hlong hop.1).trans (if_neg hshort)
  · exact Bool.eq_false_iff.1 (eq_false_of_isBlank h isBlank_of_isWordStart)
  · rintro (hc | hc)
    · exact Bool.eq_false_iff.1 (eq_false_of_isBlank h isBlank_of_isDigit) hc
    · exact ne_of_isBlank h rfl hc.1

end Lexeme

/-! ## Texts with blanks -/

/-- A text that can be read is read alone, and then what is detached from it. -/
theorem exists_of_lexFrom_append (hrest : Detached rest) {offset : Nat} {tokens : List Token}
    (h : lexFrom offset (cs ++ rest) = .ok tokens) : ∃ ts us,
      lexFrom offset cs = .ok (ts ++ [.ending (offset + Text.byteLength cs)]) ∧
      lexFrom (offset + Text.byteLength cs) rest = .ok us ∧ tokens = ts ++ us ∧ ∀ t ∈ ts,
        t.kind ≠ .ending := by
  fun_induction lexFrom offset cs generalizing tokens with
  | case1 offset => exact ⟨[], tokens, rfl, h, rfl, nofun⟩
  | case2 offset c cs hspace ih =>
    rw [List.cons_append, lexFrom_space hspace] at h
    obtain ⟨ts, us, hts, hus, rfl, hkind⟩ := ih h
    rw [Nat.add_assoc] at hts hus
    exact ⟨ts, us, hts, hus, rfl, hkind⟩
  | case3 offset c cs hspace fault hread =>
    have hread' := Lexeme.read_append hrest c cs
    rw [hread] at hread'
    rw [List.cons_append, lexFrom_of_error (Bool.eq_false_iff.2 hspace) hread'] at h
    cases h
  | case4 offset c cs hspace l after hread ih =>
    have hread' := Lexeme.read_append hrest c cs
    rw [hread] at hread'
    rw [List.cons_append, lexFrom_of_read (Bool.eq_false_iff.2 hspace) hread'] at h
    obtain ⟨tokens, htokens, h⟩ := bind_eq_ok_iff.1 h
    cases h
    obtain ⟨ts, us, hts, hus, rfl, hkind⟩ := ih htokens
    have hstop : offset + Text.byteLength l.written + Text.byteLength after =
        offset + Text.byteLength (c :: cs) := by
      rw [Lexeme.read_eq hread, Text.byteLength_append, Nat.add_assoc]
    rw [hstop] at hts hus
    have hall : ∀ t ∈ l.toToken offset :: ts, t.kind ≠ .ending :=
      List.forall_mem_cons.2 ⟨(Lexeme.isWritten_of_read hread).kind_ne_ending, hkind⟩
    refine ⟨l.toToken offset :: ts, us, ?_, hus, rfl, hall⟩
    rw [hts]
    rfl

/-- Blanks at the head of a text that can be read are skipped. -/
theorem lexFrom_of_blanks_append (hbefore : Blanks before) {offset : Nat} {tokens : List Token}
    (h : lexFrom offset (before ++ rest) = .ok tokens) :
    lexFrom (offset + Text.byteLength before) rest = .ok tokens := by
  induction before generalizing offset with
  | nil => exact h
  | cons c before ih =>
    obtain ⟨hc, hbefore⟩ := List.forall_mem_cons.1 hbefore
    rw [List.cons_append] at h
    by_cases hspace : isSpace c
    · rw [lexFrom_space hspace] at h
      rw [Text.byteLength_cons, ← Nat.add_assoc]
      exact ih hbefore h
    · rw [lexFrom_of_error (Bool.eq_false_iff.2 hspace) (Lexeme.read_of_isBlank hc _)] at h
      cases h

/-- Blanks that are lexed have no tokens but the ending. -/
theorem lexFrom_of_blanks (hcs : Blanks cs) {offset : Nat} {tokens : List Token}
    (h : lexFrom offset cs = .ok tokens) :
    tokens = [.ending (offset + Text.byteLength cs)] := by
  rw [← List.append_nil cs] at h
  have hnil := lexFrom_of_blanks_append hcs h
  rw [lexFrom] at hnil
  exact (Except.ok.inj hnil).symm

/-- The token of the same text without its first `n` bytes. -/
def Token.back (n : Nat) (t : Token) : Token := { t with start := t.start - n, stop := t.stop - n }

theorem Token.back_ending (n offset : Nat) :
    (Token.ending (n + offset)).back n = .ending offset := by
  simp [back, ending]

theorem Lexeme.back_toToken (l : Lexeme) (n offset : Nat) :
    (l.toToken (n + offset)).back n = l.toToken offset := by
  simp only [Token.back, toToken, Nat.add_assoc, Nat.add_sub_cancel_left]

/-- Tokens do not depend on where their text starts, except for their places. -/
theorem lexFrom_back {n offset : Nat} {tokens : List Token}
    (h : lexFrom (n + offset) cs = .ok tokens) :
    lexFrom offset cs = .ok (tokens.map (Token.back n)) := by
  fun_induction lexFrom offset cs generalizing tokens with
  | case1 offset =>
    rw [lexFrom] at h
    cases h
    rw [List.map_singleton, Token.back_ending]
  | case2 offset c cs hspace ih =>
    rw [lexFrom_space hspace, Nat.add_assoc] at h
    exact ih h
  | case3 offset c cs hspace fault hread =>
    rw [lexFrom_of_error (Bool.eq_false_iff.2 hspace) hread] at h
    cases h
  | case4 offset c cs hspace l after hread ih =>
    rw [lexFrom_of_read (Bool.eq_false_iff.2 hspace) hread, Nat.add_assoc] at h
    obtain ⟨tokens, htokens, h⟩ := bind_eq_ok_iff.1 h
    cases h
    rw [ih htokens, List.map_cons, Lexeme.back_toToken]
    rfl

end TableDoc.Formula
