import Mathlib
import TableDoc.Decimal.Numeral
import TableDoc.Proofs.Text
import TableDoc.Text.Digit

/-!
# Digits and numerals

Equally many digits are in the order of the numbers that they spell (`compare_ofDigits`). A
`Numeral` is a number as cells spell it, with digits of some class: every numeral with the digits of
ASCII is read, as the double nearest to it (`Numeral.read?_text`), and no numeral with other digits
is (`Numeral.isDigit_of_read?`).
-/

namespace TableDoc.Decimal

open Text (isDecimalDigit)

variable {c d : Char} {cs ds : List Char}

/-! ## The order of digits -/

theorem ofDigits_cons (c : Char) (cs : List Char) :
    ofDigits (c :: cs) = (c.toNat - 48) * 10 ^ cs.length + ofDigits cs := by
  change Nat.ofDigitChars 10 (c :: cs) 0 = _ + Nat.ofDigitChars 10 cs 0
  rw [Nat.ofDigitChars_cons, Nat.ofDigitChars_eq_ofDigitChars_zero, Nat.mul_zero, Nat.zero_add,
    Nat.mul_comm]
  rfl

theorem ofDigits_lt (h : ∀ c ∈ cs, c.isDigit) : ofDigits cs < 10 ^ cs.length := by
  induction cs with
  | nil => exact Nat.one_pos
  | cons c cs ih =>
    obtain ⟨hc, hcs⟩ := List.forall_mem_cons.1 h
    have hdigit : c.toNat - 48 ≤ 9 := Nat.sub_le_sub_right (Char.isDigit_iff_toNat.1 hc).2 48
    calc ofDigits (c :: cs) = (c.toNat - 48) * 10 ^ cs.length + ofDigits cs := ofDigits_cons c cs
      _ < 9 * 10 ^ cs.length + 10 ^ cs.length :=
        Nat.add_lt_add_of_le_of_lt (Nat.mul_le_mul_right _ hdigit) (ih hcs)
      _ = 10 ^ (c :: cs).length := by rw [List.length_cons, Nat.pow_succ]; omega

theorem compare_digit (hc : c.isDigit) (hd : d.isDigit) :
    compare (c.toNat - 48) (d.toNat - 48) = compare c d := by
  have hmono : StrictMonoOn (fun c : Char => c.toNat - 48) {c | c.isDigit} := fun a ha b _ hab =>
    Nat.sub_lt_sub_right (Char.isDigit_iff_toNat.1 ha).1 hab
  rw [← cmp_eq_compare, ← cmp_eq_compare]
  exact hmono.cmp_map_eq hc hd

/-- What is less than a unit matters only between equally many units. -/
theorem compare_mul_add {a b m n unit : Nat} (hm : m < unit) (hn : n < unit) :
    compare (a * unit + m) (b * unit + n) = (compare a b).then (compare m n) := by
  have mul_lt {a b m n : Nat} (h : a < b) (hm : m < unit) : a * unit + m < b * unit + n :=
    calc a * unit + m < (a + 1) * unit := by rw [Nat.succ_mul]; omega
      _ ≤ b * unit + n := Nat.le_add_right_of_le (Nat.mul_le_mul_right _ h)
  rcases Nat.lt_trichotomy a b with h | rfl | h
  · rw [Nat.compare_eq_lt.2 h, Nat.compare_eq_lt.2 (mul_lt h hm)]
    rfl
  · rw [Nat.compare_eq_eq.2 rfl, Ordering.eq_then, ← cmp_eq_compare, ← cmp_eq_compare]
    exact (add_right_strictMono (a := a * unit)).cmp_map_eq m n
  · rw [Nat.compare_eq_gt.2 h, Nat.compare_eq_gt.2 (mul_lt h hn)]
    rfl

/-- Equally many digits are in the order of the numbers that they spell. -/
theorem compare_ofDigits (hcs : ∀ c ∈ cs, c.isDigit) (hds : ∀ d ∈ ds, d.isDigit)
    (h : cs.length = ds.length) :
    compare (ofDigits cs) (ofDigits ds) = compare (String.ofList cs) (.ofList ds) := by
  induction cs generalizing ds with
  | nil =>
    obtain rfl := List.eq_nil_of_length_eq_zero h.symm
    rfl
  | cons c cs ih =>
    cases ds with
    | nil => cases h
    | cons d ds =>
      obtain ⟨hc, hcs⟩ := List.forall_mem_cons.1 hcs
      obtain ⟨hd, hds⟩ := List.forall_mem_cons.1 hds
      have hlength : cs.length = ds.length := Nat.succ.inj h
      rw [ofDigits_cons, ofDigits_cons, ← hlength,
        compare_mul_add (ofDigits_lt hcs) (hlength ▸ ofDigits_lt hds), compare_digit hc hd,
        ih hcs hds hlength, Text.compare_cons]

/-! ## Digits of all scripts -/

/-- The digits of other scripts than that of ASCII come after all characters of ASCII. -/
theorem isDigit_or_le_of_isDecimalDigit (h : isDecimalDigit c) : c.isDigit ∨ 128 ≤ c.toNat := by
  obtain ⟨first, hfirst, hc⟩ := List.any_eq_true.1 h
  rw [Bool.and_eq_true, decide_eq_true_eq, decide_eq_true_eq] at hc
  have hall : ∀ first ∈ Text.digitZeros, first = 48 ∨ 128 ≤ first := by decide
  rcases hall first hfirst with rfl | hle
  · exact .inl (Char.isDigit_iff_toNat.2 ⟨hc.1, Nat.le_of_lt_succ hc.2⟩)
  · exact .inr (hle.trans hc.1)

theorem isDecimalDigit_eq_false (h : c.isDigit = false) (hlt : c.toNat < 128) :
    isDecimalDigit c = false := by
  refine Bool.eq_false_iff.2 fun hc => ?_
  rcases isDigit_or_le_of_isDecimalDigit hc with hdigit | hle
  · rw [h] at hdigit
    cases hdigit
  · exact absurd hlt (Nat.not_lt.2 hle)

theorem toLower_eq_self (h : isDecimalDigit c ∨ c = '.') : c.toLower = c := by
  have hupper : ¬(65 ≤ c.toNat ∧ c.toNat ≤ 90) := by
    rcases h with h | rfl
    · rcases isDigit_or_le_of_isDecimalDigit h with hc | hc
      · have := (Char.isDigit_iff_toNat.1 hc).2
        change c.toNat ≤ 57 at this
        omega
      · omega
    · decide
  rw [Char.toLower, dif_neg]
  rintro ⟨h, h'⟩
  exact hupper ⟨UInt32.le_iff_toNat_le.1 h, UInt32.le_iff_toNat_le.1 h'⟩

/-! ## Numerals -/

/-- A number as it is spelled: maybe a sign, then digits, and maybe a point and further digits. -/
structure Numeral (digit : Char → Bool) where
  negative : Bool
  whole : List Char
  /-- The digits after the point; without them there is no point. -/
  places : List Char
  whole_ne_nil : whole ≠ []
  digits : ∀ c ∈ whole ++ places, digit c

/-- Digits after their point. -/
def fraction (places : List Char) : List Char := if places = [] then [] else '.' :: places

theorem head?_fraction {places : List Char} (h : c ∈ (fraction places).head?) : c = '.' := by
  rw [fraction] at h
  split at h
  · cases h
  · exact (Option.some.inj h).symm

theorem mem_fraction {places : List Char} (h : c ∈ places) : c ∈ fraction places := by
  rw [fraction, if_neg (List.ne_nil_of_mem h)]
  exact List.mem_cons_of_mem _ h

theorem of_mem_fraction {places : List Char} (h : c ∈ fraction places) : c ∈ places ∨ c = '.' := by
  rw [fraction] at h
  split at h
  · cases h
  · exact (List.mem_cons.1 h).symm

/-- A numeral with a point is read as its digits over a power of ten. -/
theorem unsigned?_append_fraction {whole places : List Char} (hne : whole ≠ [])
    (hwhole : ∀ c ∈ whole, c.isDigit) (hplaces : ∀ c ∈ places, c.isDigit) :
    unsigned? (whole ++ fraction places) =
      some (nearest (ofDigits (whole ++ places)) (-places.length)) := by
  have hpoint : ∀ c ∈ (fraction places).head?, c.isDigit = false := by
    intro c hc
    rw [head?_fraction hc]
    rfl
  rw [unsigned?, Text.takeWhile_append hwhole hpoint, Text.dropWhile_append hwhole hpoint, fraction]
  cases places with
  | nil => simp [hne, exponent?]
  | cons c places =>
    have htake := List.takeWhile_eq_self_iff.2 hplaces
    have hdrop := List.dropWhile_eq_nil_iff.2 hplaces
    simp only [if_neg (List.cons_ne_nil c places), htake, hdrop]
    rw [if_neg fun h => hne h.1]
    simp [exponent?]

/-- A number that is read begins with digits and a point, and goes on as an exponent, or it is a
word. -/
theorem of_unsigned? {x : Float} (h : unsigned? cs = some x) :
    (∃ before rest, cs = before ++ rest ∧ (∀ c ∈ before, c.isDigit ∨ c = '.') ∧
      exponent? rest ≠ none) ∨
      ∃ c ∈ cs.head?, c.toLower = 'i' ∨ c.toLower = 'n' := by
  have hsplit : cs.takeWhile Char.isDigit ++ cs.dropWhile Char.isDigit = cs :=
    List.takeWhile_append_dropWhile
  have hdigit {cs : List Char} : ∀ c ∈ cs.takeWhile Char.isDigit, c.isDigit ∨ c = '.' := fun c hc =>
    .inl (Text.of_mem_takeWhile hc)
  rw [unsigned?] at h
  split at h
  next places rest hparts =>
  have hrest : ∃ before, cs = before ++ rest ∧ ∀ c ∈ before, c.isDigit ∨ c = '.' := by
    split at hparts
    · next r hr =>
      cases hparts
      refine ⟨cs.takeWhile Char.isDigit ++ '.' :: r.takeWhile Char.isDigit, ?_, ?_⟩
      · rw [List.append_assoc, List.cons_append, List.takeWhile_append_dropWhile, ← hr, hsplit]
      · exact List.forall_mem_append.2 ⟨hdigit, List.forall_mem_cons.2 ⟨.inr rfl, hdigit⟩⟩
    · cases hparts
      exact ⟨_, hsplit.symm, hdigit⟩
  dsimp only at h
  split at h
  · right
    cases cs with
    | nil => cases h
    | cons c cs =>
      refine ⟨c, rfl, ?_⟩
      split at h
      · next hword =>
          exact .inl (hword.elim (fun h => (List.cons.inj h).1) fun h => (List.cons.inj h).1)
      · split at h
        · next hword => exact .inr (List.cons.inj hword).1
        · cases h
  · left
    obtain ⟨before, hcs, hbefore⟩ := hrest
    refine ⟨before, rest, hcs, hbefore, fun hnone => ?_⟩
    rw [hnone] at h
    cases h

/-- No digits are read but those of ASCII. -/
theorem isDigit_of_unsigned? {x : Float} (h : unsigned? cs = some x)
    (hcs : ∀ c ∈ cs, isDecimalDigit c ∨ c = '.') :
    ∀ c ∈ cs, c.isDigit ∨ c = '.' := by
  have hletter {letter : Char} (hdigit : letter.isDigit = false) (hlt : letter.toNat < 128)
      (hpoint : letter ≠ '.') : letter ∉ cs := by
    intro hmem
    rcases hcs letter hmem with h | h
    · rw [isDecimalDigit_eq_false hdigit hlt] at h
      cases h
    · exact hpoint h
  rcases of_unsigned? h with ⟨before, rest, rfl, hbefore, hrest⟩ | ⟨c, hc, hword⟩
  · cases rest with
    | nil => rwa [List.append_nil]
    | cons e rest =>
      rw [exponent?.eq_def] at hrest
      dsimp only at hrest
      split at hrest
      · next he =>
        have hmem : e ∈ before ++ e :: rest := List.mem_append_right _ List.mem_cons_self
        rcases he with rfl | rfl
        · exact absurd hmem (hletter rfl (by decide) (by decide))
        · exact absurd hmem (hletter rfl (by decide) (by decide))
      · exact absurd rfl hrest
  · have hmem : c ∈ cs := List.mem_of_head? hc
    rw [toLower_eq_self (hcs c hmem)] at hword
    rcases hword with rfl | rfl
    · exact absurd hmem (hletter rfl (by decide) (by decide))
    · exact absurd hmem (hletter rfl (by decide) (by decide))

namespace Numeral

variable {digit : Char → Bool}

/-- The numeral without its sign. -/
def unsigned (n : Numeral digit) : List Char := n.whole ++ fraction n.places

/-- The numeral as a text. -/
def text (n : Numeral digit) : List Char := if n.negative then '-' :: n.unsigned else n.unsigned

/-- The double nearest to the number. -/
def value (n : Numeral digit) : Float :=
  let size := nearest (ofDigits (n.whole ++ n.places)) (-n.places.length)
  if n.negative then -size else size

/-- The digits of ASCII are digits. -/
def ofAnyScript (n : Numeral Char.isDigit) : Numeral isDecimalDigit where
  negative := n.negative
  whole := n.whole
  places := n.places
  whole_ne_nil := n.whole_ne_nil
  digits c hc := Text.isDecimalDigit_of_isDigit (n.digits c hc)

theorem exists_head? (n : Numeral digit) : ∃ c cs, n.unsigned = c :: cs ∧ digit c := by
  obtain ⟨c, cs, hwhole⟩ := List.exists_cons_of_ne_nil n.whole_ne_nil
  refine ⟨c, cs ++ fraction n.places, ?_, n.digits c ?_⟩
  · rw [unsigned, hwhole, List.cons_append]
  · rw [hwhole]
    exact List.mem_append_left _ List.mem_cons_self

theorem read?_of_head? {c : Char} {cs : List Char} (hminus : c ≠ '-') (hplus : c ≠ '+') :
    read? (c :: cs) = unsigned? (c :: cs) := by
  rw [read?]
  · rintro _ ⟨⟩
    exact hminus rfl
  · rintro _ ⟨⟩
    exact hplus rfl

theorem read?_text_eq (n : Numeral digit) (hminus : digit '-' = false) (hplus : digit '+' = false) :
    read? n.text =
      if n.negative then (unsigned? n.unsigned).map (- ·) else unsigned? n.unsigned := by
  rw [text]
  cases n.negative with
  | true => rfl
  | false =>
    obtain ⟨c, cs, hcs, hc⟩ := n.exists_head?
    have hne {d : Char} (hd : digit d = false) : c ≠ d := by
      rintro rfl
      rw [hd] at hc
      cases hc
    rw [if_neg Bool.false_ne_true, if_neg Bool.false_ne_true, hcs]
    exact read?_of_head? (hne hminus) (hne hplus)

/-- A numeral with the digits of ASCII is read as its value. -/
theorem read?_text (n : Numeral Char.isDigit) : read? n.text = some n.value := by
  obtain ⟨hwhole, hplaces⟩ := List.forall_mem_append.1 n.digits
  rw [read?_text_eq n rfl rfl, unsigned,
    unsigned?_append_fraction n.whole_ne_nil hwhole hplaces, value]
  cases n.negative <;> rfl

/-- A numeral that is read has no digits but those of ASCII. -/
theorem isDigit_of_read? (n : Numeral isDecimalDigit) {x : Float} (h : read? n.text = some x) :
    ∀ c ∈ n.whole ++ n.places, c.isDigit := by
  have hchars : ∀ c ∈ n.unsigned, isDecimalDigit c ∨ c = '.' := by
    obtain ⟨hwhole, hplaces⟩ := List.forall_mem_append.1 n.digits
    refine List.forall_mem_append.2 ⟨fun c hc => .inl (hwhole c hc), fun c hc => ?_⟩
    exact (of_mem_fraction hc).imp_left (hplaces c)
  obtain ⟨size, hsize⟩ : ∃ size, unsigned? n.unsigned = some size := by
    rw [read?_text_eq n (isDecimalDigit_eq_false rfl (by decide))
      (isDecimalDigit_eq_false rfl (by decide))] at h
    split at h
    · obtain ⟨size, hsize, -⟩ := Option.map_eq_some_iff.1 h
      exact ⟨size, hsize⟩
    · exact ⟨x, h⟩
  intro c hc
  have hmem : c ∈ n.unsigned := by
    rw [unsigned, List.mem_append]
    exact (List.mem_append.1 hc).imp_right mem_fraction
  refine (isDigit_of_unsigned? hsize hchars c hmem).resolve_right ?_
  rintro rfl
  exact absurd (n.digits _ hc) (Bool.eq_false_iff.1 (isDecimalDigit_eq_false rfl (by decide)))

end Numeral

end TableDoc.Decimal
