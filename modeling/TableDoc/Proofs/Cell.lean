import TableDoc.Cell.Dates
import TableDoc.Formula.Evaluation
import TableDoc.Proofs.Calendar

/-!
# Cells

`Infers` says what a cell of a column without a type is. Such a cell always has a value, unless it
is a numeral with digits of another script than that of ASCII (`coerce_untyped`). A cell of a column
of dates is the text of a date, if the reader of dates takes no others (`DateReader.Sound`), and
comparisons of such cells are comparisons of their dates (`compare_dates`).
-/

namespace TableDoc

open Decimal (Numeral fraction)
open Text (isDecimalDigit)

namespace Cell

variable {cs text : List Char} {value : Scalar} {empty : EmptyCells}

/-! ## The form of a number -/

/-- The form of a number without a sign: digits, perhaps a point and more digits. -/
theorem isUnsignedNumber_iff : isUnsignedNumber cs ↔ ∃ whole places : List Char,
    whole ≠ [] ∧ (∀ c ∈ whole ++ places, isDecimalDigit c) ∧ cs = whole ++ fraction places := by
  constructor
  · intro h
    rw [isUnsignedNumber, Bool.and_eq_true, decide_eq_true_eq] at h
    obtain ⟨hwhole, h⟩ := h
    have hsplit : cs.takeWhile isDecimalDigit ++ cs.dropWhile isDecimalDigit = cs :=
      List.takeWhile_append_dropWhile
    have hdigits : ∀ c ∈ cs.takeWhile isDecimalDigit, isDecimalDigit c :=
      fun _ => Text.of_mem_takeWhile
    split at h
    · next hrest =>
      refine ⟨_, [], hwhole, List.forall_mem_append.2 ⟨hdigits, List.forall_mem_nil _⟩, ?_⟩
      rw [hrest] at hsplit
      exact hsplit.symm
    · next point places hrest =>
      rw [isDigits, Bool.and_eq_true, Bool.and_eq_true, decide_eq_true_eq, decide_eq_true_eq,
        List.all_eq_true] at h
      obtain ⟨rfl, hne, hplaces⟩ := h
      refine ⟨_, places, hwhole, List.forall_mem_append.2 ⟨hdigits, hplaces⟩, ?_⟩
      rw [fraction, if_neg hne, ← hrest, hsplit]
  · rintro ⟨whole, places, hne, hdigits, rfl⟩
    obtain ⟨hwhole, hplaces⟩ := List.forall_mem_append.1 hdigits
    have hpoint : ∀ c ∈ (fraction places).head?, isDecimalDigit c = false := by
      intro c hc
      rw [Decimal.head?_fraction hc]
      exact Decimal.isDecimalDigit_eq_false rfl (by decide)
    rw [isUnsignedNumber, Text.takeWhile_append hwhole hpoint, Text.dropWhile_append hwhole hpoint,
      Bool.and_eq_true, decide_eq_true_eq]
    refine ⟨hne, ?_⟩
    cases places with
    | nil => rfl
    | cons c places =>
      have hall : (c :: places).all isDecimalDigit := List.all_eq_true.2 hplaces
      simpa [fraction, isDigits] using hall

/-- The texts of the form of a number are those of numerals. -/
theorem isNumber_iff : isNumber text ↔ ∃ n : Numeral isDecimalDigit, n.text = text := by
  constructor
  · intro h
    rw [isNumber.eq_def] at h
    split at h
    · obtain ⟨whole, places, hne, hdigits, rfl⟩ := isUnsignedNumber_iff.1 h
      exact ⟨⟨true, whole, places, hne, hdigits⟩, rfl⟩
    · obtain ⟨whole, places, hne, hdigits, rfl⟩ := isUnsignedNumber_iff.1 h
      exact ⟨⟨false, whole, places, hne, hdigits⟩, rfl⟩
  · rintro ⟨n, rfl⟩
    have hunsigned : isUnsignedNumber n.unsigned :=
      isUnsignedNumber_iff.2 ⟨n.whole, n.places, n.whole_ne_nil, n.digits, rfl⟩
    rw [Numeral.text]
    cases n.negative with
    | true => exact hunsigned
    | false =>
      obtain ⟨c, cs, hcs, hc⟩ := n.exists_head?
      have hsign : c ≠ '-' := by
        rintro rfl
        rw [Decimal.isDecimalDigit_eq_false rfl (by decide)] at hc
        cases hc
      rw [hcs] at hunsigned
      rw [if_neg Bool.false_ne_true, hcs, isNumber]
      · exact hunsigned
      · rintro _ ⟨⟩
        exact hsign rfl

/-! ## Cells of columns without a type -/

/-- The value of a cell of a column without a type, given its text without blanks at the ends. -/
inductive Infers : List Char → Scalar → Prop
  | boolean (b : Bool) : Infers (if b then "true" else "false").toList (.boolean b)
  | number (n : Numeral Char.isDigit) : Infers n.text (.number n.value)
  | text {cs : List Char} : cs ∉ ["true".toList, "false".toList] →
    (∀ n : Numeral isDecimalDigit, n.text ≠ cs) → Infers cs (.text (.ofList cs))

/-- The text is a numeral, and one of its digits is none of ASCII. -/
def ForeignNumeral (text : List Char) : Prop :=
  ∃ n : Numeral isDecimalDigit, n.text = text ∧ ∃ c ∈ n.whole ++ n.places, c.isDigit = false

theorem not_isNumber_of_mem (h : text ∈ ["true".toList, "false".toList]) : ¬isNumber text := by
  simp only [List.mem_cons, List.not_mem_nil, or_false] at h
  rcases h with rfl | rfl
  · decide
  · decide

/-- Only a numeral with foreign digits stands for no value. -/
theorem exists_infers (h : ¬ForeignNumeral text) : ∃ value, Infers text value := by
  by_cases hword : text ∈ ["true".toList, "false".toList]
  · simp only [List.mem_cons, List.not_mem_nil, or_false] at hword
    rcases hword with rfl | rfl
    · exact ⟨_, .boolean true⟩
    · exact ⟨_, .boolean false⟩
  by_cases hnumber : ∃ n : Numeral isDecimalDigit, n.text = text
  · obtain ⟨n, rfl⟩ := hnumber
    have hdigits : ∀ c ∈ n.whole ++ n.places, c.isDigit := by
      intro c hc
      by_contra hforeign
      exact h ⟨n, rfl, c, hc, Bool.eq_false_iff.2 hforeign⟩
    exact ⟨_, .number ⟨n.negative, n.whole, n.places, n.whole_ne_nil, hdigits⟩⟩
  · exact ⟨_, .text hword fun n hn => hnumber ⟨n, hn⟩⟩

section
variable [DateReader]

/-- The first form that fits: a truth value, a number, or any text. -/
theorem ofText_none (text : List Char) : ofText text none =
    if text = "true".toList ∨ text = "false".toList then .ok (.boolean (text = "true".toList))
    else if isNumber text then
      (Decimal.read? text).elim (.error (.unreadableNumber (.ofList text))) fun x => .ok (.number x)
    else .ok (.text (.ofList text)) := by
  simp only [ofText, accepts, Option.all_none, Bool.and_true, Bool.or_eq_true, decide_eq_true_eq,
    reduceCtorEq, decide_false, Bool.false_and, Bool.false_eq_true, if_false, ite_self]
  cases Decimal.read? text <;> rfl

/-- A numeral in a column without a type is its number, or a fault if it cannot be read. -/
theorem ofText_numeral (n : Numeral isDecimalDigit) : ofText n.text none =
    (Decimal.read? n.text).elim (.error (.unreadableNumber (.ofList n.text))) fun x =>
      .ok (.number x) := by
  have hnumber : isNumber n.text := isNumber_iff.2 ⟨n, rfl⟩
  have hword : n.text ∉ ["true".toList, "false".toList] :=
    fun hmem => not_isNumber_of_mem hmem hnumber
  rw [ofText_none, if_neg (by simpa using hword), if_pos hnumber]

theorem ofText_of_infers (h : Infers text value) : ofText text none = .ok value := by
  cases h with
  | boolean b =>
    rw [ofText_none]
    cases b <;> rfl
  | number n =>
    have hread : Decimal.read? n.ofAnyScript.text = some n.value := n.read?_text
    exact (ofText_numeral n.ofAnyScript).trans (by rw [hread, Option.elim_some])
  | text hword hnumber =>
    rw [ofText_none, if_neg (by simpa using hword), if_neg]
    exact fun h => (isNumber_iff.1 h).elim hnumber

theorem ofText_of_foreign (h : ForeignNumeral text) :
    ofText text none = .error (.unreadableNumber (.ofList text)) := by
  obtain ⟨n, rfl, c, hc, hforeign⟩ := h
  have hread : Decimal.read? n.text = none := by
    refine Option.eq_none_iff_forall_ne_some.2 fun x hx => ?_
    exact Bool.eq_false_iff.1 hforeign (n.isDigit_of_read? hx c hc)
  rw [ofText_numeral, hread, Option.elim_none]

/-- A text in a column without a type is read as what it stands for, and fails just if it is a
numeral with foreign digits. -/
theorem ofText_untyped (text : List Char) :
    (∀ value, ofText text none = .ok value ↔ Infers text value) ∧
    ∀ fault, ofText text none = .error fault ↔ ForeignNumeral text ∧
      fault = .unreadableNumber (.ofList text) := by
  by_cases hforeign : ForeignNumeral text
  · have herror := ofText_of_foreign hforeign
    refine ⟨fun value => ⟨fun h => ?_, fun h => ofText_of_infers h⟩, fun fault => ?_⟩
    · rw [herror] at h
      cases h
    · rw [herror, Except.error.injEq, and_iff_right hforeign, eq_comm]
  · obtain ⟨found, hfound⟩ := exists_infers hforeign
    have hok := ofText_of_infers hfound
    refine ⟨fun value => ⟨fun h => ?_, ofText_of_infers⟩, fun fault => ?_⟩
    · rw [hok] at h
      exact Except.ok.inj h ▸ hfound
    · rw [hok]
      exact iff_of_false nofun fun h => hforeign h.1

theorem coerce_of_ne_nil {raw : List Char} (h : Text.trim raw ≠ []) (type : Option ColumnType)
    (empty : EmptyCells) :
    coerce raw type empty = ofText (Text.trim raw) type := by
  rw [coerce]
  split
  · next hnil => exact absurd hnil h
  · rfl

/-- A cell of a column without a type has a value, unless it is empty where it must not be, or a
numeral with a digit that is none of ASCII. -/
theorem coerce_untyped (raw : List Char) (hempty : empty ≠ .error) :
    (Text.trim raw = [] → ∃ value, coerce raw none empty = .ok value) ∧
    (Text.trim raw ≠ [] →
      (∀ value, coerce raw none empty = .ok value ↔ Infers (Text.trim raw) value) ∧
      ∀ fault, coerce raw none empty = .error fault ↔
        ForeignNumeral (Text.trim raw) ∧ fault = .unreadableNumber (.ofList (Text.trim raw))) := by
  refine ⟨fun hnil => ?_, fun hne => ?_⟩
  · rw [coerce, hnil]
    cases empty with
    | error => exact absurd rfl hempty
    | null | zero | emptyText => exact ⟨_, rfl⟩
  · rw [coerce_of_ne_nil hne]
    exact ofText_untyped (Text.trim raw)

end

theorem coerce_untyped_foreignDigit :
    (∃ value, coerce "  ".toList none .zero = .ok value) ∧
    coerce " -4.5 ".toList none .null = .ok (.number (-Decimal.nearest 45 (-1))) ∧
    coerce "1.٣".toList none .null = .error (.unreadableNumber "1.٣") := by
  refine ⟨(coerce_untyped _ (by decide)).1 rfl, ?_, ?_⟩
  · exact (((coerce_untyped _ (by decide)).2 (by decide)).1 _).2
      (.number ⟨true, ['4'], ['5'], by decide, List.all_eq_true.1 rfl⟩)
  · let n : Numeral isDecimalDigit := ⟨false, ['1'], ['٣'], by decide, List.all_eq_true.1 rfl⟩
    exact (((coerce_untyped _ (by decide)).2 (by decide)).2 _).2
      ⟨⟨n, rfl, '٣', by decide, rfl⟩, rfl⟩

/-- A cell of a column without a type may have no value. -/
theorem coerce_untyped_not_always_ok :
    ¬∀ (raw : List Char) (empty : EmptyCells), empty ≠ .error →
    ∃ value, coerce raw none empty = .ok value ∧
      (Text.trim raw ≠ [] →
        (∃ b, value = .boolean b) ∨ (∃ x, value = .number x) ∨
          value = .text (.ofList (Text.trim raw))) := by
  intro h
  obtain ⟨value, hvalue, -⟩ := h ['٣'] .null (by decide)
  have herror : coerce ['٣'] none .null = .error (.unreadableNumber "٣") := by decide
  rw [herror] at hvalue
  cases hvalue

/-! ## Cells of columns of dates -/

/-- The reader of the program takes the texts that spell a date. -/
theorem isCalendarDate_iff : isCalendarDate text ↔ ∃ date, Calendar.Spells text date := by
  constructor
  · intro h
    rw [isCalendarDate.eq_def] at h
    split at h
    · next y₁ y₂ y₃ y₄ m₁ m₂ d₁ d₂ =>
      rw [Bool.and_eq_true, List.all_eq_true] at h
      obtain ⟨hdigits, hdate⟩ := h
      change ∀ c ∈ [y₁, y₂, y₃, y₄] ++ ([m₁, m₂] ++ [d₁, d₂]), c.isDigit at hdigits
      rw [List.forall_mem_append, List.forall_mem_append] at hdigits
      obtain ⟨hy, hm, hd⟩ := hdigits
      obtain ⟨date, hyear, hmonth, hday⟩ := Calendar.isDate_iff.1 hdate
      exact ⟨date, .intro ⟨rfl, hy⟩ ⟨rfl, hm⟩ ⟨rfl, hd⟩ hyear hmonth hday⟩
    · cases h
  · rintro ⟨date, @⟨y, m, d, _, hy, hm, hd, hyear, hmonth, hday⟩⟩
    have hdate := Calendar.isDate_iff.2 ⟨date, hyear, hmonth, hday⟩
    match y, m, d, hy.length, hm.length, hd.length with
    | [y₁, y₂, y₃, y₄], [m₁, m₂], [d₁, d₂], _, _, _ =>
      have hdigits : ∀ c ∈ [y₁, y₂, y₃, y₄] ++ ([m₁, m₂] ++ [d₁, d₂]), c.isDigit :=
        List.forall_mem_append.2 ⟨hy.isDigit, List.forall_mem_append.2 ⟨hm.isDigit, hd.isDigit⟩⟩
      exact Bool.and_eq_true_iff.2 ⟨List.all_eq_true.2 hdigits, hdate⟩

/-- What a reader of dates has to keep to: a text of the form of a date is taken only if its digits
are those of ASCII and there is such a day. -/
def DateReader.Sound [DateReader] : Prop :=
  ∀ text, isDateShaped text → DateReader.isDate text → isCalendarDate text

/-- A cell of a column of dates is a text of their form that the reader takes. -/
theorem ofText_date_eq_ok_iff [DateReader] : ofText text (some .date) = .ok value ↔
    value = .text (.ofList text) ∧ isDateShaped text ∧ DateReader.isDate text := by
  have htext : ofText text (some .date) =
      if isDateShaped text then
        if DateReader.isDate text then .ok (.text (.ofList text))
        else .error (.noSuchDate (.ofList text))
      else .error (.mismatch (.ofList text) .date) := by
    cases hdate : DateReader.isDate text <;> simp [ofText, accepts, hdate]
  rw [htext]
  constructor
  · intro h
    split at h
    · next hform =>
      split at h
      · next hdate =>
        cases h
        exact ⟨rfl, hform, hdate⟩
      · cases h
    · cases h
  · rintro ⟨rfl, hform, hdate⟩
    rw [if_pos hform, if_pos hdate]

/-- If the reader is sound, a cell of a column of dates is the text of a date. -/
theorem exists_spells_of_coerce [DateReader] (hreader : DateReader.Sound) {raw : List Char}
    (hne : Text.trim raw ≠ []) (h : coerce raw (some .date) empty = .ok value) :
    value = .text (.ofList (Text.trim raw)) ∧ ∃ date, Calendar.Spells (Text.trim raw) date := by
  rw [coerce_of_ne_nil hne, ofText_date_eq_ok_iff] at h
  obtain ⟨hvalue, hform, hdate⟩ := h
  exact ⟨hvalue, isCalendarDate_iff.1 (hreader _ hform hdate)⟩

end Cell

namespace Formula

/-- The comparison holds of values in this order. -/
def Comparison.test (op : Comparison) (order : Ordering) : Bool :=
  match op with
  | equal => order.isEq
  | notEqual => order.isNe
  | less => order.isLT
  | lessEqual => order.isLE
  | greater => order.isGT
  | greaterEqual => order.isGE

theorem Comparison.apply_text (op : Comparison) (s t : String) :
    op.apply (.text s) (.text t) = .ok (op.test (compare s t)) := by
  rw [apply]
  cases op <;> cases compare s t <;> rfl

end Formula

namespace Cell

/-- Cells of dates hold the texts of days that exist, and compare as their dates do. -/
theorem compare_dates [DateReader] (hreader : DateReader.Sound) {raw raw' : List Char}
    {empty empty' : EmptyCells} {value value' : Scalar} (hne : Text.trim raw ≠ [])
    (hne' : Text.trim raw' ≠ []) (h : coerce raw (some .date) empty = .ok value)
    (h' : coerce raw' (some .date) empty' = .ok value') :
    ∃ date date',
      value = .text (.ofList (Text.trim raw)) ∧ Calendar.Spells (Text.trim raw) date ∧
      value' = .text (.ofList (Text.trim raw')) ∧ Calendar.Spells (Text.trim raw') date' ∧
      ∀ op : Formula.Comparison, op.apply value value' = .ok (op.test (compare date date')) := by
  obtain ⟨rfl, date, hdate⟩ := exists_spells_of_coerce hreader hne h
  obtain ⟨rfl, date', hdate'⟩ := exists_spells_of_coerce hreader hne' h'
  refine ⟨date, date', rfl, hdate, rfl, hdate', fun op => ?_⟩
  rw [op.apply_text, Calendar.compare_of_spells hdate hdate']

theorem compare_dates_leapDay :
    let lastDay := " 0999-12-31".toList
    let leapDay := "2024-02-29 ".toList
    DateReader.Sound ∧
    coerce lastDay (some .date) .null = .ok (.text "0999-12-31") ∧
    coerce leapDay (some .date) .error = .ok (.text "2024-02-29") ∧
    ∃ date date', Calendar.Spells "0999-12-31".toList date ∧
      Calendar.Spells "2024-02-29".toList date' ∧ ∀ op : Formula.Comparison,
      op.apply (.text "0999-12-31") (.text "2024-02-29") = .ok (op.test (compare date date')) := by
  intro lastDay leapDay
  have hlast : coerce lastDay (some .date) .null = .ok (.text "0999-12-31") := by decide
  have hleap : coerce leapDay (some .date) .error = .ok (.text "2024-02-29") := by decide
  have hreader : DateReader.Sound := fun _ _ hdate => hdate
  obtain ⟨date, date', -, hdate, -, hdate', hop⟩ :=
    compare_dates hreader (by decide) (by decide) hlast hleap
  exact ⟨hreader, hlast, hleap, date, date', hdate, hdate', hop⟩

end Cell

end TableDoc
