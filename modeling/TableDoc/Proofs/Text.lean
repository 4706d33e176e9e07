import Mathlib.Data.List.TakeWhile
import Mathlib.Data.String.Basic
import Mathlib.Order.Compare
import TableDoc.Span
import TableDoc.Text.Blank
import TableDoc.Text.Bytes
import TableDoc.Text.Lines

/-!
# Parts of texts

What a text starts with and what follows it (`takeWhile_append`, `dropWhile_append`), which pieces
it is divided into (`flatMap_splitOn`, `extract_of_append`), what is left of a text without the
blanks at its ends (`trim_eq_iff`), which texts have no line breaks but line feeds
(`normalize_of_notMem`), how lines make up a text (`unlines_append`, `lines_unlines`), where in a
document a text ends that starts at the beginning of a line (`position`), how many bytes a text
takes (`byteLength_toList`), and which of two texts comes first (`compare_append`).
-/

namespace TableDoc.Text

/-! ## What a list starts with -/

section

variable {α : Type} {p : α → Bool} {a : α} {as rest : List α}

theorem takeWhile_append (has : ∀ a ∈ as, p a) (hrest : ∀ a ∈ rest.head?, p a = false) :
    (as ++ rest).takeWhile p = as := by
  rw [List.takeWhile_append_of_pos has]
  cases rest with
  | nil => exact List.append_nil _
  | cons a rest => rw [List.takeWhile_cons_of_neg (by simp [hrest a rfl]), List.append_nil]

theorem dropWhile_append (has : ∀ a ∈ as, p a) (hrest : ∀ a ∈ rest.head?, p a = false) :
    (as ++ rest).dropWhile p = rest := by
  rw [List.dropWhile_append_of_pos has]
  cases rest with
  | nil => rfl
  | cons a rest => rw [List.dropWhile_cons_of_neg (by simp [hrest a rfl])]

theorem takeWhile_append_of_head? (as : List α) (hrest : ∀ a ∈ rest.head?, p a = false) :
    (as ++ rest).takeWhile p = as.takeWhile p := by
  rw [List.takeWhile_append]
  split
  · next hall =>
    have hnil : rest.takeWhile p = [] := by
      cases rest with
      | nil => rfl
      | cons a rest => rw [List.takeWhile_cons_of_neg (by simp [hrest a rfl])]
    rw [hnil, List.append_nil, (List.takeWhile_prefix p).eq_of_length hall]
  · rfl

theorem dropWhile_append_of_head? (as : List α) (hrest : ∀ a ∈ rest.head?, p a = false) :
    (as ++ rest).dropWhile p = as.dropWhile p ++ rest := by
  have hsplit : (as ++ rest).takeWhile p ++ (as ++ rest).dropWhile p =
      as.takeWhile p ++ (as.dropWhile p ++ rest) := by
    rw [List.takeWhile_append_dropWhile, ← List.append_assoc, List.takeWhile_append_dropWhile]
  rw [takeWhile_append_of_head? as hrest] at hsplit
  exact List.append_cancel_left hsplit

theorem append_eq_append_cons {bs before after : List α} (h : as ++ bs = before ++ a :: after) :
    (∃ rest, as = before ++ a :: rest ∧ after = rest ++ bs) ∨
      ∃ rest, before = as ++ rest ∧ bs = rest ++ a :: after := by
  rcases List.append_eq_append_iff.1 h with ⟨rest, hbefore, hbs⟩ | ⟨rest, has, hrest⟩
  · exact .inr ⟨rest, hbefore, hbs⟩
  · cases rest with
    | nil => exact .inr ⟨[], by rw [has, List.append_nil, List.append_nil], hrest.symm⟩
    | cons _ rest =>
      obtain ⟨rfl, hafter⟩ := List.cons.inj hrest
      exact .inl ⟨rest, has, hafter⟩

theorem of_mem_takeWhile (h : a ∈ as.takeWhile p) : p a := List.all_eq_true.1 List.all_takeWhile a h

theorem of_mem_head?_dropWhile (h : a ∈ (as.dropWhile p).head?) : p a = false := by
  have hnot := List.head?_dropWhile_not p as
  rw [Option.mem_def.1 h] at hnot
  exact hnot

variable [DecidableEq α]

theorem notMem_takeWhile_ne (a : α) (as : List α) : a ∉ as.takeWhile (· ≠ a) := by
  intro h
  simpa using of_mem_takeWhile h

theorem takeWhile_ne_append (h : a ∉ as) : (as ++ a :: rest).takeWhile (· ≠ a) = as :=
  takeWhile_append (fun b hb => decide_eq_true fun hba => h (hba ▸ hb)) (by simp)

theorem dropWhile_ne_append (h : a ∉ as) : (as ++ a :: rest).dropWhile (· ≠ a) = a :: rest :=
  dropWhile_append (fun b hb => decide_eq_true fun hba => h (hba ▸ hb)) (by simp)

theorem eq_append_of_dropWhile_ne {b : α} (h : as.dropWhile (· ≠ a) = b :: rest) :
    as = as.takeWhile (· ≠ a) ++ a :: rest := by
  have hb : b ∈ (as.dropWhile (· ≠ a)).head? := by
    rw [h]
    rfl
  obtain rfl : b = a := by simpa using of_mem_head?_dropWhile hb
  rw [← h, List.takeWhile_append_dropWhile]

/-- A list is split at every place where the item stands. -/
theorem notMem_of_mem_splitOn {piece : List α} (h : piece ∈ as.splitOn a) : a ∉ piece := by
  induction as generalizing piece with
  | nil =>
    obtain rfl := List.mem_singleton.1 h
    exact List.not_mem_nil
  | cons b bs ih =>
    rw [List.splitOn_cons_eq_if_modifyHead] at h
    split at h
    · rcases List.mem_cons.1 h with rfl | h
      · exact List.not_mem_nil
      · exact ih h
    · next hb =>
      cases hpieces : bs.splitOn a with
      | nil => exact absurd hpieces (List.splitOn_ne_nil _ _)
      | cons first others =>
        rw [hpieces] at h ih
        rcases List.mem_cons.1 h with rfl | h
        · have hne : a ≠ b := fun heq => hb (beq_iff_eq.2 heq.symm)
          exact List.not_mem_cons_of_ne_of_not_mem hne (ih List.mem_cons_self)
        · exact ih (List.mem_cons_of_mem _ h)

/-- The pieces of a list, each with the separator behind it, make up the list with one more. -/
theorem flatMap_splitOn (a : α) (as : List α) : (as.splitOn a).flatMap (· ++ [a]) = as ++ [a] := by
  have hpieces {pieces : List (List α)} (h : pieces ≠ []) :
      pieces.flatMap (· ++ [a]) = [a].intercalate pieces ++ [a] := by
    induction pieces with
    | nil => exact absurd rfl h
    | cons piece pieces ih =>
      cases pieces with
      | nil => rw [List.flatMap_singleton, List.intercalate_singleton]
      | cons next pieces =>
        rw [List.flatMap_cons, ih (List.cons_ne_nil _ _), List.intercalate_cons_cons,
          List.append_assoc (piece ++ [a])]
  rw [hpieces (List.splitOn_ne_nil _ _), List.intercalate_splitOn]

end

theorem extract_of_append {α : Type} {as before piece after : List α} {start stop : Nat}
    (h : as = before ++ (piece ++ after)) (hstart : start = before.length)
    (hstop : stop = start + piece.length) :
    as.extract start stop = piece := by
  rw [List.extract_eq_take_drop, h, hstart, List.drop_left]
  exact List.take_left' (by omega)

theorem getElem?_of_append {α : Type} {a : α} {as before after : List α} {i : Nat}
    (h : as = before ++ a :: after) (hi : i = before.length) : as[i]? = some a := by
  rw [h, hi, List.getElem?_append_right (Nat.le_refl _), Nat.sub_self]
  rfl

variable {c : Char} {cs text before after rest : List Char}

/-! ## Blanks at the ends -/

theorem isBlank_of_isAlphanum (h : (c.isAlphanum || c = '_') = true) : isBlank c = false := by
  have hbounds : 48 ≤ c.toNat ∧ c.toNat ≤ 122 := by
    delta Char.isAlphanum Char.isAlpha Char.isUpper Char.isLower Char.isDigit at h
    simp only [Bool.or_eq_true, Bool.and_eq_true, decide_eq_true_eq, UInt32.le_iff_toNat_le] at h
    rcases h with ((h | h) | h) | rfl
    · exact ⟨Nat.le_trans (by decide) h.1, Nat.le_trans h.2 (by decide)⟩
    · exact ⟨Nat.le_trans (by decide) h.1, Nat.le_trans h.2 (by decide)⟩
    · exact ⟨Nat.le_trans (by decide) h.1, Nat.le_trans h.2 (by decide)⟩
    · decide
  simp only [isBlank, Bool.or_eq_false_iff, Bool.and_eq_false_iff, decide_eq_false_iff_not,
    beq_eq_false_iff_ne]
  omega

/-- Nothing but blanks. -/
def Blanks (cs : List Char) : Prop := ∀ c ∈ cs, isBlank c

instance : DecidablePred Blanks := fun _ => decidable_of_iff _ List.all_eq_true

/-- No blank at the ends. -/
structure IsTrimmed (cs : List Char) : Prop where
  head? : ∀ c ∈ cs.head?, isBlank c = false
  getLast? : ∀ c ∈ cs.getLast?, isBlank c = false

theorem blanks_reverse : Blanks cs.reverse ↔ Blanks cs :=
  forall_congr' fun _ => by rw [List.mem_reverse]

theorem trimStart_append (hbefore : Blanks before) (hrest : ∀ c ∈ rest.head?, isBlank c = false) :
    trimStart (before ++ rest) = rest :=
  dropWhile_append hbefore hrest

theorem trimStart_append_cons (hbefore : Blanks before) (hc : isBlank c = false)
    (rest : List Char) :
    trimStart (before ++ c :: rest) = c :: rest := by
  refine trimStart_append hbefore ?_
  rintro _ ⟨⟩
  exact hc

theorem trimEnd_append (hafter : Blanks after) (hrest : ∀ c ∈ rest.getLast?, isBlank c = false) :
    trimEnd (rest ++ after) = rest := by
  rw [trimEnd, List.reverse_append, dropWhile_append (blanks_reverse.2 hafter),
    List.reverse_reverse]
  rwa [List.head?_reverse]

/-- A trimmed text is what is left of it between blanks. -/
theorem trim_append (hbefore : Blanks before) (htext : IsTrimmed text) (hafter : Blanks after) :
    trim (before ++ text ++ after) = text := by
  cases text with
  | nil =>
    have hblanks : Blanks (before ++ [] ++ after) := by
      rw [List.append_nil]
      exact List.forall_mem_append.2 ⟨hbefore, hafter⟩
    have hnil : trimStart (before ++ [] ++ after) = [] := List.dropWhile_eq_nil_iff.2 hblanks
    rw [trim, hnil]
    rfl
  | cons c text =>
    have hstart : trimStart (before ++ (c :: text ++ after)) = c :: text ++ after :=
      trimStart_append hbefore htext.head?
    rw [List.append_assoc, trim, hstart, trimEnd_append hafter htext.getLast?]

theorem isTrimmed_of_ends {a b : Char} (hhead : cs.head? = some a) (ha : isBlank a = false)
    (hlast : cs.getLast? = some b) (hb : isBlank b = false) : IsTrimmed cs := by
  constructor
  · intro c hc
    rw [hhead] at hc
    rwa [← Option.some.inj hc]
  · intro c hc
    rw [hlast] at hc
    rwa [← Option.some.inj hc]

theorem IsTrimmed.trim_eq (h : IsTrimmed text) : trim text = text := by
  have htrim : trim ([] ++ text ++ []) = text := trim_append nofun h nofun
  rwa [List.nil_append, List.append_nil] at htrim

theorem exists_trimStart (cs : List Char) : ∃ before, Blanks before ∧ cs = before ++ trimStart cs :=
  ⟨cs.takeWhile isBlank, fun _ => of_mem_takeWhile, List.takeWhile_append_dropWhile.symm⟩

theorem exists_trimEnd (cs : List Char) : ∃ after, Blanks after ∧ cs = trimEnd cs ++ after := by
  obtain ⟨before, hbefore, hcs⟩ := exists_trimStart cs.reverse
  refine ⟨before.reverse, blanks_reverse.2 hbefore, ?_⟩
  rw [trimEnd, ← List.reverse_append, ← List.reverse_inj, List.reverse_reverse]
  exact hcs

theorem isBlank_of_mem_getLast?_trimEnd (h : c ∈ (trimEnd cs).getLast?) : isBlank c = false := by
  rw [trimEnd, List.getLast?_reverse] at h
  exact of_mem_head?_dropWhile h

/-- What is trimmed has no blank at its ends. -/
theorem isTrimmed_trim (cs : List Char) : IsTrimmed (trim cs) := by
  obtain ⟨after, -, hafter⟩ := exists_trimEnd (trimStart cs)
  constructor
  · intro c hc
    have hhead : c ∈ (trimStart cs).head? := by
      rw [hafter, List.head?_append]
      exact Option.mem_def.2 (by rw [← trim, Option.mem_def.1 hc]; rfl)
    exact of_mem_head?_dropWhile hhead
  · exact fun c => isBlank_of_mem_getLast?_trimEnd

/-- A text is what is left of it when it is trimmed, between blanks. -/
theorem exists_trim (cs : List Char) :
    ∃ before after, Blanks before ∧ Blanks after ∧ cs = before ++ trim cs ++ after := by
  obtain ⟨before, hbefore, hcs⟩ := exists_trimStart cs
  obtain ⟨after, hafter, hrest⟩ := exists_trimEnd (trimStart cs)
  refine ⟨before, after, hbefore, hafter, ?_⟩
  rw [List.append_assoc, trim, ← hrest, ← hcs]

/-- A text is what is left without the blanks at the ends. -/
theorem trim_eq_iff : trim cs = text ↔
    IsTrimmed text ∧ ∃ before after, Blanks before ∧ Blanks after ∧
    cs = before ++ text ++ after := by
  constructor
  · rintro rfl
    exact ⟨isTrimmed_trim cs, exists_trim cs⟩
  · rintro ⟨htext, before, after, hbefore, hafter, rfl⟩
    exact trim_append hbefore htext hafter

/-! ## Line breaks -/

theorem normalize_pair (cs : List Char) :
    normalize ('\r' :: '\n' :: cs) = '\n' :: normalize cs := by
  rw [normalize]

theorem normalize_return (h : cs.head? ≠ some '\n') :
    normalize ('\r' :: cs) = '\n' :: normalize cs := by
  rw [normalize]
  rintro rest rfl
  exact h rfl

theorem normalize_cons (h : c ≠ '\r') : normalize (c :: cs) = c :: normalize cs := by
  rw [normalize]
  · exact fun _ heq _ => h heq
  · exact h

/-- A normalized text has no carriage return. -/
theorem return_notMem_normalize (cs : List Char) : '\r' ∉ normalize cs := by
  fun_induction normalize cs with
  | case1 cs ih => exact List.not_mem_cons_of_ne_of_not_mem (by decide) ih
  | case2 cs _ ih => exact List.not_mem_cons_of_ne_of_not_mem (by decide) ih
  | case3 c cs _ hc ih => exact List.not_mem_cons_of_ne_of_not_mem (Ne.symm hc) ih
  | case4 => exact List.not_mem_nil

theorem normalize_of_notMem (h : '\r' ∉ cs) : normalize cs = cs := by
  induction cs with
  | nil => rfl
  | cons c cs ih =>
    rw [normalize_cons (List.ne_of_not_mem_cons h).symm, ih (List.not_mem_of_not_mem_cons h)]

/-! ## Lines -/

theorem unlines_singleton (line : List Char) : unlines [line] = line := List.intercalate_singleton

theorem unlines_cons (line : List Char) {ls : List (List Char)} (h : ls ≠ []) :
    unlines (line :: ls) = line ++ '\n' :: unlines ls := by
  obtain ⟨next, ls, rfl⟩ := List.exists_cons_of_ne_nil h
  rw [unlines, unlines, List.intercalate_cons_cons, List.append_assoc]
  rfl

/-- The text of some lines, and that of the rest from the end of the last of them. -/
theorem unlines_append {ls : List (List Char)} (rest : List (List Char)) (h : ls ≠ []) :
    unlines ls ++ unlines ([] :: rest) = unlines (ls ++ rest) := by
  induction ls with
  | nil => exact absurd rfl h
  | cons line ls ih =>
    cases ls with
    | nil =>
      cases rest with
      | nil => exact List.append_nil _
      | cons next rest =>
        have hne : next :: rest ≠ [] := List.cons_ne_nil _ _
        rw [unlines_singleton, unlines_cons [] hne, List.nil_append, List.singleton_append,
          unlines_cons line hne]
    | cons next ls =>
      have hne : next :: ls ≠ [] := List.cons_ne_nil _ _
      rw [unlines_cons line hne, List.append_assoc, List.cons_append, ih hne,
        List.cons_append (a := line),
        unlines_cons line (List.append_ne_nil_of_left_ne_nil hne rest)]

/-- Every line ends with a line feed if the last one is empty. -/
theorem unlines_concat_nil (ls : List (List Char)) :
    unlines (ls ++ [[]]) = ls.flatMap (· ++ ['\n']) := by
  induction ls with
  | nil => rfl
  | cons line ls ih =>
    have hne : ls ++ [[]] ≠ [] := List.concat_ne_nil [] ls
    rw [List.cons_append, unlines_cons line hne, ih, List.flatMap_cons, List.append_assoc,
      List.singleton_append]

theorem lines_unlines {ls : List (List Char)} (h : ∀ line ∈ ls, '\n' ∉ line) (hne : ls ≠ []) :
    lines (unlines ls) = ls :=
  List.splitOn_intercalate '\n' h hne

theorem lines_of_notMem (h : '\n' ∉ cs) : lines cs = [cs] := by
  have hlines := lines_unlines (List.forall_mem_singleton.2 h) (List.cons_ne_nil cs [])
  rwa [unlines_singleton] at hlines

theorem newline_notMem_of_mem_lines {line : List Char} (h : line ∈ lines cs) : '\n' ∉ line :=
  notMem_of_mem_splitOn h

/-! ## Positions -/

/-- Where a text ends that starts at the beginning of line `n`. -/
def position (n : Nat) (cs : List Char) : Position :=
  ⟨n + cs.count '\n', (cs.reverse.takeWhile (· ≠ '\n')).length⟩

theorem position_of_notMem (n : Nat) (h : '\n' ∉ cs) : position n cs = ⟨n, cs.length⟩ := by
  have hall : ∀ c ∈ cs.reverse, decide (c ≠ '\n') := by
    intro c hc
    exact decide_eq_true fun heq => h (heq ▸ List.mem_reverse.1 hc)
  rw [position, List.count_eq_zero.2 h, List.takeWhile_eq_self_iff.2 hall, List.length_reverse,
    Nat.add_zero]

/-- A line break moves positions to the next line. -/
theorem position_line (n : Nat) (h : '\n' ∉ before) :
    position n (before ++ '\n' :: rest) = position (n + 1) rest := by
  have hcount : n + (before ++ '\n' :: rest).count '\n' = n + 1 + rest.count '\n' := by
    rw [List.count_append, List.count_eq_zero.2 h, List.count_cons_self]
    omega
  have hlast :
      (before ++ '\n' :: rest).reverse.takeWhile (· ≠ '\n') =
        rest.reverse.takeWhile (· ≠ '\n') := by
    rw [List.reverse_append, List.reverse_cons, List.append_assoc, List.takeWhile_append]
    split
    · next hall =>
      rw [List.singleton_append, List.takeWhile_cons_of_neg (by simp), List.append_nil]
      exact ((List.takeWhile_prefix _).eq_of_length hall).symm
    · rfl
  rw [position, position, hcount, hlast]

/-- Where a piece of a text stands that starts at the beginning of line `n`, given what comes before
the piece. -/
def span (n : Nat) (before piece : List Char) : Span :=
  ⟨position n before, position n (before ++ piece)⟩

theorem span_of_notMem (n : Nat) {piece : List Char} (hbefore : '\n' ∉ before)
    (hpiece : '\n' ∉ piece) :
    span n before piece = .within n before.length (before.length + piece.length) := by
  rw [span, position_of_notMem n hbefore, position_of_notMem n (List.not_mem_append hbefore hpiece),
    List.length_append]
  rfl

theorem span_line (n : Nat) {piece : List Char} (h : '\n' ∉ before) :
    span n (before ++ '\n' :: rest) piece = span (n + 1) rest piece := by
  rw [span, List.append_assoc, List.cons_append, position_line n h, position_line n h]
  rfl

/-! ## Bytes -/

theorem byteLength_pos {cs : List Char} (h : cs ≠ []) : 0 < byteLength cs :=
  Nat.lt_of_lt_of_le (List.length_pos_iff.2 h) (length_le_byteLength cs)

theorem trimStart_eq_of_byteLength {cs : List Char} (h : byteLength (cs.takeWhile isBlank) = 0) :
    trimStart cs = cs := by
  have hnil : cs.takeWhile isBlank = [] := by
    by_contra hne
    exact (byteLength_pos hne).ne' h
  have hcs : cs.takeWhile isBlank ++ trimStart cs = cs := List.takeWhile_append_dropWhile
  rwa [hnil, List.nil_append] at hcs

theorem byteLength_spaces (n : Nat) : byteLength (List.replicate n ' ') = n := by
  induction n with
  | zero => rfl
  | succ n ih =>
    rw [List.replicate_succ, byteLength_cons, ih]
    exact Nat.add_comm 1 n

theorem byteLength_toList (source : String) : byteLength source.toList = source.utf8ByteSize := by
  have hlist (cs : List Char) : byteLength cs = String.utf8Len cs := by
    induction cs with
    | nil => rfl
    | cons c cs ih => rw [byteLength_cons, ih, String.utf8Len_cons, Nat.add_comm]
  rw [hlist, ← String.utf8ByteSize_ofList, String.ofList_toList]

/-! ## Order -/

theorem compare_cons (a b : Char) (as bs : List Char) :
    compare (String.ofList (a :: as)) (.ofList (b :: bs)) =
      (compare a b).then (compare (String.ofList as) (.ofList bs)) := by
  have lt_iff {as bs : List Char} : String.ofList as < .ofList bs ↔ as < bs := by
    rw [String.lt_iff_toList_lt, String.toList_ofList, String.toList_ofList]
  rcases lt_trichotomy a b with h | rfl | h
  · rw [compare_lt_iff_lt.2 h, compare_lt_iff_lt.2 (lt_iff.2 (List.cons_lt_cons_iff.2 (.inl h)))]
    rfl
  · have hmono : StrictMono fun s : String => String.ofList (a :: s.toList) := fun s t hst =>
      lt_iff.2 (List.cons_lt_cons_iff.2 (.inr ⟨rfl, String.lt_iff_toList_lt.1 hst⟩))
    have hcmp := hmono.cmp_map_eq (.ofList as) (.ofList bs)
    rw [cmp_eq_compare, cmp_eq_compare] at hcmp
    simp only [String.toList_ofList] at hcmp
    rw [hcmp, compare_eq_iff_eq.2 rfl, Ordering.eq_then]
  · rw [compare_gt_iff_gt.2 h, compare_gt_iff_gt.2 (lt_iff.2 (List.cons_lt_cons_iff.2 (.inl h)))]
    rfl

/-- Two texts are in the order of their initial parts, if these are equally long, and only then of
what follows. -/
theorem compare_append {as bs : List Char} (h : as.length = bs.length) (cs ds : List Char) :
    compare (String.ofList (as ++ cs)) (.ofList (bs ++ ds)) =
      (compare (String.ofList as) (.ofList bs)).then (compare (String.ofList cs) (.ofList ds)) := by
  induction as generalizing bs with
  | nil =>
    obtain rfl := List.eq_nil_of_length_eq_zero h.symm
    rfl
  | cons a as ih =>
    cases bs with
    | nil => cases h
    | cons b bs =>
      rw [List.cons_append, List.cons_append, compare_cons, compare_cons, ih (Nat.succ.inj h),
        Ordering.then_assoc]

end TableDoc.Text
