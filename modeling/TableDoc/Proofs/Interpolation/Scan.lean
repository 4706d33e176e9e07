import Mathlib.Data.List.SplitBy
import Mathlib.Data.Nat.Find
import TableDoc.Interpolation.Segment
import TableDoc.Proofs.Interpolation.Reference

/-!
# How a line is read

`Scan` says how a line is cut from the left into references and text: a code span ends at the first
run of as many backticks as it starts with (`Closes`), a run that nothing closes is text, and so is
a character at which no reference starts. `segments` is the one way to do so (`scan_iff`).
-/

namespace TableDoc

namespace Segment

open Markdown (Fence.ticks)

/-- The text of `n` backticks. -/
def backticks (n : Nat) : List Char := List.replicate n '\x60'

/-- No backtick stands at the end of what comes before a run of backticks or at the head of what
follows, so the run is not longer. -/
structure Bounds (before after : List Char) : Prop where
  before : before.getLast? ≠ some '\x60'
  after : after.head? ≠ some '\x60'

/-- A text is cut at its first run of exactly `n` backticks. -/
structure Closes (n : Nat) (text before after : List Char) : Prop where
  eq : text = before ++ backticks n ++ after
  bounds : Bounds before after
  first : ∀ earlier later, text = earlier ++ backticks n ++ later → Bounds earlier later →
    before.length ≤ earlier.length

/-- The text between the braces of a reference does not close them. -/
inductive IsReference : List Char → Reference → Prop
  | mk {inner : List Char} {target : Reference} : ¬['\x7d', '\x7d'] <:+: inner →
    Reference.Written inner target →
    IsReference ('\x7b' :: '\x7b' :: (inner ++ ['\x7d', '\x7d'])) target

/-- The segments into which a line is cut from the left. -/
inductive Scan : List Char → List Segment → Prop
  | nil : Scan [] []
  | code {n : Nat} {rest inner after : List Char} : 0 < n → rest.head? ≠ some '\x60' →
    Closes n rest inner after → Scan after segs →
    Scan (backticks n ++ rest) (.literal (backticks n ++ inner ++ backticks n) :: segs)
  | unclosed : 0 < n → rest.head? ≠ some '\x60' →
    (∀ inner after, rest = inner ++ backticks n ++ after → ¬Bounds inner after) → Scan rest segs →
    Scan (backticks n ++ rest) (.literal (backticks n) :: segs)
  | reference {source : List Char} : IsReference source target → Scan rest segs →
    Scan (source ++ rest) (.reference source target :: segs)
  | other : c ≠ '\x60' →
    (∀ source target after, IsReference source target → c :: rest ≠ source ++ after) →
    Scan rest segs → Scan (c :: rest) (.literal [c] :: segs)

variable {n : Nat} {c : Char} {text before after rest inner source : List Char} {target : Reference}

/-! ## Runs of backticks -/

/-- Both characters are backticks, or neither is. -/
def sameClass (a b : Char) : Bool := (a == '\x60') == (b == '\x60')

theorem mem_backticks (h : c ∈ backticks n) : c = '\x60' := List.eq_of_mem_replicate h

theorem backticks_ne_nil (hn : 0 < n) : backticks n ≠ [] := by
  rw [backticks, Ne, List.replicate_eq_nil_iff]
  omega

theorem splitBy_backticks (hn : 0 < n) : (backticks n).splitBy sameClass = [backticks n] := by
  refine List.splitBy_of_isChain (backticks_ne_nil hn) (List.isChain_replicate_of_rel _ ?_)
  rfl

theorem sameClass_eq_false_iff {d : Char} (hd : d = '\x60') :
    sameClass c d = false ↔ c ≠ '\x60' := by
  subst hd
  simp [sameClass]

theorem sameClass_comm (c d : Char) : sameClass c d = sameClass d c := Bool.beq_comm

/-- A run of backticks is a part of its own when the text is split by runs. -/
theorem splitBy_of_bounds (hn : 0 < n) (h : Bounds before after) :
    (before ++ backticks n ++ after).splitBy sameClass =
      before.splitBy sameClass ++ backticks n :: after.splitBy sameClass := by
  rw [List.append_assoc, List.splitBy_append, List.splitBy_append, splitBy_backticks hn]
  · rfl
  · intro c hc d hd
    rw [sameClass_comm, sameClass_eq_false_iff (mem_backticks (List.mem_of_getLast? hc))]
    rintro rfl
    exact h.after hd
  · intro c hc d hd
    rw [List.head?_append, backticks, List.head?_replicate, if_neg (by omega)] at hd
    rw [sameClass_eq_false_iff (Option.some.inj hd).symm]
    rintro rfl
    exact h.before hc

/-- A part of backticks is a run in the text. -/
theorem bounds_of_splitBy {before after : List (List Char)}
    (h : text.splitBy sameClass = before ++ backticks n :: after) :
    text = before.flatten ++ backticks n ++ after.flatten ∧
    Bounds before.flatten after.flatten := by
  have htext : text = before.flatten ++ backticks n ++ after.flatten := by
    rw [← List.flatten_splitBy sameClass text, h, List.flatten_append, List.flatten_cons,
      List.append_assoc]
  have hchain := List.isChain_getLast_head_splitBy sameClass text
  rw [h, List.isChain_append, List.isChain_cons] at hchain
  obtain ⟨-, ⟨hafter, -⟩, hbefore⟩ := hchain
  refine ⟨htext, ⟨fun htick => ?_, fun htick => ?_⟩⟩
  · obtain rfl | ⟨init, last, rfl⟩ := List.eq_nil_or_concat' before
    · cases htick
    · obtain ⟨hne, hhead, hclass⟩ := hbefore last (by simp) (backticks n) rfl
      rw [sameClass_eq_false_iff (mem_backticks (List.head_mem _))] at hclass
      rw [List.flatten_append, List.flatten_singleton, List.getLast?_append,
        List.getLast?_eq_some_getLast hne] at htick
      exact hclass (Option.some.inj htick)
  · cases after with
    | nil => cases htick
    | cons first after =>
      obtain ⟨hne, hhead, hclass⟩ := hafter first rfl
      rw [sameClass_comm, sameClass_eq_false_iff (mem_backticks (List.getLast_mem _))] at hclass
      rw [List.flatten_cons, List.head?_append, List.head?_eq_some_head hhead] at htick
      exact hclass (Option.some.inj htick)

theorem closing?_eq (n : Nat) (text : List Char) : closing? n text =
    let before := (text.splitBy sameClass).takeWhile (· ≠ backticks n)
    if before.length < (text.splitBy sameClass).length then some before.flatten.length
    else none := rfl

theorem closing?_of_closes (hn : 0 < n) (h : Closes n text before after) :
    closing? n text = some before.length := by
  have hruns : text.splitBy sameClass =
      before.splitBy sameClass ++ backticks n :: after.splitBy sameClass := by
    rw [h.eq, splitBy_of_bounds hn h.bounds]
  have hfirst : backticks n ∉ before.splitBy sameClass := by
    intro hmem
    obtain ⟨earlier, later, hbefore⟩ := List.append_of_mem hmem
    rw [hbefore, List.append_assoc, List.cons_append] at hruns
    obtain ⟨htext, hbounds⟩ := bounds_of_splitBy hruns
    have hle := h.first _ _ htext hbounds
    have hlength :=
      congrArg List.length
        ((List.flatten_splitBy sameClass before).symm.trans (congrArg List.flatten hbefore))
    rw [List.flatten_append, List.flatten_cons, List.length_append, List.length_append, backticks,
      List.length_replicate] at hlength
    omega
  rw [closing?_eq, hruns, Text.takeWhile_ne_append hfirst, if_pos, List.flatten_splitBy]
  rw [List.length_append, List.length_cons]
  omega

theorem closing?_eq_none
    (h : ∀ before after, text = before ++ backticks n ++ after → ¬Bounds before after) :
    closing? n text = none := by
  have hnone : backticks n ∉ text.splitBy sameClass := by
    intro hmem
    obtain ⟨earlier, later, hruns⟩ := List.append_of_mem hmem
    obtain ⟨htext, hbounds⟩ := bounds_of_splitBy hruns
    exact h _ _ htext hbounds
  rw [closing?_eq, if_neg]
  rw [List.takeWhile_eq_self_iff.2]
  · exact Nat.lt_irrefl _
  · exact fun run hrun => decide_eq_true fun heq => hnone (heq ▸ hrun)

/-- A run is closed, or there is no run of its length. -/
theorem closes_or (n : Nat) (text : List Char) : (∃ before after, Closes n text before after) ∨
    ∀ before after, text = before ++ backticks n ++ after → ¬Bounds before after := by
  classical
  by_cases h : ∃ offset before after, before.length = offset ∧
    text = before ++ backticks n ++ after ∧ Bounds before after
  · obtain ⟨before, after, hoffset, htext, hbounds⟩ := Nat.find_spec h
    refine .inl ⟨before, after, htext, hbounds, fun earlier later hearlier hlater => ?_⟩
    rw [hoffset]
    exact Nat.find_min' h ⟨earlier, later, rfl, hearlier, hlater⟩
  · exact .inr fun before after htext hbounds => h ⟨_, before, after, rfl, htext, hbounds⟩

theorem ticks_append (h : rest.head? ≠ some '\x60') : Fence.ticks (backticks n ++ rest) = n := by
  rw [Fence.ticks, Text.takeWhile_append]
  · exact List.length_replicate
  · exact fun c hc => decide_eq_true (mem_backticks hc)
  · exact fun c hc => decide_eq_false fun htick => h (htick ▸ hc)

theorem exists_backticks (cs : List Char) :
    ∃ n rest, '\x60' :: cs = backticks (n + 1) ++ rest ∧ rest.head? ≠ some '\x60' := by
  induction cs with
  | nil => exact ⟨0, [], rfl, nofun⟩
  | cons c cs ih =>
    by_cases hc : c = '\x60'
    · subst hc
      obtain ⟨n, rest, heq, hrest⟩ := ih
      exact ⟨n + 1, rest, congrArg _ heq, hrest⟩
    · exact ⟨0, c :: cs, rfl, fun h => hc (Option.some.inj h)⟩

/-! ## References -/

theorem beforeClose?_eq_some (h : beforeClose? text = some inner) :
    (∃ rest, text = inner ++ '\x7d' :: '\x7d' :: rest) ∧ ¬['\x7d', '\x7d'] <:+: inner := by
  fun_induction beforeClose? text generalizing inner with
  | case1 rest =>
    cases h
    exact ⟨⟨rest, rfl⟩, by simp⟩
  | case2 c cs hopen ih =>
    obtain ⟨inner, hinner, rfl⟩ := Option.map_eq_some_iff.1 h
    obtain ⟨⟨rest, rfl⟩, hfree⟩ := ih hinner
    refine ⟨⟨rest, rfl⟩, fun hinfix => ?_⟩
    rcases List.infix_cons_iff.1 hinfix with hstart | hlater
    · obtain ⟨later, hstart⟩ := hstart
      obtain ⟨rfl, rfl⟩ := List.cons.inj hstart
      exact hopen _ rfl rfl
    · exact hfree hlater
  | case3 => cases h

theorem beforeClose?_append (h : ¬['\x7d', '\x7d'] <:+: inner)
    (hlast : inner.getLast? ≠ some '\x7d') :
    beforeClose? (inner ++ '\x7d' :: '\x7d' :: rest) = some inner := by
  induction inner with
  | nil => rfl
  | cons c inner ih =>
    have hopen : ∀ later, c = '\x7d' → inner ++ '\x7d' :: '\x7d' :: rest = '\x7d' :: later →
        False := by
      rintro later rfl hlater
      cases inner with
      | nil => exact hlast rfl
      | cons d inner =>
        obtain rfl : d = '\x7d' := (List.cons.inj hlater).1
        exact h ⟨[], inner, rfl⟩
    have hinner : inner.getLast? ≠ some '\x7d' := by
      intro hclose
      rw [List.getLast?_cons, hclose] at hlast
      exact hlast rfl
    rw [List.cons_append, beforeClose?.eq_2 c _ hopen,
      ih (fun hinfix => h (List.infix_cons hinfix)) hinner]
    rfl

/-- A reference at the start of a text is found. -/
theorem referenceAt?_of_isReference (h : IsReference source target) :
    referenceAt? (source ++ rest) = some (target, source.length) := by
  obtain @⟨inner, target, hfree, hwritten⟩ := h
  have hinner : beforeClose? (inner ++ (['\x7d', '\x7d'] ++ rest)) = some inner :=
    beforeClose?_append hfree hwritten.getLast?_ne
  rw [List.cons_append, List.cons_append, List.append_assoc, referenceAt?, hinner]
  simp only [Option.bind_eq_bind, Option.bind_some, Reference.ofText?_eq_some_iff.2 hwritten]
  rw [List.length_cons, List.length_cons, List.length_append]
  rfl

/-- What is found at the start of a text is a reference. -/
theorem isReference_of_referenceAt? (h : referenceAt? text = some (target, n)) :
    ∃ source rest, IsReference source target ∧ text = source ++ rest ∧ source.length = n := by
  rw [referenceAt?.eq_def] at h
  split at h
  · next cs =>
    simp only [Option.bind_eq_bind, Option.bind_eq_some_iff] at h
    obtain ⟨inner, hinner, target, htarget, h⟩ := h
    obtain ⟨⟨rest, rfl⟩, hfree⟩ := beforeClose?_eq_some hinner
    cases h
    refine ⟨_, rest, .mk hfree (Reference.ofText?_eq_some_iff.1 htarget), ?_, ?_⟩
    · simp
    · simp
  · cases h

/-- Nothing is found where no reference starts. -/
theorem referenceAt?_eq_none
    (h : ∀ source target after, IsReference source target → text ≠ source ++ after) :
    referenceAt? text = none := by
  rw [Option.eq_none_iff_forall_not_mem]
  rintro ⟨target, n⟩ hsome
  obtain ⟨source, after, hsource, htext, -⟩ := isReference_of_referenceAt? hsome
  exact h source target after hsource htext

end Segment

open Segment

variable {n : Nat} {c : Char} {line after rest inner source : List Char} {target : Reference}

/-! ## Cutting a line -/

theorem length_backticks (n : Nat) : (backticks n).length = n := List.length_replicate

theorem drop_backticks (n : Nat) (rest : List Char) : (backticks n ++ rest).drop n = rest :=
  List.drop_left' (length_backticks n)

theorem codeLength_of_closes (hn : 0 < n) (hrest : rest.head? ≠ some '\x60')
    (h : Closes n rest inner after) :
    codeLength (backticks n ++ rest) = (backticks n ++ inner ++ backticks n).length := by
  rw [codeLength, ticks_append hrest]
  simp only [drop_backticks, closing?_of_closes hn h, List.length_append, length_backticks]

theorem codeLength_of_unclosed (hrest : rest.head? ≠ some '\x60')
    (h : ∀ inner after, rest = inner ++ backticks n ++ after → ¬Bounds inner after) :
    codeLength (backticks n ++ rest) = (backticks n).length := by
  rw [codeLength, ticks_append hrest]
  simp only [drop_backticks, closing?_eq_none h, length_backticks]

theorem segments_of_codeLength {piece : List Char}
    (h : codeLength ('\x60' :: (piece ++ rest)) = piece.length + 1) :
    segments ('\x60' :: (piece ++ rest)) = .literal ('\x60' :: piece) :: segments rest := by
  rw [segments, if_pos rfl, h]
  simp only [Nat.add_sub_cancel, List.take_left, List.drop_left]

theorem segments_code (hn : 0 < n) (hrest : rest.head? ≠ some '\x60')
    (h : Closes n rest inner after) :
    segments (backticks n ++ rest) =
      .literal (backticks n ++ inner ++ backticks n) :: segments after := by
  have hlength := codeLength_of_closes hn hrest h
  obtain ⟨n, rfl⟩ := Nat.exists_eq_add_one.2 hn
  have hrest : rest = inner ++ backticks (n + 1) ++ after := h.eq
  have htext :
      backticks (n + 1) ++ rest =
        '\x60' :: (backticks n ++ inner ++ backticks (n + 1) ++ after) := by
    rw [hrest, backticks, List.replicate_succ]
    simp only [backticks, List.cons_append, List.append_assoc]
  rw [htext] at hlength ⊢
  exact segments_of_codeLength hlength

theorem segments_unclosed (hn : 0 < n) (hrest : rest.head? ≠ some '\x60')
    (h : ∀ inner after, rest = inner ++ backticks n ++ after → ¬Bounds inner after) :
    segments (backticks n ++ rest) = .literal (backticks n) :: segments rest := by
  have hlength := codeLength_of_unclosed hrest h
  obtain ⟨n, rfl⟩ := Nat.exists_eq_add_one.2 hn
  exact segments_of_codeLength hlength

theorem segments_reference (h : IsReference source target) :
    segments (source ++ rest) = .reference source target :: segments rest := by
  have href : referenceAt? (source ++ rest) = _ := referenceAt?_of_isReference h
  obtain ⟨-, -⟩ := h
  rw [List.cons_append] at href ⊢
  rw [segments, if_neg (by decide), href]
  simp only [List.length_cons, Nat.add_sub_cancel]
  rw [← List.length_cons, List.take_left, List.drop_left]

theorem segments_other (hc : c ≠ '\x60')
    (h : ∀ source target after, IsReference source target → c :: rest ≠ source ++ after) :
    segments (c :: rest) = .literal [c] :: segments rest := by
  rw [segments, if_neg hc, referenceAt?_eq_none h]

/-- The segments of a line are a scan of it. -/
theorem scan_segments (line : List Char) : Scan line (segments line) := by
  induction hlength : line.length using Nat.strong_induction_on generalizing line with
  | _ length ih =>
    subst hlength
    cases line with
    | nil =>
      rw [segments]
      exact .nil
    | cons c cs =>
      by_cases hc : c = '\x60'
      · subst hc
        obtain ⟨n, rest, hcs, hrest⟩ := exists_backticks cs
        rw [hcs] at ih ⊢
        rcases closes_or (n + 1) rest with ⟨inner, after, hcloses⟩ | hnone
        · rw [segments_code (Nat.succ_pos n) hrest hcloses]
          refine .code (Nat.succ_pos n) hrest hcloses (ih _ ?_ _ rfl)
          rw [hcloses.eq]
          simp only [List.length_append, length_backticks]
          omega
        · rw [segments_unclosed (Nat.succ_pos n) hrest hnone]
          refine .unclosed (Nat.succ_pos n) hrest hnone (ih _ ?_ _ rfl)
          rw [List.length_append, length_backticks]
          omega
      · by_cases href : ∃ source target after, IsReference source target ∧ c :: cs = source ++ after
        · obtain ⟨source, target, after, hsource, hcs⟩ := href
          rw [hcs] at ih ⊢
          rw [segments_reference hsource]
          refine .reference hsource (ih _ ?_ _ rfl)
          obtain ⟨-, -⟩ := hsource
          rw [List.length_append, List.length_cons]
          omega
        · have hnone : ∀ source target after, IsReference source target →
              c :: cs ≠ source ++ after := fun source target after hsource hcs =>
                href ⟨source, target, after, hsource, hcs⟩
          rw [segments_other hc hnone]
          exact .other hc hnone (ih _ (Nat.lt_succ_self _) _ rfl)

/-- A line is cut in one way. -/
theorem scan_iff {segs : List Segment} : Scan line segs ↔ segs = segments line := by
  refine ⟨fun h => ?_, fun h => h ▸ scan_segments line⟩
  induction h with
  | nil => rw [segments]
  | code hn hrest hcloses _ ih => rw [segments_code hn hrest hcloses, ih]
  | unclosed hn hrest hnone _ ih => rw [segments_unclosed hn hrest hnone, ih]
  | reference hsource _ ih => rw [segments_reference hsource, ih]
  | other hc hnone _ ih => rw [segments_other hc hnone, ih]

end TableDoc
