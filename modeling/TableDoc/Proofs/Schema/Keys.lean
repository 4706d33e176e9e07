import TableDoc.Proofs.Formula.Surroundings
import TableDoc.Schema.Layout

/-!
# Keys of lines

What a line declares is known by its key. `Keyed` says how a line with a key is written, in quotes
or plainly; these are the lines in which a key is found (`key?_eq_some_iff`). A word before a colon
is one (`keyed_of_isWord`).
-/

namespace TableDoc.EntryScan

open Text (Blanks isBlank)

/-- The colon after a key ends the line or stands before a blank. -/
def OpensValue (value : List Char) : Prop := ∀ c ∈ value.head?, isBlank c

instance : DecidablePred OpensValue := fun value => Option.decidableForallMem value.head?

/-- A line starts with a key, in quotes or plain, and a colon. -/
inductive Keyed : List Char → List Char → Prop
  | quoted {quote : Char} : quote = '\x22' ∨ quote = '\'' → name ≠ [] → quote ∉ name → Blanks gap →
    OpensValue value → Keyed (quote :: (name ++ quote :: (gap ++ ':' :: value))) name
  | plain {first : Char} : name.head? = some first → isPlainStart first →
    (∀ c ∈ name, c ≠ ':' ∧ c ≠ '#') →
    (∀ c ∈ name.getLast?, isBlank c = false) → Blanks gap → OpensValue value →
    Keyed (name ++ (gap ++ ':' :: value)) name

variable {cs name gap : List Char} {c : Char}

theorem startsValue_iff : startsValue cs ↔ ∃ value, cs = ':' :: value ∧ OpensValue value := by
  constructor
  · fun_cases startsValue cs with
    | case1 => exact fun _ => ⟨[], rfl, nofun⟩
    | case2 c rest =>
      intro h
      refine ⟨c :: rest, rfl, fun d hd => ?_⟩
      cases hd
      exact h
    | case3 => nofun
  · rintro ⟨value, rfl, hopens⟩
    cases value with
    | nil => rfl
    | cons c rest => exact hopens c rfl

theorem isPlainStart_iff : isPlainStart c ↔
    isBlank c = false ∧ c ≠ ':' ∧ c ≠ '#' ∧ c ≠ '\x22' ∧ c ≠ '\'' ∧ c ≠ '-' := by
  simp [isPlainStart, and_assoc]

theorem takeWhile_plain (hname : ∀ c ∈ name, c ≠ ':' ∧ c ≠ '#') (hgap : Blanks gap)
    (value : List Char) :
    (name ++ (gap ++ ':' :: value)).takeWhile (fun c => c ≠ ':' && c ≠ '#') = name ++ gap := by
  rw [← List.append_assoc]
  refine Text.takeWhile_append (List.forall_mem_append.2 ⟨?_, ?_⟩) ?_
  · intro c hc
    simpa using hname c hc
  · intro c hc
    have hblank := hgap c hc
    have hcolon : c ≠ ':' := by rintro rfl; exact absurd hblank (by decide)
    have hmark : c ≠ '#' := by rintro rfl; exact absurd hblank (by decide)
    simp [hcolon, hmark]
  · rintro _ ⟨⟩
    rfl

/-- The key of a line is found. -/
theorem Keyed.key? (h : Keyed cs name) : key? cs = some name := by
  cases h with
  | @quoted _ gap value quote hquote hne hname hgap hvalue =>
    have hkey : (name ++ quote :: (gap ++ ':' :: value)).takeWhile (· ≠ quote) = name :=
      Text.takeWhile_ne_append hname
    have hcontains : (name ++ quote :: (gap ++ ':' :: value)).contains quote := by simp
    have hrest : startsValue (Text.trimStart (gap ++ ':' :: value)) := by
      rw [Text.trimStart_append_cons hgap (by decide)]
      exact startsValue_iff.2 ⟨value, rfl, hvalue⟩
    rw [EntryScan.key?, if_pos hquote]
    simp only [hkey, List.drop_left, List.tail_cons]
    exact if_pos ⟨hcontains, hrest, hne⟩
  | @plain _ gap value first hhead hstart hname hlast hgap hvalue =>
    obtain ⟨more, rfl⟩ := List.head?_eq_some_iff.1 hhead
    obtain ⟨-, -, -, hdouble, hsingle, -⟩ := isPlainStart_iff.1 hstart
    have hkey := takeWhile_plain hname hgap value
    have hrest : (more ++ (gap ++ ':' :: value)).drop ((first :: more ++ gap).length - 1) =
        ':' :: value := by
      rw [← List.append_assoc, List.cons_append, List.length_cons, Nat.add_sub_cancel,
        List.drop_left]
    rw [List.cons_append] at hkey ⊢
    rw [EntryScan.key?, if_neg (not_or.2 ⟨hdouble, hsingle⟩), if_pos hstart]
    simp only [hkey, hrest]
    rw [if_pos (startsValue_iff.2 ⟨value, rfl, hvalue⟩), Text.trimEnd_append hgap hlast]

theorem head?_trimEnd (hc : isBlank c = false) (cs : List Char) :
    (Text.trimEnd (c :: cs)).head? = some c := by
  obtain ⟨after, hafter, hcs⟩ := Text.exists_trimEnd (c :: cs)
  cases htrim : Text.trimEnd (c :: cs) with
  | nil =>
    rw [htrim, List.nil_append] at hcs
    have hblank := hafter c (hcs ▸ List.mem_cons_self)
    rw [hc] at hblank
    cases hblank
  | cons d rest =>
    rw [htrim, List.cons_append] at hcs
    rw [(List.cons.inj hcs).1]
    rfl

/-- A key that is found in quotes is the key of its line. -/
theorem keyed_of_quoted (hquote : c = '\x22' ∨ c = '\'') (h : key? (c :: cs) = some name) :
    Keyed (c :: cs) name := by
  rw [EntryScan.key?, if_pos hquote] at h
  obtain ⟨⟨hmem, -, -⟩, -⟩ := Option.ite_none_right_eq_some.1 h
  obtain ⟨key, rest, rfl, hkey⟩ := List.eq_append_cons_of_mem (List.contains_iff_mem.1 hmem)
  simp only [Text.takeWhile_ne_append hkey, List.drop_left, List.tail_cons] at h
  obtain ⟨⟨-, hrest, hne⟩, hname⟩ := Option.ite_none_right_eq_some.1 h
  cases hname
  obtain ⟨gap, hgap, hgapped⟩ := Text.exists_trimStart rest
  obtain ⟨value, hvalue, hopens⟩ := startsValue_iff.1 hrest
  rw [hgapped, hvalue]
  exact .quoted hquote hne hkey hgap hopens

/-- A key that is found without quotes is the key of its line. -/
theorem keyed_of_plain (hstart : isPlainStart c) (h : key? (c :: cs) = some name) :
    Keyed (c :: cs) name := by
  obtain ⟨hblank, hcolon, hmark, hdouble, hsingle, -⟩ := isPlainStart_iff.1 hstart
  obtain ⟨key, rest, rfl, hkey, hend⟩ : ∃ key rest, cs = key ++ rest ∧
      (∀ d ∈ c :: key, (d ≠ ':' && d ≠ '#') = true) ∧ ∀ d ∈ rest.head?,
        (d ≠ ':' && d ≠ '#') = false :=
    ⟨_, _, List.takeWhile_append_dropWhile.symm,
      List.forall_mem_cons.2 ⟨by simpa using And.intro hcolon hmark,
        fun _ => Text.of_mem_takeWhile⟩,
      fun _ => Text.of_mem_head?_dropWhile⟩
  have hwhile := Text.takeWhile_append hkey hend
  rw [List.cons_append] at hwhile
  rw [EntryScan.key?, if_neg (not_or.2 ⟨hdouble, hsingle⟩), if_pos hstart] at h
  simp only [hwhile, List.length_cons, Nat.add_sub_cancel, List.drop_left] at h
  obtain ⟨hrest, hname⟩ := Option.ite_none_right_eq_some.1 h
  cases hname
  obtain ⟨gap, hgap, hgapped⟩ := Text.exists_trimEnd (c :: key)
  obtain ⟨value, rfl, hopens⟩ := startsValue_iff.1 hrest
  have hname : ∀ d ∈ Text.trimEnd (c :: key), d ≠ ':' ∧ d ≠ '#' := by
    intro d hd
    have hmem : d ∈ c :: key := hgapped ▸ List.mem_append_left gap hd
    simpa using hkey d hmem
  have hline : c :: (key ++ ':' :: value) = Text.trimEnd (c :: key) ++ (gap ++ ':' :: value) := by
    rw [← List.append_assoc, ← hgapped, List.cons_append]
  rw [hline]
  exact .plain (head?_trimEnd hblank key) hstart hname
    (fun _ => Text.isBlank_of_mem_getLast?_trimEnd) hgap hopens

/-- The keys that are found are those of the lines with a key. -/
theorem key?_eq_some_iff : key? cs = some name ↔ Keyed cs name := by
  refine ⟨fun h => ?_, Keyed.key?⟩
  cases cs with
  | nil => cases h
  | cons c cs =>
    by_cases hquote : c = '\x22' ∨ c = '\''
    · exact keyed_of_quoted hquote h
    · by_cases hstart : isPlainStart c
      · exact keyed_of_plain hstart h
      · rw [EntryScan.key?, if_neg hquote, if_neg hstart] at h
        cases h

theorem Keyed.head? (h : Keyed cs name) : ∃ c, cs.head? = some c ∧ isBlank c = false ∧ c ≠ '#' := by
  cases h with
  | quoted hquote =>
    refine ⟨_, rfl, ?_⟩
    rcases hquote with rfl | rfl <;> decide
  | plain hhead hstart =>
    obtain ⟨more, rfl⟩ := List.head?_eq_some_iff.1 hhead
    obtain ⟨hblank, -, hmark, -⟩ := isPlainStart_iff.1 hstart
    exact ⟨_, rfl, hblank, hmark⟩

theorem Keyed.ofList_ne (h : Keyed cs name) {other : String} (hother : ¬ Keyed cs other.toList) :
    String.ofList name ≠ other := by
  rintro rfl
  rw [String.toList_ofList] at hother
  exact hother h

/-- A word before a colon is a key. -/
theorem keyed_of_isWord {value : List Char} (hname : Formula.IsWord name)
    (hvalue : OpensValue value) :
    Keyed (name ++ ':' :: value) name := by
  obtain ⟨c, rest, rfl⟩ := List.exists_cons_of_ne_nil hname.ne_nil
  have hne {d : Char} (hd : d ∈ c :: rest) {e : Char} (he : Formula.isWordPart e = false) :
      d ≠ e := by
    rintro rfl
    rw [hname.isWordPart d hd] at he
    cases he
  have hstart : isPlainStart c := by
    refine isPlainStart_iff.2 ⟨hname.isBlank c List.mem_cons_self, ?_, ?_, ?_, ?_, ?_⟩
    all_goals exact hne List.mem_cons_self (by decide)
  have hlast : ∀ d ∈ (c :: rest).getLast?, isBlank d = false :=
    fun d hd => hname.isBlank d (List.mem_of_getLast? hd)
  have hkeyed : Keyed (c :: rest ++ ([] ++ ':' :: value)) (c :: rest) :=
    .plain rfl hstart (fun d hd => ⟨hne hd (by decide), hne hd (by decide)⟩) hlast nofun hvalue
  exact hkeyed

end TableDoc.EntryScan
