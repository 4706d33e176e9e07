import TableDoc.Proofs.Interpolation.Scan
import TableDoc.Proofs.Text.Slices

/-!
# Runs of backticks in the bytes of a line

A search for the run that closes a code span goes through the line byte by byte, also within
characters. No byte of another character is that of a backtick (`eq_of_tick_mem`), so the runs of
bytes are those of characters (`IsRun.exists_bounds`, `Bounds.isRun`). The search finds the first
run of the length it looks for (`exists_closingRun`).
-/

namespace TableDoc.Segment

open Text (Slicing Slices bytes byteLength IsBoundary)

variable {bs : List UInt8} {c : Char} {i j k m n : Nat} {text before after inner rest : List Char}
  {found : Option Nat}

/-! ## The byte of a backtick -/

/-- The byte of a backtick. -/
def tick : UInt8 := 0x60

theorem bytes_backticks (n : Nat) : bytes (backticks n) = List.replicate n tick := by
  induction n with
  | zero => rfl
  | succ n ih =>
    rw [backticks, List.replicate_succ, Text.bytes_cons, List.replicate_succ, ← backticks, ih]
    rfl

theorem byteLength_backticks (n : Nat) : byteLength (backticks n) = n := by
  rw [← Text.length_bytes, bytes_backticks, List.length_replicate]

theorem tick_eq_ofNat_iff {v : Nat} : tick = UInt8.ofNat v ↔ v % 256 = 96 := by
  rw [← UInt8.toNat_inj, UInt8.toNat_ofNat']
  exact eq_comm

theorem eq_of_tick_mem (h : tick ∈ String.utf8EncodeChar c) : c = '\x60' := by
  rw [String.utf8EncodeChar] at h
  split at h
  · next hascii =>
    have hval := tick_eq_ofNat_iff.1 (List.mem_singleton.1 h)
    exact Char.ext (UInt32.toNat_inj.1 (by change c.val.toNat = 96; omega))
  · -- Each byte of a longer encoding is 0x80 or more.
    refine absurd h ?_
    split
    · simp only [List.mem_cons, List.not_mem_nil, or_false, tick_eq_ofNat_iff]
      omega
    · split <;> (simp only [List.mem_cons, List.not_mem_nil, or_false, tick_eq_ofNat_iff]; omega)

/-- A byte is that of a backtick if there is a backtick at its offset. -/
theorem getElem?_bytes_eq_tick : (bytes text)[i]? = some tick ↔
    ∃ before after, text = before ++ '\x60' :: after ∧ byteLength before = i := by
  constructor
  · intro h
    induction text generalizing i with
    | nil => cases h
    | cons c text ih =>
      rw [Text.bytes_cons] at h
      rcases Nat.lt_or_ge i (String.utf8EncodeChar c).length with hi | hi
      · rw [List.getElem?_append_left hi] at h
        obtain rfl := eq_of_tick_mem (List.mem_of_getElem? h)
        have hzero : i = 0 := Nat.lt_one_iff.1 hi
        exact ⟨[], text, rfl, hzero.symm⟩
      · rw [List.getElem?_append_right hi] at h
        obtain ⟨before, after, rfl, hlength⟩ := ih h
        rw [String.length_utf8EncodeChar] at hi hlength
        exact ⟨c :: before, after, rfl, by rw [Text.byteLength_cons]; omega⟩
  · rintro ⟨before, after, rfl, rfl⟩
    rw [← Nat.add_zero (byteLength before), Text.getElem?_bytes_append]
    rfl

theorem exists_cons_of_bytes (h : (bytes text)[0]? = some tick) :
    ∃ after, text = '\x60' :: after := by
  obtain ⟨before, after, rfl, hbefore⟩ := getElem?_bytes_eq_tick.1 h
  obtain rfl := Text.eq_nil_of_byteLength hbefore
  exact ⟨after, rfl⟩

/-- There are boundaries of characters on both sides of a backtick. -/
theorem isBoundary_of_tick (h : (bytes text)[i]? = some tick) :
    IsBoundary text i ∧ IsBoundary text (i + 1) := by
  obtain ⟨before, after, rfl, rfl⟩ := getElem?_bytes_eq_tick.1 h
  have hstop : byteLength (before ++ ['\x60']) = byteLength before + 1 :=
    Text.byteLength_append before ['\x60']
  refine ⟨Text.isBoundary_append _ _, ?_⟩
  rw [List.append_cons, ← hstop]
  exact Text.isBoundary_append _ _

/-! ## Runs -/

/-- The bytes from `start` up to `stop` are backticks, and those next to them are not. -/
structure IsRun (bs : List UInt8) (start stop : Nat) : Prop where
  lt : start < stop
  ticks : ∀ i, start ≤ i → i < stop → bs[i]? = some tick
  before : ∀ i, i + 1 = start → bs[i]? ≠ some tick
  after : bs[stop]? ≠ some tick

/-- The number of backticks that the bytes start with. -/
def tickCount (bs : List UInt8) : Nat := (bs.takeWhile (· = tick)).length

theorem getElem?_of_lt_tickCount (h : i < tickCount bs) : bs[i]? = some tick := by
  induction bs generalizing i with
  | nil => cases h
  | cons b bs ih =>
    rw [tickCount, List.takeWhile_cons] at h
    split at h
    · next hb =>
      cases i with
      | zero => exact congrArg some (of_decide_eq_true hb)
      | succ i => exact ih (Nat.lt_of_succ_lt_succ h)
    · cases h

theorem getElem?_tickCount_ne (bs : List UInt8) : bs[tickCount bs]? ≠ some tick := by
  induction bs with
  | nil => nofun
  | cons b bs ih =>
    rw [tickCount, List.takeWhile_cons]
    split
    · exact ih
    · next hb => exact fun h => hb (decide_eq_true (Option.some.inj h))

/-- The backticks at the start of a text are counted by their bytes. -/
theorem tickCount_backticks (h : rest.head? ≠ some '\x60') :
    tickCount (bytes (backticks n ++ rest)) = n := by
  rw [tickCount, Text.bytes_append, bytes_backticks, Text.takeWhile_append, List.length_replicate]
  · exact fun b hb => decide_eq_true (List.eq_of_mem_replicate hb)
  · intro b hb
    refine decide_eq_false ?_
    rintro rfl
    rw [List.head?_eq_getElem?] at hb
    obtain ⟨after, rfl⟩ := exists_cons_of_bytes hb
    exact h rfl

theorem tickCount_pos (h : bs[i]? = some tick) : 0 < tickCount (bs.drop i) := by
  refine Nat.pos_of_ne_zero fun hzero => ?_
  have hne := getElem?_tickCount_ne (bs.drop i)
  rw [hzero, List.getElem?_drop] at hne
  exact hne h

/-- No run goes on at the offset that has begun before it. -/
def AtEdge (bs : List UInt8) (i : Nat) : Prop :=
  ∀ j, j + 1 = i → bs[j]? = some tick → bs[i]? ≠ some tick

/-- From an edge the backticks up to the next other byte are a run. -/
theorem isRun_of_atEdge (hedge : AtEdge bs i) (h : bs[i]? = some tick) :
    IsRun bs i (i + tickCount (bs.drop i)) where
  lt := Nat.lt_add_of_pos_right (tickCount_pos h)
  ticks j hij hj := by
    have hdrop : (bs.drop i)[j - i]? = some tick := getElem?_of_lt_tickCount (by omega)
    rwa [List.getElem?_drop, Nat.add_sub_cancel' hij] at hdrop
  before j hj htick := hedge j hj htick h
  after := by
    rw [← List.getElem?_drop]
    exact getElem?_tickCount_ne _

/-- Runs follow each other. -/
theorem IsRun.le (h : IsRun bs i j) (h' : IsRun bs k m) (hik : i < k) : j ≤ k := by
  refine Nat.le_of_not_lt fun hkj =>
    h'.before (k - 1) (by omega) (h.ticks (k - 1) (by omega) (by omega))

theorem IsRun.stop_eq (h : IsRun bs i j) (h' : IsRun bs i k) : j = k := by
  refine Nat.le_antisymm (Nat.le_of_not_lt fun hkj => ?_) (Nat.le_of_not_lt fun hjk => ?_)
  · exact h'.after (h.ticks k (Nat.le_of_lt h'.lt) hkj)
  · exact h.after (h'.ticks j (Nat.le_of_lt h.lt) hjk)

/-- A run of backticks starts and stops at boundaries of characters. -/
theorem IsRun.isBoundary (h : IsRun (bytes text) i j) : IsBoundary text i ∧ IsBoundary text j := by
  have hlt := h.lt
  obtain ⟨last, rfl⟩ := Nat.exists_eq_add_one.2 (Nat.zero_lt_of_lt hlt)
  exact ⟨(isBoundary_of_tick (h.ticks i (Nat.le_refl i) hlt)).1,
    (isBoundary_of_tick (h.ticks last (Nat.le_of_lt_succ hlt) (Nat.lt_succ_self last))).2⟩

theorem IsRun.atEdge (h : IsRun bs i j) : AtEdge bs j := fun _ _ _ => h.after

/-! ## The search -/

/-- The offset of the next run of exactly `n` backticks, from the offset `i` on. The offsets of all
runs on the way are recorded. -/
def closingRun (bs : List UInt8) (n i : Nat) : Slicing (Option Nat) :=
  if h : i < bs.length then
    if htick : bs[i] = tick then do
      let run := tickCount (bs.drop i)
      tell [i, i + run]
      if run = n then return some i else closingRun bs n (i + run)
    else closingRun bs n (i + 1)
  else return none
termination_by bs.length - i
decreasing_by
  · have := tickCount_pos ((List.getElem?_eq_getElem h).trans (congrArg some htick))
    omega
  · omega

/-- The first run of exactly `n` backticks from the offset `i` on, if there is one. -/
inductive FirstRun (bs : List UInt8) (n i : Nat) : Option Nat → Prop
  | hit {j : Nat} : i ≤ j → IsRun bs j (j + n) → (∀ k, i ≤ k → IsRun bs k (k + n) → j ≤ k) →
    FirstRun bs n i (some j)
  | miss : (∀ j, i ≤ j → ¬IsRun bs j (j + n)) → FirstRun bs n i none

/-- A search may go on at a later offset if no such run starts before. -/
theorem FirstRun.of_later (h : FirstRun bs n m found) (him : i ≤ m)
    (hnone : ∀ j, i ≤ j → IsRun bs j (j + n) → m ≤ j) : FirstRun bs n i found := by
  cases h with
  | hit hle hrun hleast =>
    exact .hit (Nat.le_trans him hle) hrun fun k hik hk => hleast k (hnone k hik hk) hk
  | miss h => exact .miss fun j hij hj => h j (hnone j hij hj) hj

/-- The search ends with the first such run, and all runs that it comes by lie between characters.
-/
theorem exists_closingRun (line : List Char) (n : Nat) (h : AtEdge (bytes line) i) :
    ∃ found, Slices line (closingRun (bytes line) n i) found ∧ FirstRun (bytes line) n i found := by
  fun_induction closingRun (bytes line) n i with
  | case1 i hi htick run ih =>
    have hstart : (bytes line)[i]? = some tick :=
      (List.getElem?_eq_getElem hi).trans (congrArg some htick)
    have hrun : IsRun (bytes line) i (i + run) := isRun_of_atEdge h hstart
    have hcuts : ∀ offset ∈ [i, i + run], IsBoundary line offset := by
      rw [List.forall_mem_cons, List.forall_mem_singleton]
      exact hrun.isBoundary
    by_cases hn : run = n
    · subst hn
      refine ⟨some i, (Text.slices_tell hcuts).bind ?_,
        .hit (Nat.le_refl i) hrun fun k hik _ => hik⟩
      rw [if_pos rfl]
      exact .pure _
    · obtain ⟨found, hfound, hfirst⟩ := ih hrun.atEdge
      refine ⟨found, (Text.slices_tell hcuts).bind ?_,
        hfirst.of_later (Nat.le_add_right i run) fun j hij hj => ?_⟩
      · rw [if_neg hn]
        exact hfound
      · refine hrun.le hj (Nat.lt_of_le_of_ne hij ?_)
        rintro rfl
        exact hn (Nat.add_left_cancel (hrun.stop_eq hj))
  | case2 i hi htick ih =>
    have hne : (bytes line)[i]? ≠ some tick := by
      rw [List.getElem?_eq_getElem hi]
      exact fun h => htick (Option.some.inj h)
    have hedge : AtEdge (bytes line) (i + 1) := by
      intro j hj hbefore
      obtain rfl := Nat.succ.inj hj
      exact absurd hbefore hne
    obtain ⟨found, hfound, hfirst⟩ := ih hedge
    refine ⟨found, hfound,
      hfirst.of_later (Nat.le_succ i) fun j hij hj => Nat.lt_of_le_of_ne hij ?_⟩
    rintro rfl
    exact hne (hj.ticks i (Nat.le_refl i) hj.lt)
  | case3 i hi =>
    refine ⟨none, .pure none, .miss fun j hij hj => ?_⟩
    have hlt := List.getElem?_eq_some_iff.1 (hj.ticks j (Nat.le_refl j) hj.lt)
    exact hi (Nat.lt_of_le_of_lt hij hlt.1)

/-! ## Runs of bytes and of characters -/

theorem exists_backticks_of_bytes (h : ∀ i < n, (bytes text)[i]? = some tick) :
    ∃ after, text = backticks n ++ after := by
  induction n generalizing text with
  | zero => exact ⟨text, rfl⟩
  | succ n ih =>
    obtain ⟨rest, rfl⟩ := exists_cons_of_bytes (h 0 (Nat.succ_pos n))
    obtain ⟨after, rfl⟩ := ih fun i hi => h (i + 1) (Nat.succ_lt_succ hi)
    exact ⟨after, rfl⟩

/-- A run of bytes is a run of characters. -/
theorem IsRun.exists_bounds (h : IsRun (bytes text) i (i + n)) :
    ∃ before after, text = before ++ backticks n ++ after ∧ Bounds before after ∧
      byteLength before = i := by
  obtain ⟨before, rest, rfl, rfl⟩ := getElem?_bytes_eq_tick.1 (h.ticks i (Nat.le_refl i) h.lt)
  have hticks : ∀ k < n, (bytes ('\x60' :: rest))[k]? = some tick := by
    intro k hk
    rw [← Text.getElem?_bytes_append before]
    exact h.ticks _ (Nat.le_add_right _ _) (Nat.add_lt_add_left hk _)
  obtain ⟨after, hafter⟩ := exists_backticks_of_bytes hticks
  rw [hafter] at h ⊢
  refine ⟨before, after, (List.append_assoc _ _ _).symm, ⟨fun hlast => ?_, fun hhead => ?_⟩, rfl⟩
  · obtain ⟨init, rfl⟩ := List.getLast?_eq_some_iff.1 hlast
    refine h.before (byteLength init) (Text.byteLength_append init ['\x60']).symm ?_
    exact getElem?_bytes_eq_tick.2 ⟨init, _, List.append_assoc _ _ _, rfl⟩
  · obtain ⟨later, rfl⟩ := List.head?_eq_some_iff.1 hhead
    refine h.after
      (getElem?_bytes_eq_tick.2 ⟨before ++ backticks n, later, (List.append_assoc _ _ _).symm, ?_⟩)
    rw [Text.byteLength_append, byteLength_backticks]

/-- A run of characters is a run of bytes. -/
theorem Bounds.isRun (h : Bounds before after) (hn : 0 < n) :
    IsRun (bytes (before ++ (backticks n ++ after))) (byteLength before)
      (byteLength before + n) where
  lt := Nat.lt_add_of_pos_right hn
  ticks i hi hin := by
    obtain ⟨k, rfl⟩ := Nat.exists_eq_add_of_le hi
    have hk : k < n := Nat.lt_of_add_lt_add_left hin
    rw [Text.getElem?_bytes_append, Text.bytes_append, bytes_backticks,
      List.getElem?_append_left (by rwa [List.length_replicate]), List.getElem?_replicate,
      if_pos hk]
  before i hi htick := by
    obtain ⟨init, later, heq, rfl⟩ := getElem?_bytes_eq_tick.1 htick
    rw [List.append_cons] at heq
    obtain ⟨rfl, -⟩ :=
      Text.append_inj_of_byteLength heq (by rw [Text.byteLength_append]; exact hi.symm)
    exact h.before List.getLast?_concat
  after htick := by
    have hstop := Text.getElem?_bytes_append (backticks n) after 0
    rw [byteLength_backticks, Nat.add_zero] at hstop
    rw [Text.getElem?_bytes_append, hstop] at htick
    obtain ⟨later, rfl⟩ := exists_cons_of_bytes htick
    exact h.after rfl

/-- A run of bytes after a part of the line is a run in the rest. -/
theorem IsRun.exists_inner (h : IsRun (bytes (before ++ rest)) i (i + n))
    (hi : byteLength before ≤ i) :
    ∃ inner after, rest = inner ++ backticks n ++ after ∧ Bounds inner after ∧
      byteLength (before ++ inner) = i := by
  obtain ⟨upto, after, heq, hbounds, rfl⟩ := h.exists_bounds
  rw [List.append_assoc] at heq
  obtain ⟨inner, rfl, rfl⟩ := Text.prefix_of_byteLength_le heq hi
  refine ⟨inner, after, (List.append_assoc _ _ _).symm,
    ⟨fun hlast => hbounds.before ?_, hbounds.after⟩, rfl⟩
  rw [List.getLast?_append, hlast]
  rfl

/-- What is found is where the code span closes. -/
theorem FirstRun.eq_some (h : FirstRun (bytes (before ++ rest)) n (byteLength before) found)
    (hn : 0 < n) (hrest : rest.head? ≠ some '\x60') (hcloses : Closes n rest inner after) :
    found = some (byteLength (before ++ inner)) := by
  have hne : inner ≠ [] := by
    rintro rfl
    rw [hcloses.eq, List.nil_append, backticks, List.head?_append, List.head?_replicate,
      if_neg (by omega)] at hrest
    exact hrest rfl
  have hbounds : Bounds (before ++ inner) after := by
    refine ⟨fun hlast => hcloses.bounds.before ?_, hcloses.bounds.after⟩
    rwa [List.getLast?_append_of_ne_nil _ hne] at hlast
  have hrun : IsRun (bytes (before ++ rest)) (byteLength (before ++ inner))
      (byteLength (before ++ inner) + n) := by
    have hrun := hbounds.isRun hn
    rwa [List.append_assoc, ← List.append_assoc inner, ← hcloses.eq] at hrun
  have hle : byteLength before ≤ byteLength (before ++ inner) := by
    rw [Text.byteLength_append]
    exact Nat.le_add_right _ _
  cases h with
  | miss hnone => exact absurd hrun (hnone _ hle)
  | @hit j hj hfirst hleast =>
    obtain ⟨earlier, later, heq, hbounds', rfl⟩ := hfirst.exists_inner hj
    have hshort := hleast _ hle hrun
    have hlong := hcloses.first earlier later heq hbounds'
    rw [hcloses.eq, List.append_assoc, List.append_assoc] at heq
    rw [Text.byteLength_append, Text.byteLength_append] at hshort
    obtain ⟨last, rfl, -⟩ :=
      Text.prefix_of_byteLength_le heq.symm (Nat.le_of_add_le_add_left hshort)
    rw [List.length_append] at hlong
    obtain rfl : last = [] := List.eq_nil_of_length_eq_zero (by omega)
    rw [List.append_nil]

/-- Where no run closes by characters, there is none of bytes. -/
theorem FirstRun.eq_none (h : FirstRun (bytes (before ++ rest)) n (byteLength before) found)
    (hnone : ∀ inner after, rest = inner ++ backticks n ++ after → ¬Bounds inner after) :
    found = none := by
  cases h with
  | miss => rfl
  | hit hj hrun =>
    obtain ⟨inner, after, heq, hbounds, -⟩ := hrun.exists_inner hj
    exact absurd hbounds (hnone inner after heq)

end TableDoc.Segment
