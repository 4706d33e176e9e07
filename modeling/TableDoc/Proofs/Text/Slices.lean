import Mathlib.Control.Monad.Writer
import TableDoc.Proofs.Text

/-!
# Slices by bytes

A text is sliced at offsets in bytes, and only where a character starts or the text ends
(`isSome_slice?_iff`). `Slicing` is a computation that slices a text: it fails if one slice does,
and records the offsets. That all of them are boundaries follows from the same of its parts
(`Slices.bind`).
-/

namespace TableDoc.Text

variable {text before piece after : List Char} {start stop offset : Nat}

/-! ## Bytes and boundaries -/

/-- The bytes of a text. -/
def bytes (text : List Char) : List UInt8 := text.flatMap String.utf8EncodeChar

@[simp] theorem bytes_nil : bytes [] = [] := rfl

@[simp] theorem bytes_cons (c : Char) (text : List Char) :
    bytes (c :: text) = String.utf8EncodeChar c ++ bytes text := rfl

@[simp] theorem bytes_append (before after : List Char) :
    bytes (before ++ after) = bytes before ++ bytes after :=
  List.flatMap_append

/-- The size of a text is the number of its bytes. -/
@[simp] theorem length_bytes (text : List Char) : (bytes text).length = byteLength text := by
  induction text with
  | nil => rfl
  | cons c text ih =>
    rw [bytes_cons, List.length_append, String.length_utf8EncodeChar, ih, byteLength_cons]

theorem getElem?_bytes_append (before after : List Char) (i : Nat) :
    (bytes (before ++ after))[byteLength before + i]? = (bytes after)[i]? := by
  rw [bytes_append, ← length_bytes before, List.getElem?_append_right (Nat.le_add_right _ _),
    Nat.add_sub_cancel_left]

/-- At the offset a character of the text starts, or the text ends. -/
def IsBoundary (text : List Char) (offset : Nat) : Prop :=
  (⟨offset⟩ : String.Pos.Raw).IsValid (.ofList text)

/-- Boundaries are the sizes of the texts that a text starts with. -/
theorem isBoundary_iff : IsBoundary text offset ↔
    ∃ before after, text = before ++ after ∧ byteLength before = offset := by
  rw [IsBoundary, String.Pos.Raw.isValid_iff_exists_append]
  constructor
  · rintro ⟨before, after, htext, hoffset⟩
    refine ⟨before.toList, after.toList, ?_, ?_⟩
    · rw [← String.toList_append, ← htext, String.toList_ofList]
    · rw [byteLength_toList]
      exact (congrArg String.Pos.Raw.byteIdx hoffset).symm
  · rintro ⟨before, after, rfl, rfl⟩
    refine ⟨.ofList before, .ofList after, String.ofList_append, String.Pos.Raw.ext ?_⟩
    change byteLength before = (String.ofList before).utf8ByteSize
    rw [← byteLength_toList, String.toList_ofList]

theorem isBoundary_append (before after : List Char) :
    IsBoundary (before ++ after) (byteLength before) :=
  isBoundary_iff.2 ⟨before, after, rfl, rfl⟩

theorem IsBoundary.le (h : IsBoundary text offset) : offset ≤ byteLength text := by
  obtain ⟨before, after, rfl, rfl⟩ := isBoundary_iff.1 h
  rw [byteLength_append]
  exact Nat.le_add_right _ _

theorem eq_nil_of_byteLength (h : byteLength text = 0) : text = [] :=
  Classical.not_not.1 fun hne => (byteLength_pos hne).ne' h

theorem prefix_of_byteLength_le {last : List Char} (h : before ++ after = piece ++ last)
    (hle : byteLength before ≤ byteLength piece) :
    ∃ rest, piece = before ++ rest ∧ after = rest ++ last := by
  rcases List.append_eq_append_iff.1 h with ⟨rest, rfl, rfl⟩ | ⟨rest, rfl, rfl⟩
  · exact ⟨rest, rfl, rfl⟩
  · rw [byteLength_append] at hle
    obtain rfl : rest = [] := eq_nil_of_byteLength (by omega)
    exact ⟨[], by rw [List.append_nil, List.append_nil], rfl⟩

/-- A text is cut in one way at an offset. -/
theorem append_inj_of_byteLength {last : List Char} (h : before ++ after = piece ++ last)
    (hlength : byteLength before = byteLength piece) : before = piece ∧ after = last := by
  obtain ⟨rest, rfl, rfl⟩ := prefix_of_byteLength_le h (Nat.le_of_eq hlength)
  rw [byteLength_append] at hlength
  obtain rfl : rest = [] := eq_nil_of_byteLength (by omega)
  exact ⟨(List.append_nil before).symm, rfl⟩

/-! ## Slices -/

/-- A text up to an offset and from there on, if the offset is a boundary. -/
def splitAt? : Nat → List Char → Option (List Char × List Char)
  | 0, text => some ([], text)
  | _ + 1, [] => none
  | n + 1, c :: text =>
    if c.utf8Size ≤ n + 1 then (splitAt? (n + 1 - c.utf8Size) text).map fun (before, after) =>
      (c :: before, after)
    else none

/-- A text is cut at the size of what it starts with. -/
theorem splitAt?_append (before after : List Char) :
    splitAt? (byteLength before) (before ++ after) = some (before, after) := by
  induction before with
  | nil => cases after <;> rfl
  | cons c before ih =>
    obtain ⟨n, hn⟩ := Nat.exists_eq_add_one.2 (byteLength_pos (List.cons_ne_nil c before))
    rw [hn, List.cons_append, splitAt?, ← hn, byteLength_cons, if_pos (Nat.le_add_right _ _),
      Nat.add_sub_cancel_left, ih]
    rfl

/-- A text is only cut between characters. -/
theorem of_splitAt? {n : Nat} (h : splitAt? n text = some (before, after)) :
    text = before ++ after ∧ byteLength before = n := by
  fun_induction splitAt? n text generalizing before with
  | case1 =>
    cases h
    exact ⟨rfl, rfl⟩
  | case2 => cases h
  | case3 n c text hle ih =>
    obtain ⟨⟨before, after⟩, hsplit, heq⟩ := Option.map_eq_some_iff.1 h
    cases heq
    obtain ⟨rfl, hlength⟩ := ih hsplit
    exact ⟨rfl, by rw [byteLength_cons]; omega⟩
  | case4 => cases h

/-- What stands between two offsets. -/
def slice? (text : List Char) (start stop : Nat) : Option (List Char) :=
  if start ≤ stop then
    (splitAt? start text).bind fun (_, rest) => (splitAt? (stop - start) rest).map Prod.fst
  else none

/-- A slice is a piece of the text between two boundaries. -/
theorem slice?_eq_some_iff : slice? text start stop = some piece ↔ ∃ before after,
    text = before ++ piece ++ after ∧ byteLength before = start ∧
    byteLength (before ++ piece) = stop := by
  constructor
  · intro h
    rw [slice?, Option.ite_none_right_eq_some] at h
    obtain ⟨hle, h⟩ := h
    obtain ⟨⟨before, rest⟩, hrest, h⟩ := Option.bind_eq_some_iff.1 h
    obtain ⟨⟨part, after⟩, hpiece, h⟩ := Option.map_eq_some_iff.1 h
    obtain rfl : part = piece := h
    obtain ⟨rfl, hstart⟩ := of_splitAt? hrest
    obtain ⟨rfl, hlength⟩ := of_splitAt? hpiece
    exact ⟨before, after, (List.append_assoc _ _ _).symm, hstart, by rw [byteLength_append]; omega⟩
  · rintro ⟨before, after, rfl, rfl, rfl⟩
    rw [byteLength_append, slice?, if_pos (Nat.le_add_right _ _), List.append_assoc,
      splitAt?_append, Nat.add_sub_cancel_left]
    change (splitAt? _ (piece ++ after)).map _ = _
    rw [splitAt?_append]
    rfl

/-- Only boundaries bound a slice. -/
theorem isSome_slice?_iff : (slice? text start stop).isSome ↔
    start ≤ stop ∧ IsBoundary text start ∧ IsBoundary text stop := by
  rw [Option.isSome_iff_exists]
  constructor
  · rintro ⟨piece, hpiece⟩
    obtain ⟨before, after, rfl, rfl, rfl⟩ := slice?_eq_some_iff.1 hpiece
    refine ⟨?_, ?_, isBoundary_append _ _⟩
    · rw [byteLength_append]
      exact Nat.le_add_right _ _
    · rw [List.append_assoc]
      exact isBoundary_append _ _
  · rintro ⟨hle, hstart, hstop⟩
    obtain ⟨before, rest, rfl, rfl⟩ := isBoundary_iff.1 hstart
    obtain ⟨upto, after, htext, rfl⟩ := isBoundary_iff.1 hstop
    obtain ⟨piece, rfl, -⟩ := prefix_of_byteLength_le htext hle
    exact ⟨piece, slice?_eq_some_iff.2 ⟨before, after, htext, rfl, rfl⟩⟩

example : slice? "aé".toList 1 3 = some ['é'] ∧ slice? "aé".toList 1 2 = none := by decide

/-! ## Computations that slice a text -/

/-- A computation that slices a text, with the offsets of its slices. -/
abbrev Slicing := WriterT (List Nat) Option

/-- A slice whose offsets are recorded. -/
def slice (text : List Char) (start stop : Nat) : Slicing (List Char) := do
  tell [start, stop]
  slice? text start stop

/-- The computation gives a result, and all its offsets are boundaries. -/
def Slices (text : List Char) (x : Slicing α) (a : α) : Prop :=
  ∃ offsets, x.run = some (a, offsets) ∧ ∀ offset ∈ offsets, IsBoundary text offset

theorem Slices.pure (a : α) : Slices text (Pure.pure a) a := ⟨[], rfl, nofun⟩

theorem Slices.bind {x : Slicing α} {f : α → Slicing β} {a : α} {b : β} (hx : Slices text x a)
    (hf : Slices text (f a) b) : Slices text (x >>= f) b := by
  obtain ⟨first, hfirst, hfirst'⟩ := hx
  obtain ⟨later, hlater, hlater'⟩ := hf
  refine ⟨first ++ later, ?_, fun offset hoffset => ?_⟩
  · change (x.run >>= fun (a, first) => (fun (b, later) => (b, first ++ later)) <$> (f a).run) = _
    rw [hfirst]
    change (fun (b, later) => (b, first ++ later)) <$> (f a).run = _
    rw [hlater]
    rfl
  · rcases List.mem_append.1 hoffset with h | h
    · exact hfirst' offset h
    · exact hlater' offset h

theorem slices_tell {offsets : List Nat} (h : ∀ offset ∈ offsets, IsBoundary text offset) :
    Slices text (tell offsets) PUnit.unit := ⟨offsets, rfl, h⟩

theorem slices_slice (before piece after : List Char) (h : text = before ++ piece ++ after)
    (hstart : byteLength before = start) (hstop : byteLength (before ++ piece) = stop) :
    Slices text (slice text start stop) piece := by
  have hpiece : slice? text start stop = some piece :=
    slice?_eq_some_iff.2 ⟨before, after, h, hstart, hstop⟩
  obtain ⟨-, hstart, hstop⟩ := isSome_slice?_iff.1 (Option.isSome_of_mem hpiece)
  have hlift : Slices text (liftM (slice? text start stop)) piece :=
    ⟨[], congrArg (Option.map (·, [])) hpiece, nofun⟩
  refine (slices_tell ?_).bind hlift
  rw [List.forall_mem_cons, List.forall_mem_singleton]
  exact ⟨hstart, hstop⟩

theorem slices_rest (before after : List Char) :
    Slices (before ++ after)
      (slice (before ++ after) (byteLength before) (byteLength (before ++ after))) after :=
  slices_slice before after [] (List.append_nil _).symm rfl rfl

end TableDoc.Text
