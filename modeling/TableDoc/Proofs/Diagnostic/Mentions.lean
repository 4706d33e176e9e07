import TableDoc.Diagnostic
import TableDoc.Proofs.Text

/-!
# Codes that a text mentions

A word stands in a text if it is made of word characters and no word character is next to it
(`Isolates`, `HasWord`); these are the words that a text is divided into (`mem_words_iff`). The
first code that stands in a text is the code of the text, unless another word of the form of a code
comes before it: then the text has none (`ofMessage_mentions`). The text of a diagnostic starts with
its code.
-/

namespace TableDoc.Diagnostic.Code

open Text (isWordChar)

/-- A word stands in a text, between what comes before and after it. -/
structure Isolates (text before word after : List Char) : Prop where
  text_eq : text = before ++ (word ++ after)
  word : ∀ c ∈ word, isWordChar c
  before : ∀ c ∈ before.getLast?, isWordChar c = false
  after : ∀ c ∈ after.head?, isWordChar c = false

/-- A word stands somewhere in a text. -/
def HasWord (text word : List Char) : Prop := ∃ before after, Isolates text before word after

/-- A code stands in a text, and no code before it. -/
def FirstMention (text : List Char) (code : Code) (before : List Char) : Prop :=
  (∃ after, Isolates text before code.text.toList after) ∧ ∀ other : Code,
    ¬ HasWord before other.text.toList

variable {text before word after : List Char} {first others : List (List Char)} {c : Char}
  {code : Code}

/-! ## Words -/

theorem words_append_cons (hc : isWordChar c = false) (before after : List Char) :
    words (before ++ c :: after) = words before ++ words after :=
  List.splitOnP_append_cons before after (by rw [hc]; rfl)

theorem words_of_forall (h : ∀ c ∈ word, isWordChar c) : words word = [word] :=
  List.splitOnP_eq_singleton fun c hc => by rw [h c hc]; rfl

/-- What comes before a word in a text ends with the empty word. -/
theorem Isolates.words_eq (h : Isolates text before word after) :
    ∃ first others, words before = first ++ [[]] ∧ words text = first ++ word :: others := by
  have hword : ∃ others, words (word ++ after) = word :: others := by
    cases after with
    | nil => exact ⟨[], by rw [List.append_nil, words_of_forall h.word]⟩
    | cons c after =>
      exact ⟨words after, by rw [words_append_cons (h.after c rfl), words_of_forall h.word]; rfl⟩
  obtain ⟨others, hothers⟩ := hword
  rw [h.text_eq]
  rcases List.eq_nil_or_concat' before with rfl | ⟨before, c, rfl⟩
  · exact ⟨[], others, rfl, hothers⟩
  · have hc : isWordChar c = false := h.before c List.getLast?_concat
    refine ⟨words before, others, words_append_cons hc before [], ?_⟩
    rw [List.append_assoc, List.singleton_append, words_append_cons hc, hothers]

/-- Every word that a text is divided into stands in it. -/
theorem exists_isolates {text : List Char} {first : List (List Char)}
    (h : words text = first ++ word :: others) :
    ∃ before after, Isolates text before word after ∧ words before = first ++ [[]] := by
  have hsplit : text.takeWhile isWordChar ++ text.dropWhile isWordChar = text :=
    List.takeWhile_append_dropWhile
  have hlead : ∀ c ∈ text.takeWhile isWordChar, isWordChar c := fun _ => Text.of_mem_takeWhile
  rcases hrest : text.dropWhile isWordChar with _ | ⟨c, rest⟩
  · rw [hrest, List.append_nil] at hsplit
    rw [← hsplit, words_of_forall hlead] at h
    obtain ⟨rfl, hword⟩ | ⟨rest, -, hnil⟩ := List.cons_eq_append_iff.1 h
    · obtain ⟨hword, -⟩ := List.cons.inj hword
      refine ⟨[], [], ⟨?_, ?_, nofun, nofun⟩, rfl⟩
      · rw [hword, hsplit, List.append_nil, List.nil_append]
      · rwa [hword]
    · exact absurd hnil.symm (List.append_ne_nil_of_right_ne_nil _ (List.cons_ne_nil _ _))
  · have hc : isWordChar c = false := Text.of_mem_head?_dropWhile (by rw [hrest]; rfl)
    rw [hrest] at hsplit
    rw [← hsplit, words_append_cons hc, words_of_forall hlead, List.singleton_append] at h
    obtain ⟨rfl, hword⟩ | ⟨first, rfl, hwords⟩ := List.cons_eq_append_iff.1 h
    · obtain ⟨rfl, -⟩ := List.cons.inj hword
      refine ⟨[], c :: rest, ⟨hsplit.symm, hlead, nofun, ?_⟩, rfl⟩
      rintro _ ⟨⟩
      exact hc
    · obtain ⟨before, after, hbefore, hfirst⟩ := exists_isolates hwords
      refine ⟨text.takeWhile isWordChar ++ c :: before, after,
        ⟨?_, hbefore.word, ?_, hbefore.after⟩, ?_⟩
      · rw [List.append_assoc, List.cons_append, ← hbefore.text_eq, hsplit]
      · cases before with
        | nil =>
          rw [List.getLast?_concat]
          rintro _ ⟨⟩
          exact hc
        | cons d before =>
          rw [List.getLast?_append_of_ne_nil _ (List.cons_ne_nil _ _), List.getLast?_cons_cons]
          exact hbefore.before
      · rw [words_append_cons hc, words_of_forall hlead, hfirst]
        rfl
termination_by text.length
decreasing_by
  rw [← hsplit, hrest, List.length_append, List.length_cons]
  omega

/-- The words of a text are those that stand alone in it. -/
theorem mem_words_iff : word ∈ words text ↔ HasWord text word := by
  constructor
  · intro h
    obtain ⟨first, others, h⟩ := List.append_of_mem h
    obtain ⟨before, after, hword, -⟩ := exists_isolates h
    exact ⟨before, after, hword⟩
  · rintro ⟨before, after, h⟩
    obtain ⟨first, others, -, hwords⟩ := h.words_eq
    rw [hwords]
    exact List.mem_append_right _ List.mem_cons_self

/-! ## Codes -/

theorem isCodeShaped_text (code : Code) : isCodeShaped code.text.toList := by cases code <;> decide

theorem isWordChar_of_mem_text (code : Code) : ∀ c ∈ code.text.toList, isWordChar c :=
  List.all_eq_true.1 (by cases code <;> decide +kernel)

/-- Every code is found by its own text only. -/
theorem ofText?_eq_some_iff : ofText? (.ofList word) = some code ↔ word = code.text.toList := by
  constructor
  · intro h
    have htext := List.find?_some h
    rw [of_decide_eq_true htext, String.toList_ofList]
  · rintro rfl
    rw [String.ofList_toList, ofText?_text]

theorem ofMessage_of_find {message : String}
    (h : (words message.toList).find? isCodeShaped = some word) :
    ofMessage message = (ofText? (.ofList word)).getD unknown := by
  rw [ofMessage, h]
  rfl

theorem find?_first (h : words before = first ++ [[]]) :
    (words before).find? isCodeShaped = first.find? isCodeShaped := by
  rw [h, List.find?_append]
  exact Option.or_none

/-- The first code that a message mentions is found unless a word of the form of a code comes before
it. -/
theorem ofMessage_of_firstMention {message : String} (h : FirstMention message.toList code before) :
    ((∀ word, HasWord before word → isCodeShaped word = false) → ofMessage message = code) ∧
      ((∃ word, HasWord before word ∧ isCodeShaped word) → ofMessage message = unknown) := by
  obtain ⟨⟨after, hcode⟩, hbefore⟩ := h
  obtain ⟨first, others, hfirst, hwords⟩ := hcode.words_eq
  have hfind : (words message.toList).find? isCodeShaped =
      ((words before).find? isCodeShaped).or (some code.text.toList) := by
    rw [hwords, find?_first hfirst, List.find?_append,
      List.find?_cons_of_pos (isCodeShaped_text code)]
  constructor
  · intro hnone
    have hnot : (words before).find? isCodeShaped = none :=
      List.find?_eq_none.2 fun word hword =>
        Bool.eq_false_iff.1 (hnone word (mem_words_iff.1 hword))
    rw [hnot] at hfind
    rw [ofMessage_of_find hfind, String.ofList_toList, ofText?_text]
    rfl
  · rintro ⟨word, hword, hshape⟩
    have hsome : ((words before).find? isCodeShaped).isSome :=
      List.find?_isSome.2 ⟨word, mem_words_iff.2 hword, hshape⟩
    obtain ⟨found, hfound⟩ := Option.isSome_iff_exists.1 hsome
    rw [hfound] at hfind
    have hunknown : ofText? (.ofList found) = none := by
      refine Option.eq_none_iff_forall_ne_some.2 fun other hother => ?_
      obtain rfl := ofText?_eq_some_iff.1 hother
      exact hbefore other (mem_words_iff.1 (List.mem_of_find?_eq_some hfound))
    rw [ofMessage_of_find hfind, hunknown]
    rfl

theorem not_hasWord_of_words (h : ∀ word ∈ words text, ofText? (.ofList word) = none)
    (code : Code) :
    ¬ HasWord text code.text.toList := by
  intro hcode
  have hnone := h _ (mem_words_iff.2 hcode)
  rw [String.ofList_toList, ofText?_text] at hnone
  cases hnone

/-- If a code stands in a text, one stands there first. -/
theorem exists_firstMention (h : HasWord text code.text.toList) :
    ∃ code before, FirstMention text code before := by
  have hsome : ((words text).find? fun word => (ofText? (.ofList word)).isSome).isSome :=
    List.find?_isSome.2 ⟨_, mem_words_iff.2 h, by rw [String.ofList_toList, ofText?_text]; rfl⟩
  obtain ⟨word, hword⟩ := Option.isSome_iff_exists.1 hsome
  obtain ⟨hknown, first, others, hwords, hfirst⟩ := List.find?_eq_some_iff_append.1 hword
  obtain ⟨code, hcode⟩ := Option.isSome_iff_exists.1 hknown
  obtain rfl := ofText?_eq_some_iff.1 hcode
  obtain ⟨before, after, hisolates, hbefore⟩ := exists_isolates hwords
  refine ⟨code, before, ⟨after, hisolates⟩, not_hasWord_of_words ?_⟩
  rw [hbefore]
  refine List.forall_mem_append.2 ⟨fun word hword => ?_, List.forall_mem_singleton.2 rfl⟩
  simpa using hfirst word hword

/-- A message that mentions no code has the code of what is not known. -/
theorem ofMessage_of_not_hasWord {message : String}
    (h : ∀ code : Code, ¬ HasWord message.toList code.text.toList) :
    ofMessage message = unknown := by
  rcases hfind : (words message.toList).find? isCodeShaped with _ | word
  · rw [ofMessage, hfind]
    rfl
  · rw [ofMessage_of_find hfind, Option.getD_eq_iff]
    refine .inr ⟨?_, rfl⟩
    refine Option.eq_none_iff_forall_ne_some.2 fun code hcode => ?_
    obtain rfl := ofText?_eq_some_iff.1 hcode
    exact h code (mem_words_iff.1 (List.mem_of_find?_eq_some hfind))

/-- The text of a diagnostic starts with its code. -/
theorem firstMention_toText (d : Diagnostic) : FirstMention d.toText.toList d.code ['['] := by
  have htext : d.toText = "[" ++ d.code.text ++ "] " ++ d.message := rfl
  have hcode :
      Isolates d.toText.toList ['['] d.code.text.toList (']' :: ' ' :: d.message.toList) := {
    text_eq := by
      simp only [htext, String.toList_append, List.append_assoc]
      rfl
    word := isWordChar_of_mem_text d.code
    before := by
      rintro _ ⟨⟩
      decide
    after := by
      rintro _ ⟨⟩
      decide }
  exact ⟨⟨_, hcode⟩, not_hasWord_of_words (by decide)⟩

/-- A text has the first code that stands in it, if no other word of the form of a code comes
before, and no code if one does. Without a code in it, it has none either. So the code of a
diagnostic is found in its text. -/
theorem ofMessage_mentions (message : String) :
    (∀ code before, FirstMention message.toList code before →
      ((∀ word, HasWord before word → isCodeShaped word = false) → ofMessage message = code) ∧
      ((∃ word, HasWord before word ∧ isCodeShaped word) → ofMessage message = unknown)) ∧
    ((∀ code before, ¬ FirstMention message.toList code before) →
      (∀ code : Code, ¬ HasWord message.toList code.text.toList) ∧ ofMessage message = unknown) ∧
    ∀ d : Diagnostic, ofMessage d.toText = d.code := by
  refine ⟨fun code before => ofMessage_of_firstMention, fun h => ?_, fun d => ?_⟩
  · have hnone : ∀ code : Code, ¬ HasWord message.toList code.text.toList := by
      intro code hcode
      obtain ⟨code, before, hfirst⟩ := exists_firstMention hcode
      exact h code before hfirst
    exact ⟨hnone, ofMessage_of_not_hasWord hnone⟩
  · refine (ofMessage_of_firstMention (firstMention_toText d)).1 fun word hword => ?_
    have hmem : word ∈ [[], []] := mem_words_iff.2 hword
    rw [List.mem_pair, or_self] at hmem
    rw [hmem]
    rfl

/-- A word that has only the form of a code hides the codes after it. -/
theorem ofMessage_hides :
    ¬ ∀ (message : String) code before, FirstMention message.toList code before →
    ofMessage message = code := by
  intro h
  have hcode :
      Isolates "E_NOT_A_CODE, then E_LOOKUP".toList "E_NOT_A_CODE, then ".toList
        lookup.text.toList [] := {
    text_eq := by decide
    word := isWordChar_of_mem_text lookup
    before := by
      rintro _ ⟨⟩
      decide
    after := nofun }
  have hwords :
      words "E_NOT_A_CODE, then ".toList = ["E_NOT_A_CODE".toList, [], "then".toList, []] := by
    decide +kernel
  have hnone : ∀ word ∈ words "E_NOT_A_CODE, then ".toList, ofText? (.ofList word) = none := by
    rw [hwords]
    decide +kernel
  exact absurd (h _ _ _ ⟨⟨_, hcode⟩, not_hasWord_of_words hnone⟩) (by decide +kernel)

end TableDoc.Diagnostic.Code
