import TableDoc.Yaml.Token.Scan

/-!
# From YAML tokens to events

A document is a series of events: scalars, aliases, and the starts and ends of collections.
`readDocument` gives the events of the first document of a stream as far as they can be read, and
then why there are no more of them, or the tokens after the document. An anchor is a number here, by
which the place of its node among the events is found (`Events.target?`). It is the number of
different names so far; a name that is used again does not raise it, so that two anchors may share a
number, and then the later one counts.
-/

namespace TableDoc.Yaml

/-- Why a text is not one document; the place is not always known. -/
abbrev Fault := Option Mark

/-- A step through a document. -/
inductive Event where
  | alias (anchor : Nat)
  | scalar (tag : Option (List UInt8)) (text : List Char) (plain : Bool)
  | sequenceStart (tag : Option (List UInt8))
  | sequenceEnd
  | mappingStart (tag : Option (List UInt8))
  | mappingEnd
  deriving DecidableEq, Repr

/-- The events found so far. -/
structure Events where
  /-- Each event and its place, the last one first. -/
  found : List (Event × Mark) := []
  /-- The names of anchors and their numbers, the latest first. -/
  anchors : List (List Char × Nat) := []
  /-- The numbers of anchors and how many events precede their nodes, the latest first. -/
  targets : List (Nat × Nat) := []

namespace Events

/-- All events in order. -/
def toList (e : Events) : List (Event × Mark) := e.found.reverse

/-- How many events precede the node of an anchor. -/
def target? (e : Events) (anchor : Nat) : Option Nat := e.targets.lookup anchor

/-- Adds an event. -/
def push (e : Events) (event : Event) (mark : Mark) : Events :=
  { e with found := (event, mark) :: e.found }

/-- Notes an anchor of the next event. -/
def anchor (e : Events) (name : List Char) : Events :=
  let number := (e.anchors.map Prod.fst).eraseDups.length
  { e with
    anchors := (name, number) :: e.anchors
    targets := (number, e.found.length) :: e.targets }

end Events

/-- Reading that adds events, which stay if it fails. -/
abbrev Emit := ExceptT Fault (StateM Events)

/-- The tokens after something that was read, fewer than `bound`. -/
structure Remaining (bound : Nat) where
  tokens : List Token
  length_lt : tokens.length < bound

/-- Seen from more tokens. -/
def Remaining.weaken {m n : Nat} (r : Remaining m) (h : m ≤ n) : Remaining n :=
  ⟨r.tokens, Nat.lt_of_lt_of_le r.length_lt h⟩

/-- Anchor, tag and place of a node, and the tokens after them. -/
structure Properties (bound : Nat) where
  anchor : Option (List Char)
  /-- Handle, suffix and place of a tag. -/
  tag : Option (List Char × List UInt8 × Mark)
  tokens : List Token
  length_le : tokens.length ≤ bound

/-- The anchor and tag before a node, in any order. -/
def properties : (ts : List Token) → Properties ts.length
  | ⟨.anchor a, _⟩ :: ⟨.tag h s, m⟩ :: ts =>
    ⟨some a, some (h, s, m), ts, by simp only [List.length_cons]; omega⟩
  | ⟨.tag h s, m⟩ :: ⟨.anchor a, _⟩ :: ts =>
    ⟨some a, some (h, s, m), ts, by simp only [List.length_cons]; omega⟩
  | ⟨.anchor a, _⟩ :: ts => ⟨some a, none, ts, by simp⟩
  | ⟨.tag h s, m⟩ :: ts => ⟨none, some (h, s, m), ts, by simp⟩
  | ts => ⟨none, none, ts, by simp⟩

namespace Grammar

/-- Adds an event. -/
def emit (event : Event) (mark : Mark) : Emit Unit := modify (·.push event mark)

/-- Adds the first event of a node with its anchor. -/
def emitNode (anchor : Option (List Char)) (event : Event) (mark : Mark) : Emit Unit :=
  modify fun e => (match anchor with | some name => e.anchor name | none => e).push event mark

/-- Adds a node that is not written. -/
def emitEmpty (mark : Mark) : Emit Unit := emit (.scalar none [] true) mark

/-- Adds an alias. -/
def emitAlias (name : List Char) (mark : Mark) : Emit Unit := do
  match (← get).anchors.lookup name with
  | some anchor => emit (.alias anchor) mark
  | none => throw (some mark)

/-- The tag of a node, its handle replaced by what it stands for. -/
def resolveTag (handles : List (List Char × List UInt8)) :
    Option (List Char × List UInt8 × Mark) → Emit (Option (List UInt8))
  | none => pure none
  | some (handle, suffix, mark) =>
    if handle = [] then pure (some suffix)
    else match handles.lookup handle with
      | some start => pure (some (start ++ suffix))
      | none => throw (some mark)

section
variable (short : Fault) (handles : List (List Char × List UInt8))

mutual

/-- A node. Collections by indentation are allowed in a `block`, and one kind of sequence, which is
not indented, only after a key or colon. -/
def node (block indentless : Bool) (ts : List Token) : Emit (Remaining ts.length) :=
  match ts with
  | [] => throw short
  | first :: others =>
    match first.kind with
    | .alias name => do
      emitAlias name first.mark
      return ⟨others, by simp⟩
    | _ =>
      let p := properties (first :: others)
      match h : p.tokens with
      | [] => throw short
      | t :: rest => do
        have shorter : rest.length < (first :: others).length := by
          have := p.length_le; rw [h] at this; exact this
        let tag ← resolveTag handles p.tag
        if indentless && t.kind = .blockEntry then do
          emitNode p.anchor (.sequenceStart tag) first.mark
          let r ← indentlessItem rest
          return r.weaken shorter
        else match t.kind with
          | .scalar text plain => do
            emitNode p.anchor (.scalar tag text plain) first.mark
            return ⟨rest, shorter⟩
          | .flowSequenceStart => do
            emitNode p.anchor (.sequenceStart tag) first.mark
            let r ← flowItems true rest
            return r.weaken (Nat.le_of_lt shorter)
          | .flowMappingStart => do
            emitNode p.anchor (.mappingStart tag) first.mark
            let r ← flowPairs true rest
            return r.weaken (Nat.le_of_lt shorter)
          | kind =>
            if block && kind = .blockSequenceStart then do
              emitNode p.anchor (.sequenceStart tag) first.mark
              let r ← blockItems rest
              return r.weaken (Nat.le_of_lt shorter)
            else if block && kind = .blockMappingStart then do
              emitNode p.anchor (.mappingStart tag) first.mark
              let r ← blockPairs rest
              return r.weaken (Nat.le_of_lt shorter)
            else if hp : p.tokens.length < (first :: others).length then do
              emitNode p.anchor (.scalar tag [] true) first.mark
              return ⟨t :: rest, h ▸ hp⟩
            else throw (some t.mark)
termination_by (ts.length, 0)
decreasing_by all_goals exact .left _ _ shorter

/-- The items of a sequence by indentation. -/
def blockItems (ts : List Token) : Emit (Remaining ts.length) :=
  match ts with
  | [] => throw short
  | t :: rest =>
    match t.kind with
    | .blockEntry =>
      match rest with
      | [] => throw short
      | next :: rest => do
        if next.kind = .blockEntry ∨ next.kind = .blockEnd then do
          emitEmpty t.mark
          let r ← blockItems (next :: rest)
          return r.weaken (by simp)
        else do
          let item ← node true false (next :: rest)
          let r ← blockItems item.tokens
          return r.weaken (by have := item.length_lt; simp at this ⊢; omega)
    | .blockEnd => do
      emit .sequenceEnd t.mark
      return ⟨rest, by simp⟩
    | _ => throw (some t.mark)
termination_by (ts.length, 0)
decreasing_by
  · exact .left _ _ (by simp)
  · exact .left _ _ (by simp)
  · exact .left _ _ (by have := item.length_lt; simp at this ⊢; omega)

/-- An item of a sequence that is not indented, after its dash, and the items after it. -/
def indentlessItem (ts : List Token) : Emit (Remaining (ts.length + 1)) :=
  match ts with
  | [] => throw short
  | next :: rest => do
    if next.kind = .blockEntry ∨ next.kind = .key ∨ next.kind = .value ∨
        next.kind = .blockEnd then do
      emitEmpty next.mark
      indentlessItems (next :: rest)
    else do
      let item ← node true false (next :: rest)
      let r ← indentlessItems item.tokens
      return r.weaken (by have := item.length_lt; omega)
termination_by (ts.length, 2)
decreasing_by
  · exact .right _ (by decide)
  · exact .right _ (by decide)
  · exact .left _ _ item.length_lt

/-- The items of a sequence that is not indented. -/
def indentlessItems (ts : List Token) : Emit (Remaining (ts.length + 1)) :=
  match ts with
  | [] => throw short
  | t :: rest => do
    if t.kind = .blockEntry then do
      let r ← indentlessItem rest
      return r.weaken (by simp)
    else do
      emit .sequenceEnd t.mark
      return ⟨t :: rest, by simp⟩
termination_by (ts.length, 1)
decreasing_by exact .left _ _ (by simp)

/-- The pairs of a mapping by indentation. -/
def blockPairs (ts : List Token) : Emit (Remaining ts.length) :=
  match ts with
  | [] => throw short
  | t :: rest =>
    match t.kind with
    | .key =>
      match rest with
      | [] => throw short
      | next :: rest => do
        if next.kind = .key ∨ next.kind = .value ∨ next.kind = .blockEnd then do
          emitEmpty t.mark
          let r ← blockValue (next :: rest)
          return r.weaken (by simp)
        else do
          let key ← node true true (next :: rest)
          let r ← blockValue key.tokens
          return r.weaken (by have := key.length_lt; simp at this ⊢; omega)
    | .blockEnd => do
      emit .mappingEnd t.mark
      return ⟨rest, by simp⟩
    | _ => throw (some t.mark)
termination_by (ts.length, 0)
decreasing_by
  · exact .left _ _ (by simp)
  · exact .left _ _ (by simp)
  · exact .left _ _ (by have := key.length_lt; simp at this ⊢; omega)

/-- The value of a pair and the pairs after it. -/
def blockValue (ts : List Token) : Emit (Remaining ts.length) :=
  match ts with
  | [] => throw short
  | t :: rest =>
    if t.kind = .value then
      match rest with
      | [] => throw short
      | next :: rest => do
        if next.kind = .key ∨ next.kind = .value ∨ next.kind = .blockEnd then do
          emitEmpty t.mark
          let r ← blockPairs (next :: rest)
          return r.weaken (by simp)
        else do
          let value ← node true true (next :: rest)
          let r ← blockPairs value.tokens
          return r.weaken (by have := value.length_lt; simp at this ⊢; omega)
    else do
      emitEmpty t.mark
      blockPairs (t :: rest)
termination_by (ts.length, 1)
decreasing_by
  · exact .left _ _ (by simp)
  · exact .left _ _ (by simp)
  · exact .left _ _ (by have := value.length_lt; simp at this ⊢; omega)
  · exact .right _ (by decide)

/-- The items of a sequence in brackets, the first of them or those after a comma. -/
def flowItems (first : Bool) (ts : List Token) : Emit (Remaining ts.length) :=
  match ts with
  | [] => throw short
  | t :: rest =>
    if t.kind = .flowSequenceEnd then do
      emit .sequenceEnd t.mark
      return ⟨rest, by simp⟩
    else if first then flowItem (t :: rest)
    else if t.kind = .flowEntry then do
      let r ← flowItem rest
      return r.weaken (by simp)
    else throw (some t.mark)
termination_by (ts.length, 2)
decreasing_by
  · exact .right _ (by decide)
  · exact .left _ _ (by simp)

/-- An item of a sequence in brackets, or its end, and the items after it. A single pair is a
mapping. -/
def flowItem (ts : List Token) : Emit (Remaining ts.length) :=
  match ts with
  | [] => throw short
  | t :: rest =>
    match t.kind with
    | .flowSequenceEnd => do
      emit .sequenceEnd t.mark
      return ⟨rest, by simp⟩
    | .key => do
      emit (.mappingStart none) t.mark
      let r ← flowPairKey rest
      return r.weaken (by simp)
    | _ => do
      let item ← node false false (t :: rest)
      let r ← flowItems false item.tokens
      return r.weaken (by have := item.length_lt; omega)
termination_by (ts.length, 1)
decreasing_by
  · exact .left _ _ (by simp)
  · exact .right _ (by decide)
  · exact .left _ _ item.length_lt

/-- The key of a single pair, its value, and the items after it. A colon right after the question
mark is passed over with the missing key. -/
def flowPairKey (ts : List Token) : Emit (Remaining ts.length) :=
  match ts with
  | [] => throw short
  | t :: rest => do
    if t.kind = .value ∨ t.kind = .flowEntry ∨ t.kind = .flowSequenceEnd then do
      emitEmpty t.mark
      let r ← flowPairValue rest
      return r.weaken (by simp)
    else do
      let key ← node false false (t :: rest)
      let r ← flowPairValue key.tokens
      return r.weaken (by have := key.length_lt; omega)
termination_by (ts.length, 4)
decreasing_by
  · exact .left _ _ (by simp)
  · exact .right _ (by decide)
  · exact .left _ _ key.length_lt

/-- The value of a single pair and the items after it. -/
def flowPairValue (ts : List Token) : Emit (Remaining ts.length) :=
  match ts with
  | [] => throw short
  | t :: rest =>
    if t.kind = .value then
      match rest with
      | [] => throw short
      | next :: rest => do
        if next.kind = .flowEntry ∨ next.kind = .flowSequenceEnd then do
          emitEmpty next.mark
          emit .mappingEnd next.mark
          let r ← flowItems false (next :: rest)
          return r.weaken (by simp)
        else do
          let value ← node false false (next :: rest)
          match h : value.tokens with
          | [] => throw short
          | after :: rest' => do
            emit .mappingEnd after.mark
            let r ← flowItems false (after :: rest')
            return r.weaken (by have := value.length_lt; rw [h] at this; simp at this ⊢; omega)
    else do
      emitEmpty t.mark
      emit .mappingEnd t.mark
      flowItems false (t :: rest)
termination_by (ts.length, 3)
decreasing_by
  · exact .left _ _ (by simp)
  · exact .left _ _ (by simp)
  · exact .left _ _ (by have := value.length_lt; rw [h] at this; simp at this ⊢; omega)
  · exact .right _ (by decide)

/-- The pairs of a mapping in braces, the first of them or those after a comma. -/
def flowPairs (first : Bool) (ts : List Token) : Emit (Remaining ts.length) :=
  match ts with
  | [] => throw short
  | t :: rest =>
    if t.kind = .flowMappingEnd then do
      emit .mappingEnd t.mark
      return ⟨rest, by simp⟩
    else if first then flowPair (t :: rest)
    else if t.kind = .flowEntry then do
      let r ← flowPair rest
      return r.weaken (by simp)
    else throw (some t.mark)
termination_by (ts.length, 2)
decreasing_by
  · exact .right _ (by decide)
  · exact .left _ _ (by simp)

/-- A pair of a mapping in braces, or its end, and the pairs after it. A key may stand alone. -/
def flowPair (ts : List Token) : Emit (Remaining ts.length) :=
  match ts with
  | [] => throw short
  | t :: rest =>
    match t.kind with
    | .flowMappingEnd => do
      emit .mappingEnd t.mark
      return ⟨rest, by simp⟩
    | .key =>
      match rest with
      | [] => throw short
      | next :: rest => do
        if next.kind = .value ∨ next.kind = .flowEntry ∨ next.kind = .flowMappingEnd then do
          emitEmpty next.mark
          let r ← flowValue (next :: rest)
          return r.weaken (by simp)
        else do
          let key ← node false false (next :: rest)
          let r ← flowValue key.tokens
          return r.weaken (by have := key.length_lt; simp at this ⊢; omega)
    | _ => do
      let key ← node false false (t :: rest)
      match h : key.tokens with
      | [] => throw short
      | after :: rest' => do
        emitEmpty after.mark
        let r ← flowPairs false (after :: rest')
        return r.weaken (by have := key.length_lt; rw [h] at this; simp at this ⊢; omega)
termination_by (ts.length, 1)
decreasing_by
  · exact .left _ _ (by simp)
  · exact .left _ _ (by simp)
  · exact .left _ _ (by have := key.length_lt; simp at this ⊢; omega)
  · exact .right _ (by decide)
  · exact .left _ _ (by have := key.length_lt; rw [h] at this; exact this)

/-- The value of a pair in braces and the pairs after it. -/
def flowValue (ts : List Token) : Emit (Remaining ts.length) :=
  match ts with
  | [] => throw short
  | t :: rest =>
    if t.kind = .value then
      match rest with
      | [] => throw short
      | next :: rest => do
        if next.kind = .flowEntry ∨ next.kind = .flowMappingEnd then do
          emitEmpty next.mark
          let r ← flowPairs false (next :: rest)
          return r.weaken (by simp)
        else do
          let value ← node false false (next :: rest)
          let r ← flowPairs false value.tokens
          return r.weaken (by have := value.length_lt; simp at this ⊢; omega)
    else do
      emitEmpty t.mark
      flowPairs false (t :: rest)
termination_by (ts.length, 3)
decreasing_by
  · exact .left _ _ (by simp)
  · exact .left _ _ (by simp)
  · exact .left _ _ (by have := value.length_lt; simp at this ⊢; omega)
  · exact .right _ (by decide)

end

end

/-! ## Documents -/

/-- The handles that need no directive. -/
def standardHandles : List (List Char × List UInt8) :=
  [(['!'], ['!'.toUInt8]), (['!', '!'], "tag:yaml.org,2002:".toUTF8.data.toList)]

/-- The handles that the directives before a document define, and the tokens after these. -/
def directives (short : Fault) (versioned : Bool) (handles : List (List Char × List UInt8)) :
    List Token → Emit (List (List Char × List UInt8) × List Token)
  | [] => throw short
  | t :: ts =>
    match t.kind with
    | .versionDirective major minor =>
      if versioned || major ≠ 1 || (minor ≠ 1 && minor ≠ 2) then throw (some t.mark)
      else directives short true handles ts
    | .tagDirective handle start =>
      if handles.any (·.1 = handle) then throw (some t.mark)
      else directives short versioned ((handle, start) :: handles) ts
    | _ => pure (handles ++ standardHandles, t :: ts)

/-- The tokens after a document, past the line that may end it. -/
def documentEnd (short : Fault) : List Token → Emit (List Token)
  | [] => throw short
  | t :: ts => pure (if t.kind = .documentEnd then ts else t :: ts)

/-- A token after which a document has no content. -/
def endsContent : Token.Kind → Bool
  | .versionDirective .. | .tagDirective .. | .documentStart | .documentEnd | .streamEnd => true
  | _ => false

/-- The first document, if there is one, and the tokens after it. -/
def document (short : Fault) : List Token → Emit (Option (List Token))
  | [] => throw short
  | t :: ts =>
    match t.kind with
    | .streamEnd => pure none
    | .versionDirective .. | .tagDirective .. | .documentStart => do
      let (handles, ts) ← directives short false [] (t :: ts)
      match ts with
      | [] => throw short
      | t :: ts =>
        if t.kind ≠ .documentStart then throw (some t.mark)
        else match ts with
          | [] => throw short
          | next :: ts =>
            if endsContent next.kind then do
              emitEmpty next.mark
              return some (← documentEnd short (next :: ts))
            else do
              let r ← node short handles true false (next :: ts)
              return some (← documentEnd short r.tokens)
    | _ => do
      let r ← node short standardHandles true false (t :: ts)
      return some (← documentEnd short r.tokens)

/-- No other document follows. -/
def isAtEnd (ts : List Token) : Bool :=
  (ts.dropWhile (·.kind = .documentEnd)).head?.any (·.kind = .streamEnd)

end Grammar

/-- The events of the first document of a text, and then a fault, or whether the text ends with it;
there may be no document at all. -/
def readDocument (text : List Char) : Except Fault (Option Bool) × Events :=
  let (tokens, fault) := scan text
  let read : Emit (Option Bool) := do
    return (← Grammar.document fault tokens).map Grammar.isAtEnd
  read.run.run {}

end TableDoc.Yaml
