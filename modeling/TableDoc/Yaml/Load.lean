import TableDoc.Yaml.Event
import TableDoc.Yaml.Loader
import TableDoc.Yaml.Plain

/-!
# The value of a YAML text

`load` gives the value of a text that is one document. It goes through the events of the document,
and jumps to the node of an alias; the number of jumps and the depth of collections are bounded. A
mapping may not have a key twice. What is wrong with the values comes before what is wrong with the
rest of the text, since a document is understood as far as it can be read.
-/

namespace TableDoc.Yaml

/-- How deep collections may be. -/
def depthLimit : Nat := 128

namespace Reading

/-- A value and the events after it, fewer than `bound`. -/
structure Read (α : Type) (bound : Nat) where
  value : α
  rest : List (Event × Mark)
  length_lt : rest.length < bound

/-- Reading counts the jumps to the nodes of aliases. -/
abbrev Reader := StateT Nat (Except Fault)

/-- A tag of the document's own: it starts with an exclamation mark. -/
def isOwnTag (tag : List UInt8) : Bool := tag.head? = some '!'.toUInt8

/-- The tag that makes a value a tagged one: what its own tag has after the exclamation mark, or
that mark if it stands alone. A tag that is not UTF-8 makes none. -/
def ownTag? (tag : List UInt8) : Option String :=
  if isOwnTag tag then
    String.fromUTF8? (if tag.length = 1 then tag else tag.tail).toByteArray
  else none

/-- A value under its tag, if that makes it a tagged one. -/
def withTag (tag : Option (List UInt8)) (value : Value) : Value :=
  match tag.bind ownTag? with
  | none => value
  | some tag => .tagged tag value

/-- The value of a scalar; none if it is refused. Under a tag that is not the document's own, only
tags of the standard say that it is something else than a text. -/
def scalar? (tag : Option (List UInt8)) (text : List Char) (plain : Bool) : Option Value :=
  match tag.bind fun tag => standardValue? tag text with
  | some value => value
  | none =>
    if plain && tag.all isOwnTag then (plainValue? text).map (withTag tag)
    else some (withTag tag (.text (.ofList text)))

section
variable (events : Events) (short : Fault)

mutual

/-- The value of the node that starts with an event, which is not an alias, and the events after it;
`depth` more collections may be open. -/
def content (depth : Nat) (event : Event) (mark : Mark) (rest : List (Event × Mark)) :
    Reader (Read Value (rest.length + 1)) :=
  match event, depth with
  | .scalar tag text plain, _ =>
    match scalar? tag text plain with
    | some value => return ⟨value, rest, by simp⟩
    | none => throw (some mark)
  | .sequenceStart _, 0 | .mappingStart _, 0 => throw (some mark)
  | .sequenceStart tag, depth + 1 => do
    let items ← items depth rest
    return ⟨withTag tag (.sequence items.value), items.rest, Nat.lt_succ_of_lt items.length_lt⟩
  | .mappingStart tag, depth + 1 => do
    let members ← members depth mark [] rest
    return ⟨withTag tag (.mapping members.value), members.rest,
      Nat.lt_succ_of_lt members.length_lt⟩
  | _, _ => throw short
termination_by (depth, 0, 0)
decreasing_by
  · exact .left _ _ (by simp)
  · exact .left _ _ (by simp)

/-- The value of the node at the head of events, and the events after it. -/
def node (depth : Nat) (es : List (Event × Mark)) : Reader (Read Value es.length) :=
  match es with
  | [] => throw short
  | (.alias anchor, _) :: rest => do
    let jumps ← modifyGet fun jumps => (jumps + 1, jumps + 1)
    if jumps > events.found.length * 100 then throw none
    match (events.target? anchor).map events.toList.drop with
    | some ((event, mark) :: after) => do
      let value ← content depth event mark after
      return ⟨value.value, rest, by simp⟩
    | _ => throw short
  | (event, mark) :: rest => content depth event mark rest
termination_by (depth, 1, 0)
decreasing_by
  · exact .right _ (.left _ _ (by decide))
  · exact .right _ (.left _ _ (by decide))

/-- The items of a sequence and the events after it. -/
def items (depth : Nat) (es : List (Event × Mark)) : Reader (Read (List Value) es.length) :=
  match es with
  | [] => throw short
  | (.sequenceEnd, _) :: rest => return ⟨[], rest, by simp⟩
  | e :: rest => do
    let first ← node depth (e :: rest)
    let others ← items depth first.rest
    return ⟨first.value :: others.value, others.rest, Nat.lt_trans others.length_lt first.length_lt⟩
termination_by (depth, 2, es.length)
decreasing_by
  · exact .right _ (.left _ _ (by decide))
  · exact .right _ (.right _ first.length_lt)

/-- The members of the mapping that starts at `start`, those before known, and the events after it.
-/
def members (depth : Nat) (start : Mark) (before : List (Value × Value))
    (es : List (Event × Mark)) :
    Reader (Read (List (Value × Value)) es.length) :=
  match es with
  | [] => throw short
  | (.mappingEnd, _) :: rest => return ⟨before, rest, by simp⟩
  | e :: rest => do
    let key ← node depth (e :: rest)
    if before.any (·.1.same key.value) then throw (some start)
    let value ← node depth key.rest
    let all ← members depth start (before ++ [(key.value, value.value)]) value.rest
    return ⟨all.value, all.rest,
      Nat.lt_trans all.length_lt (Nat.lt_trans value.length_lt key.length_lt)⟩
termination_by (depth, 2, es.length)
decreasing_by
  · exact .right _ (.left _ _ (by decide))
  · exact .right _ (.left _ _ (by decide))
  · exact .right _ (.right _ (Nat.lt_trans value.length_lt key.length_lt))

end

end

end Reading

/-- The value of a text that is one document, or why it is not. -/
def load (text : List Char) : Except Fault Value := do
  let (outcome, events) := readDocument text
  match outcome with
  | .ok none => return .null
  | outcome => do
    let short := match outcome with
      | .error fault => fault
      | .ok _ => none
    let read ← (Reading.node events short depthLimit events.toList).run' 0
    match outcome with
    | .ok (some true) => return read.value
    | _ => throw short

/-- Texts are read by `load`, which says where something is wrong, but not what. -/
instance : Loader where
  load text := (load text).mapError fun place =>
    ⟨none, place.map fun mark => ⟨mark.line + 1, mark.column + 1⟩⟩

end TableDoc.Yaml
