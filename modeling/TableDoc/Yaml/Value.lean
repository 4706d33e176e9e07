import TableDoc.Decimal.Layout

/-!
# YAML values

What a document says, apart from how it is written. `Value.same` is the equality by which a mapping
may not have two keys: the order of a mapping does not count, and all NaNs are one number.
-/

namespace TableDoc.Yaml

/-- A number of a document. -/
inductive Number where
  | integer (n : Int)
  | float (x : Float)

/-- A value of a document. -/
inductive Value where
  | null
  | boolean (b : Bool)
  | number (n : Number)
  | text (s : String)
  | sequence (items : List Value)
  | mapping (members : List (Value × Value))
  | tagged (tag : String) (value : Value)
  deriving Inhabited

namespace Number

/-- Numbers are positional from `0.00001` up to below `10 ^ 16`, and those that are not integers by
their kind have a point. -/
def layout : Decimal.Layout := ⟨some (-5, 15), true, false, .even⟩

/-- The text of a number. -/
def toText : Number → String
  | integer n => n.repr
  | float x =>
    if x.isNaN then ".nan"
    else if x.isInf then if x > 0.0 then ".inf" else "-.inf"
    else .ofList (layout.write x)

/-- Equality of numbers of one kind. -/
def same : Number → Number → Bool
  | integer m, integer n => m = n
  | float x, float y => x == y || (x.isNaN && y.isNaN)
  | _, _ => false

end Number

namespace Value

/-- A tag without the exclamation mark it may start with. -/
def tagName (tag : String) : List Char :=
  match tag.toList with
  | '!' :: c :: cs => c :: cs
  | cs => cs

mutual

/-- Equality of values. -/
def same : Value → Value → Bool
  | null, null => true
  | boolean a, boolean b => a = b
  | number m, number n => m.same n
  | text s, text t => s = t
  | sequence items, sequence items' => sameItems items items'
  | mapping members, mapping members' =>
    members.length = members'.length && sameMembers members members'
  | tagged tag value, tagged tag' value' => tagName tag = tagName tag' && same value value'
  | _, _ => false

/-- Equality of sequences, item by item. -/
def sameItems : List Value → List Value → Bool
  | [], [] => true
  | v :: vs, w :: ws => same v w && sameItems vs ws
  | _, _ => false

/-- Each member of the first list is in the second. -/
def sameMembers : List (Value × Value) → List (Value × Value) → Bool
  | [], _ => true
  | (k, v) :: members, members' =>
    members'.any (fun (k', v') => same k k' && same v v') && sameMembers members members'

end

/-- The value without its tags. -/
def untag : Value → Value
  | tagged _ value => value.untag
  | value => value

/-- The text that a value is, tags apart. -/
def text? (v : Value) : Option String :=
  match v.untag with
  | text s => some s
  | _ => none

/-- The items of a sequence, tags apart. -/
def items? (v : Value) : Option (List Value) :=
  match v.untag with
  | sequence items => some items
  | _ => none

/-- The members of a mapping, tags apart. -/
def members? (v : Value) : Option (List (Value × Value)) :=
  match v.untag with
  | mapping members => some members
  | _ => none

/-- The value is this text, without a tag. -/
def isText (s : String) : Value → Bool
  | text t => t = s
  | _ => false

/-- The value under a key that is a text. -/
def lookup? (members : List (Value × Value)) (key : String) : Option Value :=
  (members.find? fun member => member.1.isText key).map Prod.snd

end Value

end TableDoc.Yaml
