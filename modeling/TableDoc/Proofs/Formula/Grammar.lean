import TableDoc.Formula.Parser

/-!
# The grammar of formulas

The formulas in layers, the loosest first:

logic      ::= comparison (('and' | 'or') comparison)* comparison ::= sum (('==' | '!=' | '<' | '<='
| '>' | '>=') sum)? sum        ::= product (('+' | '-') product)* product    ::= unary (('*' | '/')
unary)* unary      ::= ('+' | '-') unary | suffixed suffixed   ::= primary ('.' identifier | '['
logic ']')* primary    ::= number | string | boolean | identifier | '(' logic ')' | identifier '('
[logic (',' logic)*] ')'

`Derives` says which tokens derive which formula in a layer. Repeated operators are folded to the
left. A number is derived only if its text can be read.
-/

namespace TableDoc.Formula

/-- The layers of the grammar, the loosest first. -/
inductive Layer where
  | logic
  | comparison
  | sum
  | product
  | unary
  | suffixed
  | primary
  deriving DecidableEq

/-- The next tighter layer. -/
def Layer.next : Layer → Layer
  | logic => comparison
  | comparison => sum
  | sum => product
  | product => unary
  | unary => suffixed
  | suffixed | primary => primary

/-- The layer in which an operator stands. -/
def BinaryOperator.layer : BinaryOperator → Layer
  | connective _ => .logic
  | comparison _ => .comparison
  | arithmetic .add | arithmetic .subtract => .sum
  | arithmetic .multiply | arithmetic .divide => .product

/-- The token is the operator with a symbol. -/
def Token.Spells (t : Token) (symbol : String) : Prop := t.kind = .operator ∧ t.text = symbol

/-- The tokens are the groups, with a comma between any two. -/
inductive Joined : List (List Token) → List Token → Prop
  | nil : Joined [] []
  | one : Joined [ts] ts
  | cons : comma.kind = .comma → Joined (us :: groups) rest →
    Joined (ts :: us :: groups) (ts ++ comma :: rest)

/-- The tokens derive the formula in a layer. -/
inductive Derives : Layer → List Token → Expr → Prop
  | tighter : Derives layer.next ts e → Derives layer ts e
  /-- An operator that may be repeated, after all that stands left of it in its layer. -/
  | folded {op : BinaryOperator} : op.isComparison = false → Derives op.layer ls left →
    t.Spells op.symbol → Derives op.layer.next rs right →
    Derives op.layer (ls ++ t :: rs) (.binary op left right)
  | compared {op : BinaryOperator} : op.isComparison = true → Derives op.layer.next ls left →
    t.Spells op.symbol → Derives op.layer.next rs right →
    Derives op.layer (ls ++ t :: rs) (.binary op left right)
  | signed {op : UnaryOperator} : t.Spells op.symbol → Derives .unary ts e →
    Derives .unary (t :: ts) (.unary op e)
  | member : Derives .suffixed ts base → dot.kind = .dot → field.kind = .identifier →
    Derives .suffixed (ts ++ [dot, field]) (.member base field.text)
  | lookup : Derives .suffixed ts table → opening.kind = .leftBracket → Derives .logic ks key →
    closing.kind = .rightBracket →
      Derives .suffixed (ts ++ opening :: ks ++ [closing]) (.lookup table key)
  | number : t.kind = .number → Decimal.read? t.text.toList = some x →
    Derives .primary [t] (.number x)
  | text : t.kind = .text → Derives .primary [t] (.text t.text)
  | boolean : t.kind = .boolean → Derives .primary [t] (.boolean (t.text = "true"))
  | identifier : t.kind = .identifier → Derives .primary [t] (.identifier t.text)
  | call {parts : List (List Token × Expr)} : name.kind = .identifier → opening.kind = .leftParen →
    (∀ part ∈ parts, Derives .logic part.1 part.2) → Joined (parts.map Prod.fst) ts →
    closing.kind = .rightParen →
    Derives .primary (name :: opening :: ts ++ [closing]) (.call name.text (parts.map Prod.snd))
  | parentheses : opening.kind = .leftParen → Derives .logic ts e → closing.kind = .rightParen →
    Derives .primary (opening :: ts ++ [closing]) e

/-! ## Layers and powers -/

/-- The power of the operators of a layer. What has none binds tighter than all of them. -/
def Layer.power : Layer → Nat
  | logic => 30
  | comparison => 40
  | sum => 50
  | product => 60
  | unary => UnaryOperator.power + 1
  | suffixed => UnaryOperator.power + 2
  | primary => UnaryOperator.power + 3

/-- The loosest layer whose operators bind tighter than `least`. -/
def Layer.above (least : Nat) : Layer :=
  if least < logic.power then logic
  else if least < comparison.power then comparison
  else if least < sum.power then sum
  else if least < product.power then product
  else unary

/-- The greatest power of an operator after a formula of a layer that is not one of the formula's
own. A comparison is not followed by another. -/
def Layer.follow : Layer → Nat
  | logic | comparison => logic.power
  | sum => sum.power
  | _ => product.power

theorem BinaryOperator.power_layer (op : BinaryOperator) : op.layer.power = op.power := by
  rcases op with (_ | _ | _ | _) | op | op <;> rfl

theorem BinaryOperator.power_le (op : BinaryOperator) : op.power ≤ Layer.product.power := by
  rcases op with (_ | _ | _ | _) | op | op <;> exact Nat.le_of_ble_eq_true rfl

theorem BinaryOperator.above_power (op : BinaryOperator) :
    Layer.above op.power = op.layer.next := by
  rcases op with (_ | _ | _ | _) | op | op <;> rfl

theorem BinaryOperator.isComparison_iff (op : BinaryOperator) :
    op.isComparison = true ↔ op.layer = .comparison := by
  rcases op with (_ | _ | _ | _) | op | op <;> simp [isComparison, layer]

/-! How the powers of an operator, its layer and its operands lie to each other. -/

theorem BinaryOperator.power_lt_next (op : BinaryOperator) : op.power < op.layer.next.power := by
  rcases op with (_ | _ | _ | _) | op | op <;> exact Nat.le_of_ble_eq_true rfl

theorem BinaryOperator.follow_le (op : BinaryOperator) : op.layer.follow ≤ op.power := by
  rcases op with (_ | _ | _ | _) | op | op <;> exact Nat.le_of_ble_eq_true rfl

theorem BinaryOperator.follow_le_next (op : BinaryOperator) :
    op.layer.follow ≤ op.layer.next.follow := by
  rcases op with (_ | _ | _ | _) | op | op <;> exact Nat.le_of_ble_eq_true rfl

theorem BinaryOperator.le_follow (op : BinaryOperator) (h : op.isComparison = false) :
    op.power ≤ op.layer.follow := by
  rcases op with (_ | _ | _ | _) | op | op <;> first | exact Nat.le_of_ble_eq_true rfl | cases h

theorem BinaryOperator.le_follow_next (op : BinaryOperator) : op.power ≤ op.layer.next.follow := by
  rcases op with (_ | _ | _ | _) | op | op <;> exact Nat.le_of_ble_eq_true rfl

theorem BinaryOperator.isComparison_eq_false (op : BinaryOperator)
    (h : op.power ≤ Layer.comparison.follow) : op.isComparison = false := by
  rcases op with op | op | op
  · rfl
  · exact absurd h (Nat.not_le_of_gt (Nat.le_of_ble_eq_true rfl))
  · rfl

/-- The layer above a power is the lowest of greater power. -/
theorem Layer.power_above_le {layer : Layer} {least : Nat} (h : least < layer.power) :
    (above least).power ≤ layer.power := by
  unfold above
  repeat' split
  all_goals cases layer <;> simp only [power, UnaryOperator.power] at * <;> omega

theorem Layer.power_above_le_unary (least : Nat) : (above least).power ≤ unary.power := by
  unfold above
  repeat' split
  all_goals decide

theorem Layer.sum_power_le {layer : Layer} (h : comparison.power ≤ layer.power)
    (hne : layer ≠ comparison) :
    sum.power ≤ layer.power := by
  cases layer <;> first | exact absurd rfl hne | exact absurd h (by decide) | decide

theorem BinaryOperator.symbol_of_ofSymbol? {s : String} {op : BinaryOperator}
    (h : ofSymbol? s = some op) :
    s = op.symbol := by
  unfold ofSymbol? at h
  split at h <;> cases h <;> rfl

theorem UnaryOperator.symbol_of_ofSymbol? {s : String} {op : UnaryOperator}
    (h : ofSymbol? s = some op) :
    s = op.symbol := by
  unfold ofSymbol? at h
  split at h <;> cases h <;> rfl

/-- What is derived in a layer is derived in every looser one. -/
theorem Derives.loosen {l k : Layer} (h : Derives k ts e) (hl : l.power ≤ k.power) :
    Derives l ts e := by
  have step {l : Layer} (h : Derives l.next ts e) : Derives l ts e := .tighter h
  cases k <;> cases l <;> first
    | exact absurd hl (by decide)
    | exact h
    | exact step h
    | exact step (step h)
    | exact step (step (step h))
    | exact step (step (step (step h)))
    | exact step (step (step (step (step h))))
    | exact step (step (step (step (step (step h)))))

/-! ## Tokens of formulas -/

/-- What is joined are the groups and the commas. -/
theorem Joined.mem {groups : List (List Token)} (h : Joined groups ts) :
    ∀ t ∈ ts, t.kind = .comma ∨ ∃ group ∈ groups, t ∈ group := by
  induction h with
  | nil => nofun
  | one => exact fun t ht => .inr ⟨_, List.mem_singleton_self _, ht⟩
  | cons hcomma _ ih =>
    intro t ht
    rcases List.mem_append.1 ht with ht | ht
    · exact .inr ⟨_, List.mem_cons_self, ht⟩
    rcases List.mem_cons.1 ht with rfl | ht
    · exact .inl hcomma
    · exact (ih t ht).imp_right fun ⟨group, hg, ht⟩ => ⟨group, List.mem_cons_of_mem _ hg, ht⟩

/-- No part of a formula is the end of the tokens. -/
theorem Derives.kind_ne_ending {layer : Layer} (h : Derives layer ts e) :
    ∀ t ∈ ts, t.kind ≠ .ending := by
  have of_eq {t : Token} {kind : Token.Kind} (h : t.kind = kind) (hk : kind ≠ .ending) :
      t.kind ≠ .ending := h ▸ hk
  induction h with
  | tighter _ ih => exact ih
  | folded _ _ ht _ ihl ihr | compared _ _ ht _ ihl ihr =>
    exact List.forall_mem_append.2 ⟨ihl, List.forall_mem_cons.2 ⟨of_eq ht.1 nofun, ihr⟩⟩
  | signed ht _ ih => exact List.forall_mem_cons.2 ⟨of_eq ht.1 nofun, ih⟩
  | member _ hdot hfield ih =>
    refine List.forall_mem_append.2 ⟨ih, List.forall_mem_cons.2 ⟨of_eq hdot nofun, ?_⟩⟩
    exact List.forall_mem_singleton.2 (of_eq hfield nofun)
  | lookup _ hopening _ hclosing ih ihk =>
    refine List.forall_mem_append.2 ⟨List.forall_mem_append.2 ⟨ih, ?_⟩, ?_⟩
    · exact List.forall_mem_cons.2 ⟨of_eq hopening nofun, ihk⟩
    · exact List.forall_mem_singleton.2 (of_eq hclosing nofun)
  | number ht | text ht | boolean ht | identifier ht =>
    exact List.forall_mem_singleton.2 (of_eq ht nofun)
  | call hname hopening _ hj hclosing ih =>
    refine List.forall_mem_append.2 ⟨List.forall_mem_cons.2 ⟨of_eq hname nofun,
      List.forall_mem_cons.2 ⟨of_eq hopening nofun, fun t ht => ?_⟩⟩, ?_⟩
    · rcases hj.mem t ht with hk | ⟨group, hg, ht⟩
      · exact of_eq hk nofun
      · obtain ⟨part, hp, rfl⟩ := List.mem_map.1 hg
        exact ih part hp t ht
    · exact List.forall_mem_singleton.2 (of_eq hclosing nofun)
  | parentheses hopening _ hclosing ih =>
    refine List.forall_mem_append.2 ⟨List.forall_mem_cons.2 ⟨of_eq hopening nofun, ih⟩, ?_⟩
    exact List.forall_mem_singleton.2 (of_eq hclosing nofun)

end TableDoc.Formula
