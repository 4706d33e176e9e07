import TableDoc.Proofs.Formula.Grammar
import TableDoc.Proofs.Formula.ParserSteps
import TableDoc.Proofs.Sequence

/-!
# Parsing

The parser accepts just the tokens that the grammar derives (`parseTokens_eq_ok_iff`). That it reads
all that is derived is shown along the derivation, for whatever tokens may follow in each layer
(`Reads`, `reads_of_derives`). That all it reads is derived is shown for more and more tokens
(`Accepts`, `accepts`): between two operators, what has been read so far is of the layer of the last
operator, and no operator that binds tighter follows (`Accepts.operators`).
-/

namespace TableDoc.Formula

namespace Parser

/-! ## What is derived is parsed -/

section
variable {ending : Token} {least bound : Nat} {t : Token} {ts ls rs ks rest : List Token}
  {e left right key : Expr}

theorem binaryOperator?_of_spells {op : BinaryOperator} (h : t.Spells op.symbol) :
    binaryOperator? t = some op := by
  rw [binaryOperator?, if_pos h.1, h.2, BinaryOperator.ofSymbol?_symbol]

/-- Nothing follows that would be read on with operators of a power up to `bound`. -/
def Stops (bound : Nat) (ts : List Token) : Prop :=
  ∀ t ∈ ts.head?, (t.kind ≠ .dot ∧ t.kind ≠ .leftBracket ∧ t.kind ≠ .leftParen) ∧
    ∀ op, binaryOperator? t = some op → op.power ≤ bound

theorem Stops.mono {k : Nat} (h : Stops bound ts) (hk : bound ≤ k) : Stops k ts :=
  fun t ht => ⟨(h t ht).1, fun op hop => Nat.le_trans ((h t ht).2 op hop) hk⟩

theorem stops_of_spells {op : BinaryOperator} (h : t.Spells op.symbol) (hop : op.power ≤ bound) :
    Stops bound (t :: rest) := by
  rintro _ ⟨⟩
  refine ⟨by rw [h.1]; decide, fun op' hop' => ?_⟩
  rw [binaryOperator?_of_spells h] at hop'
  cases hop'
  exact hop

theorem stops_of_kind {kind : Token.Kind} (h : t.kind = kind)
    (hk : kind = .rightParen ∨ kind = .rightBracket ∨ kind = .comma ∨ kind = .ending) :
    Stops bound (t :: rest) := by
  rintro _ ⟨⟩
  subst h
  refine ⟨?_, fun op hop => ?_⟩
  · rcases hk with hk | hk | hk | hk <;> rw [hk] <;> decide
  · rw [binaryOperator?, if_neg (by rcases hk with hk | hk | hk | hk <;> rw [hk] <;> decide)] at hop
    cases hop

theorem outcome_operators_of_stops {left : Expr} {compares : Bool} (h : Stops least ts) :
    outcome (operators ending least left compares ts) = .ok (left, ts) := by
  cases ts with
  | nil => rw [operators]; rfl
  | cons t rest =>
    cases hop : binaryOperator? t with
    | none => exact outcome_operators_of_none hop
    | some op => exact outcome_operators_of_le hop ((h t rfl).2 op hop)

/-- The parser reads the formula from the tokens, whatever may follow. -/
def Reads (ending : Token) (layer : Layer) (ts : List Token) (e : Expr) : Prop :=
  match layer with
  | .suffixed | .primary => ∀ rest : List Token, (∀ t ∈ rest.head?, t.kind ≠ .leftParen) →
    outcome (operand ending (ts ++ rest)) = outcome (suffixes ending e rest)
  | layer => ∀ least rest, least < layer.power → Stops layer.follow rest →
    outcome (expression ending least (ts ++ rest)) = outcome (operators ending least e false rest)

/-- A whole formula is read up to what ends it. -/
theorem Reads.logic (h : Reads ending .logic ts e) (hs : Stops 0 rest) :
    outcome (expression ending 0 (ts ++ rest)) = .ok (e, rest) := by
  rw [h 0 rest (by decide) (hs.mono (Nat.zero_le _)), outcome_operators_of_stops hs]

/-- What is read in a tighter layer is read in a looser one. -/
theorem Reads.tighter {layer : Layer} (h : Reads ending layer.next ts e) :
    Reads ending layer ts e := by
  cases layer with
  | logic | comparison | sum | product =>
    exact fun least rest hl hs => h least rest (Nat.lt_trans hl (by decide)) (hs.mono (by decide))
  | unary =>
    rintro least rest - hs
    rw [outcome_expression, h rest fun t ht => (hs t ht).1.2.2,
      outcome_suffixes e fun t ht => (hs t ht).1]
    rfl
  | suffixed | primary => exact h

theorem reads_layer {op : BinaryOperator} : Reads ending op.layer ts e ↔
    ∀ least rest, least < op.power → Stops op.layer.follow rest →
      outcome (expression ending least (ts ++ rest)) =
        outcome (operators ending least e false rest) := by
  rcases op with (_ | _ | _ | _) | op | op <;> rfl

theorem reads_next {op : BinaryOperator} : Reads ending op.layer.next ts e ↔
    ∀ least rest, least < op.layer.next.power → Stops op.layer.next.follow rest →
      outcome (expression ending least (ts ++ rest)) =
        outcome (operators ending least e false rest) := by
  rcases op with (_ | _ | _ | _) | op | op <;> rfl

/-- The right operand of an operator is read up to what may follow it. -/
theorem Reads.outcome_right {op : BinaryOperator} (h : Reads ending op.layer.next ts e)
    (hs : Stops op.layer.follow rest) :
    outcome (expression ending op.power (ts ++ rest)) = .ok (e, rest) := by
  rw [reads_next.1 h op.power rest op.power_lt_next (hs.mono op.follow_le_next),
    outcome_operators_of_stops (hs.mono op.follow_le)]

/-- Operators of one layer are read from left to right. -/
theorem Reads.folded {op : BinaryOperator} (hop : op.isComparison = false)
    (hl : Reads ending op.layer ls left) (ht : t.Spells op.symbol)
    (hr : Reads ending op.layer.next rs right) :
    Reads ending op.layer (ls ++ t :: rs) (.binary op left right) := by
  refine reads_layer.2 fun least rest hleast hs => ?_
  have hstops : Stops op.layer.follow (t :: (rs ++ rest)) := stops_of_spells ht (op.le_follow hop)
  rw [List.append_assoc, List.cons_append, reads_layer.1 hl least _ hleast hstops,
    outcome_operators_of_lt (binaryOperator?_of_spells ht) hleast, hop, hr.outcome_right hs]
  rfl

/-- Where no comparison follows, it does not matter whether one went before. -/
theorem outcome_operators_congr (h : Stops Layer.comparison.follow rest) (compares : Bool) :
    outcome (operators ending least e compares rest) =
      outcome (operators ending least e false rest) := by
  cases rest with
  | nil => rw [operators, operators]
  | cons t rest =>
    cases hop : binaryOperator? t with
    | none => rw [outcome_operators_of_none hop, outcome_operators_of_none hop]
    | some op =>
      have hc : op.isComparison = false := op.isComparison_eq_false ((h t rfl).2 op hop)
      rcases Nat.lt_or_ge least op.power with hp | hp
      · rw [outcome_operators_of_lt hop hp, outcome_operators_of_lt hop hp, hc]
        rfl
      · rw [outcome_operators_of_le hop hp, outcome_operators_of_le hop hp]

/-- A comparison is read between two sides without comparisons. -/
theorem Reads.compared {op : BinaryOperator} (hop : op.isComparison = true)
    (hl : Reads ending op.layer.next ls left) (ht : t.Spells op.symbol)
    (hr : Reads ending op.layer.next rs right) :
    Reads ending op.layer (ls ++ t :: rs) (.binary op left right) := by
  refine reads_layer.2 fun least rest hleast hs => ?_
  have hstops : Stops op.layer.next.follow (t :: (rs ++ rest)) :=
    stops_of_spells ht (op.le_follow_next)
  rw [List.append_assoc, List.cons_append,
    reads_next.1 hl least _ (Nat.lt_trans hleast op.power_lt_next) hstops,
    outcome_operators_of_lt (binaryOperator?_of_spells ht) hleast, Bool.and_false,
    hr.outcome_right hs]
  rw [op.isComparison_iff.1 hop] at hs
  exact outcome_operators_congr hs _

/-- A sign is read with what it applies to. -/
theorem Reads.signed {op : UnaryOperator} (ht : t.Spells op.symbol) (h : Reads ending .unary ts e) :
    Reads ending .unary (t :: ts) (.unary op e) := by
  intro least rest _ hs
  have hin : outcome (expression ending UnaryOperator.power (ts ++ rest)) = .ok (e, rest) := by
    rw [h _ rest (by decide) hs, outcome_operators_of_stops (hs.mono (by decide))]
  rw [outcome_expression, List.cons_append, outcome_operand_of_operator ht.1, ht.2,
    UnaryOperator.ofSymbol?_symbol]
  simp only [hin]
  rfl

theorem Reads.member {dot field : Token} (h : Reads ending .suffixed ts e) (hdot : dot.kind = .dot)
    (hfield : field.kind = .identifier) :
    Reads ending .suffixed (ts ++ [dot, field]) (.member e field.text) := by
  intro rest _
  rw [List.append_assoc, List.cons_append, List.cons_append, List.nil_append, h]
  · rw [outcome_suffixes_of_dot e hdot, outcome_expect .field hfield]
    rfl
  · rintro _ ⟨⟩
    rw [hdot]
    decide

/-- A key in brackets is read as a lookup. -/
theorem Reads.lookup {opening closing : Token} (h : Reads ending .suffixed ts e)
    (hopening : opening.kind = .leftBracket) (hkey : Reads ending .logic ks key)
    (hclosing : closing.kind = .rightBracket) :
    Reads ending .suffixed (ts ++ opening :: ks ++ [closing]) (.lookup e key) := by
  intro rest _
  have hin : outcome (expression ending 0 (ks ++ closing :: rest)) = .ok (key, closing :: rest) :=
    hkey.logic (stops_of_kind hclosing (.inr (.inl rfl)))
  rw [List.append_assoc, List.append_assoc, List.cons_append, List.cons_append, List.nil_append, h]
  · rw [outcome_suffixes_of_leftBracket e hopening, hin]
    change outcome (expect ending .closingBracket .rightBracket (closing :: rest)) >>= _ = _
    rw [outcome_expect _ hclosing]
    rfl
  · rintro _ ⟨⟩
    rw [hopening]
    decide

theorem Reads.parentheses {opening closing : Token} (hopening : opening.kind = .leftParen)
    (h : Reads ending .logic ts e) (hclosing : closing.kind = .rightParen) :
    Reads ending .primary (opening :: ts ++ [closing]) e := by
  intro rest _
  have hin : outcome (expression ending 0 (ts ++ closing :: rest)) = .ok (e, closing :: rest) :=
    h.logic (stops_of_kind hclosing (.inl rfl))
  rw [List.append_assoc, List.cons_append, List.cons_append, List.nil_append,
    outcome_operand_of_leftParen hopening, hin]
  change outcome (expect ending .closing .rightParen (closing :: rest)) >>= _ = _
  rw [outcome_expect _ hclosing]
  rfl

/-- One argument after another is read up to the closing parenthesis. -/
theorem listing_of_joined {parts : List (List Token × Expr)} {closing : Token}
    (hparts : ∀ part ∈ parts, Reads ending .logic part.1 part.2)
    (h : Joined (parts.map Prod.fst) ts) (hne : parts ≠ [])
    (hclosing : closing.kind = .rightParen) :
    listing ending (ts ++ closing :: rest) = .ok (parts.map Prod.snd, closing :: rest) := by
  induction parts generalizing ts with
  | nil => exact absurd rfl hne
  | cons part parts ih =>
    have hfirst := hparts part List.mem_cons_self
    cases parts with
    | nil =>
      cases h
      rw [listing, hfirst.logic (stops_of_kind hclosing (.inl rfl))]
      change outcome (furtherArguments ending (closing :: rest)) >>= _ = _
      rw [outcome_furtherArguments (by rintro _ ⟨⟩; rw [hclosing]; decide)]
      rfl
    | cons next parts =>
      cases h with
      | cons hcomma h =>
        rw [listing, List.append_assoc, List.cons_append,
          hfirst.logic (stops_of_kind hcomma (.inr (.inr (.inl rfl))))]
        change outcome (furtherArguments ending (_ :: _)) >>= _ = _
        rw [outcome_furtherArguments_of_comma hcomma,
          ih (fun part hp => hparts part (List.mem_cons_of_mem _ hp)) h nofun]
        rfl

theorem current_of_listing {found : List Expr × List Token} (h : listing ending ts = .ok found) :
    (current ending ts).kind ≠ .rightParen := by
  intro hk
  have hfail : ∃ error, outcome (operand ending ts) = .error error := by
    cases ts with
    | nil => exact ⟨_, outcome_operand_nil⟩
    | cons t rest => exact ⟨_, outcome_operand_of_unexpected (hk ▸ List.mem_cons_self)⟩
  obtain ⟨error, herror⟩ := hfail
  rw [listing, outcome_expression, herror] at h
  cases h

/-- A name with arguments in parentheses is read as a call. -/
theorem Reads.call {parts : List (List Token × Expr)} {name opening closing : Token}
    (hname : name.kind = .identifier) (hopening : opening.kind = .leftParen)
    (hparts : ∀ part ∈ parts, Reads ending .logic part.1 part.2)
    (h : Joined (parts.map Prod.fst) ts) (hclosing : closing.kind = .rightParen) :
    Reads ending .primary (name :: opening :: ts ++ [closing])
      (.call name.text (parts.map Prod.snd)) := by
  intro rest _
  have hin : outcome (arguments ending (ts ++ closing :: rest)) =
      .ok (parts.map Prod.snd, closing :: rest) := by
    cases parts with
    | nil =>
      cases h
      exact outcome_arguments_of_rightParen hclosing
    | cons part parts =>
      have hlist : listing ending (ts ++ closing :: rest) = _ :=
        listing_of_joined hparts h nofun hclosing
      rw [outcome_arguments (current_of_listing hlist), hlist]
  rw [List.append_assoc, List.cons_append, List.cons_append, List.cons_append, List.nil_append,
    outcome_operand_of_call hname hopening, hin]
  change outcome (expect ending .closingArguments .rightParen (closing :: rest)) >>= _ = _
  rw [outcome_expect _ hclosing]
  rfl

theorem reads_of_derives {layer : Layer} (h : Derives layer ts e) : Reads ending layer ts e := by
  induction h with
  | tighter _ ih => exact ih.tighter
  | folded hop _ ht _ ihl ihr => exact .folded hop ihl ht ihr
  | compared hop _ ht _ ihl ihr => exact .compared hop ihl ht ihr
  | signed ht _ ih => exact .signed ht ih
  | member _ hdot hfield ih => exact ih.member hdot hfield
  | lookup _ hopening _ hclosing ih ihk => exact ih.lookup hopening ihk hclosing
  | number ht hx =>
    intro rest _
    rw [List.singleton_append, outcome_operand_of_number ht, hx]
  | text ht => exact fun rest _ => outcome_operand_of_text ht
  | boolean ht => exact fun rest _ => outcome_operand_of_boolean ht
  | identifier ht => exact fun rest hrest => outcome_operand_of_identifier ht hrest
  | call hname hopening _ hj hclosing ih => exact .call hname hopening ih hj hclosing
  | parentheses hopening _ hclosing ih => exact .parentheses hopening ih hclosing

end

/-! ## What is parsed is derived -/

/-- A token is a binary operator only if it spells its symbol. -/
theorem spells_of_binaryOperator? {op : BinaryOperator} (h : binaryOperator? t = some op) :
    t.Spells op.symbol := by
  rw [binaryOperator?] at h
  split at h
  · next hk => exact ⟨hk, BinaryOperator.symbol_of_ofSymbol? h⟩
  · cases h

/-- No operator follows that binds tighter than `bound`. -/
def Ends (bound : Nat) (ts : List Token) : Prop :=
  ∀ t ∈ ts.head?, ∀ op, binaryOperator? t = some op → op.power ≤ bound

/-- From less than `n` tokens the parser reads only what the grammar derives. -/
def Accepts (ending : Token) (n : Nat) : Prop :=
  ∀ {ts : List Token} {least e rest}, ts.length < n →
    outcome (expression ending least ts) = .ok (e, rest) →
    ∃ us, ts = us ++ rest ∧ Derives (.above least) us e ∧ Ends least rest

namespace Accepts

variable {ending : Token} {n least : Nat} {ts us rest : List Token} {e base left : Expr}
  {es : List Expr} (h : Accepts ending n)
include h

/-- Suffixes that are read are derived. -/
theorem suffixes (hlen : ts.length ≤ n) (hbase : Derives .suffixed us base)
    (hs : outcome (suffixes ending base ts) = .ok (e, rest)) :
    ∃ vs, us ++ ts = vs ++ rest ∧ Derives .suffixed vs e := by
  induction hk : ts.length using Nat.strongRecOn generalizing ts us base with
  | ind k ih =>
    subst hk
    cases ts with
    | nil =>
      rw [outcome_suffixes base (by simp)] at hs
      cases hs
      exact ⟨us, rfl, hbase⟩
    | cons t ts =>
      simp only [List.length_cons] at hlen ih
      by_cases hdot : t.kind = .dot
      · rw [outcome_suffixes_of_dot base hdot] at hs
        obtain ⟨⟨field, ts'⟩, hf, hs'⟩ := bind_eq_ok_iff.1 hs
        obtain ⟨rfl, hfield⟩ := of_outcome_expect hf
        simp only [List.length_cons] at hlen ih
        obtain ⟨vs, hvs, hd⟩ :=
          ih ts'.length (by omega) (by omega) (hbase.member hdot hfield) hs' rfl
        exact ⟨vs, by rw [← hvs, List.append_assoc]; rfl, hd⟩
      by_cases hbracket : t.kind = .leftBracket
      · rw [outcome_suffixes_of_leftBracket base hbracket] at hs
        obtain ⟨⟨key, ts'⟩, hk, hs'⟩ := bind_eq_ok_iff.1 hs
        obtain ⟨⟨closing, ts''⟩, hc, hs''⟩ := bind_eq_ok_iff.1 hs'
        obtain ⟨ks, rfl, hkey, -⟩ := h hlen hk
        obtain ⟨rfl, hclosing⟩ := of_outcome_expect hc
        simp only [List.length_append, List.length_cons] at hlen ih
        obtain ⟨vs, hvs, hd⟩ := ih ts''.length (by omega) (by omega)
          (hbase.lookup hbracket hkey hclosing) hs'' rfl
        exact ⟨vs, by rw [← hvs]; simp, hd⟩
      by_cases hparen : t.kind = .leftParen
      · rw [outcome_suffixes_of_leftParen base hparen] at hs
        cases hs
      rw [outcome_suffixes base (by rintro _ ⟨⟩; exact ⟨hdot, hbracket, hparen⟩)] at hs
      cases hs
      exact ⟨us, rfl, hbase⟩

/-- A list of arguments that is read is derived, part by part. -/
theorem listing (hlen : ts.length < n) (hl : listing ending ts = .ok (es, rest)) :
    ∃ parts us, ts = us ++ rest ∧ (∀ part ∈ parts, Derives .logic part.1 part.2) ∧
      Joined (parts.map Prod.fst) us ∧ parts.map Prod.snd = es ∧ parts ≠ [] := by
  induction hk : ts.length using Nat.strongRecOn generalizing ts es with
  | ind k ih =>
    subst hk
    obtain ⟨⟨first, ts'⟩, hf, hl'⟩ := bind_eq_ok_iff.1 hl
    obtain ⟨⟨others, ts''⟩, ho, hl''⟩ := bind_eq_ok_iff.1 hl'
    cases hl''
    obtain ⟨us, rfl, hfirst, -⟩ := h hlen hf
    by_cases hcomma : ∃ comma ts, ts' = comma :: ts ∧ comma.kind = .comma
    · obtain ⟨comma, ts, rfl, hcomma⟩ := hcomma
      simp only [List.length_append, List.length_cons] at hlen ih
      obtain ⟨parts, vs, rfl, hparts, hj, rfl, hne⟩ := ih ts.length (by omega) (by omega)
        (outcome_furtherArguments_of_comma hcomma ▸ ho) rfl
      refine ⟨(us, first) :: parts, us ++ comma :: vs, by simp, ?_, ?_, rfl, nofun⟩
      · rintro part (_ | ⟨_, hp⟩)
        · exact hfirst
        · exact hparts part hp
      · obtain ⟨part, parts, rfl⟩ := List.exists_cons_of_ne_nil hne
        exact .cons hcomma hj
    · rw [outcome_furtherArguments] at ho
      · cases ho
        refine ⟨[(us, first)], us, rfl, fun part hp => ?_, .one, rfl, nofun⟩
        rw [List.mem_singleton.1 hp]
        exact hfirst
      · intro t ht hk
        cases ts' with
        | nil => cases ht
        | cons _ ts =>
          cases ht
          exact hcomma ⟨t, ts, rfl, hk⟩

theorem arguments (hlen : ts.length < n) (ha : outcome (arguments ending ts) = .ok (es, rest)) :
    ∃ (parts : List (List Token × Expr)) (us : List Token), ts = us ++ rest ∧
      (∀ part ∈ parts, Derives .logic part.1 part.2) ∧
      Joined (parts.map Prod.fst) us ∧ parts.map Prod.snd = es := by
  by_cases hk : (current ending ts).kind = .rightParen
  · rw [Parser.arguments, if_pos hk] at ha
    cases ha
    exact ⟨[], [], rfl, List.forall_mem_nil _, .nil, rfl⟩
  · rw [outcome_arguments hk] at ha
    obtain ⟨parts, us, hts, hparts, hj, hes, -⟩ := h.listing hlen ha
    exact ⟨parts, us, hts, hparts, hj, hes⟩

/-- A primary that has been read, with what follows it. -/
theorem primary (hlen : ts.length ≤ n) (hbase : Derives .primary us base)
    (hs : outcome (Parser.suffixes ending base ts) = .ok (e, rest)) :
    ∃ vs, us ++ ts = vs ++ rest ∧ Derives .unary vs e := by
  obtain ⟨vs, hvs, hd⟩ := h.suffixes hlen (.tighter hbase) hs
  exact ⟨vs, hvs, .tighter hd⟩

/-- An operand that is read is derived. -/
theorem operand (hlen : ts.length ≤ n) (ho : outcome (operand ending ts) = .ok (e, rest)) :
    ∃ us, ts = us ++ rest ∧ Derives .unary us e := by
  cases ts with
  | nil =>
    rw [outcome_operand_nil] at ho
    cases ho
  | cons t ts =>
    rw [List.length_cons] at hlen
    cases hk : t.kind with
    | number =>
      rw [outcome_operand_of_number hk] at ho
      cases hx : Decimal.read? t.text.toList with
      | none => rw [hx] at ho; cases ho
      | some x =>
        rw [hx] at ho
        exact h.primary (Nat.le_of_lt hlen) (.number hk hx) ho
    | text =>
      rw [outcome_operand_of_text hk] at ho
      exact h.primary (Nat.le_of_lt hlen) (.text hk) ho
    | boolean =>
      rw [outcome_operand_of_boolean hk] at ho
      exact h.primary (Nat.le_of_lt hlen) (.boolean hk) ho
    | identifier =>
      by_cases hparen : ∃ opening rest, ts = opening :: rest ∧ opening.kind = .leftParen
      · obtain ⟨opening, ts, rfl, hopening⟩ := hparen
        rw [outcome_operand_of_call hk hopening] at ho
        obtain ⟨⟨es, ts'⟩, ha, ho'⟩ := bind_eq_ok_iff.1 ho
        obtain ⟨⟨closing, ts''⟩, hc, ho''⟩ := bind_eq_ok_iff.1 ho'
        rw [List.length_cons] at hlen
        obtain ⟨parts, us, rfl, hparts, hj, rfl⟩ := h.arguments (by omega) ha
        obtain ⟨rfl, hclosing⟩ := of_outcome_expect hc
        rw [List.length_append, List.length_cons] at hlen
        obtain ⟨vs, hvs, hd⟩ := h.primary (by omega) (.call hk hopening hparts hj hclosing) ho''
        exact ⟨vs, by rw [← hvs]; simp, hd⟩
      · rw [outcome_operand_of_identifier hk] at ho
        · exact h.primary (Nat.le_of_lt hlen) (.identifier hk) ho
        · intro next hnext hk
          cases ts with
          | nil => cases hnext
          | cons _ ts =>
            cases hnext
            exact hparen ⟨next, ts, rfl, hk⟩
    | leftParen =>
      rw [outcome_operand_of_leftParen hk] at ho
      obtain ⟨⟨inner, ts'⟩, hi, ho'⟩ := bind_eq_ok_iff.1 ho
      obtain ⟨⟨closing, ts''⟩, hc, ho''⟩ := bind_eq_ok_iff.1 ho'
      obtain ⟨us, rfl, hinner, -⟩ := h hlen hi
      obtain ⟨rfl, hclosing⟩ := of_outcome_expect hc
      rw [List.length_append, List.length_cons] at hlen
      obtain ⟨vs, hvs, hd⟩ := h.primary (by omega) (.parentheses hk hinner hclosing) ho''
      exact ⟨vs, by rw [← hvs]; simp, hd⟩
    | operator =>
      rw [outcome_operand_of_operator hk] at ho
      cases hop : UnaryOperator.ofSymbol? t.text with
      | none => rw [hop] at ho; cases ho
      | some op =>
        rw [hop] at ho
        obtain ⟨⟨inner, ts'⟩, hi, ho'⟩ := bind_eq_ok_iff.1 ho
        cases ho'
        obtain ⟨us, rfl, hinner, -⟩ := h hlen hi
        exact ⟨t :: us, rfl, .signed ⟨hk, UnaryOperator.symbol_of_ofSymbol? hop⟩ hinner⟩
    | rightParen | comma | dot | leftBracket | rightBracket | ending =>
      rw [outcome_operand_of_unexpected (by rw [hk]; decide)] at ho
      cases ho

/-- Operators are read as long as they bind tighter than `least`. What has been read is of the layer
of the last operator, and what follows does not bind tighter than that one, since its right operand
has been read to the end. -/
theorem operators {compares : Bool} {layer : Layer} (hlen : ts.length ≤ n)
    (hleft : Derives layer us left) (hlayer : (Layer.above least).power ≤ layer.power)
    (hends : Ends layer.power ts)
    (hcompares : compares = true ↔ layer = .comparison)
    (ho : outcome (operators ending least left compares ts) = .ok (e, rest)) :
    ∃ vs, us ++ ts = vs ++ rest ∧ Derives (.above least) vs e ∧ Ends least rest := by
  induction hk : ts.length using Nat.strongRecOn generalizing ts us left compares layer with
  | ind k ih =>
    subst hk
    have hdone := hleft.loosen hlayer
    cases ts with
    | nil =>
      rw [Parser.operators] at ho
      cases ho
      exact ⟨us, rfl, hdone, by simp [Ends]⟩
    | cons t ts =>
      cases hop : binaryOperator? t with
      | none =>
        rw [outcome_operators_of_none hop] at ho
        cases ho
        refine ⟨us, rfl, hdone, ?_⟩
        rintro _ ⟨⟩ op hop'
        rw [hop] at hop'
        cases hop'
      | some op =>
        rcases Nat.lt_or_ge least op.power with hp | hp
        · rw [outcome_operators_of_lt hop hp] at ho
          split at ho
          · cases ho
          next hchain =>
          obtain ⟨⟨right, ts'⟩, hr, ho'⟩ := bind_eq_ok_iff.1 ho
          rw [List.length_cons] at hlen ih
          obtain ⟨rs, rfl, hright, hends'⟩ := h hlen hr
          rw [op.above_power] at hright
          rw [List.length_append] at hlen ih
          have hle : op.layer.power ≤ layer.power := op.power_layer ▸ hends t rfl op hop
          have ht := spells_of_binaryOperator? hop
          have hwhole : Derives op.layer (us ++ t :: rs) (.binary op left right) := by
            cases hc : op.isComparison with
            | false => exact .folded hc (hleft.loosen hle) ht hright
            | true =>
              have hne : layer ≠ .comparison := fun hl => hchain (by rw [hc, hcompares.2 hl]; rfl)
              refine .compared hc (hleft.loosen ?_) ht hright
              rw [op.isComparison_iff.1 hc] at hle ⊢
              exact Layer.sum_power_le hle hne
          obtain ⟨vs, hvs, hd, hrest⟩ := ih ts'.length (by omega) (by omega) hwhole
            (Layer.power_above_le (op.power_layer ▸ hp))
              (op.power_layer ▸ hends') op.isComparison_iff ho' rfl
          exact ⟨vs, by rw [← hvs]; simp, hd, hrest⟩
        · rw [outcome_operators_of_le hop hp] at ho
          cases ho
          refine ⟨us, rfl, hdone, ?_⟩
          rintro _ ⟨⟩ op' hop'
          rw [hop] at hop'
          cases hop'
          exact hp

end Accepts

/-- Whatever is read of few enough tokens is derived. -/
theorem accepts (ending : Token) (n : Nat) : Accepts ending n := by
  induction n with
  | zero => nofun
  | succ n ih =>
    intro ts least e rest hlen he
    rw [outcome_expression] at he
    obtain ⟨⟨left, ts'⟩, hl, ho⟩ := bind_eq_ok_iff.1 he
    obtain ⟨us, rfl, hleft⟩ := ih.operand (Nat.le_of_lt_succ hlen) hl
    rw [List.length_append] at hlen
    exact ih.operators (by omega) hleft (Layer.power_above_le_unary least)
      (fun t _ op _ => Nat.le_trans op.power_le (by decide)) (by simp) ho

end Parser

/-! ## Whole formulas -/

open Formula.Parser

/-- The parser accepts just what the grammar derives, and with the formula that it derives. -/
theorem parseTokens_eq_ok_iff (ts : List Token) (eof : Token) (hts : ∀ t ∈ ts, t.kind ≠ .ending)
    (heof : eof.kind = .ending) (e : Expr) :
    parseTokens (ts ++ [eof]) = .ok e ↔ Derives .logic ts e := by
  have hparse : ∀ ending, ending = Token.ending ((ts ++ [eof]).getLast?.elim 0 Token.stop) →
      parseTokens (ts ++ [eof]) = outcome (expression ending 0 (ts ++ [eof])) >>= fun whole =>
        if (current ending whole.2).kind = .ending then .ok whole.1
        else .error (.parse (current ending whole.2) .trailing) := by
    rintro _ rfl
    rw [parseTokens]
    cases expression _ 0 (ts ++ [eof]) <;> rfl
  rw [hparse _ rfl]
  constructor
  · intro h
    obtain ⟨⟨whole, rest⟩, he, h⟩ := bind_eq_ok_iff.1 h
    obtain ⟨us, hus, hd, -⟩ := accepts _ _ (Nat.lt_succ_self _) he
    replace h : (if (current _ rest).kind = .ending then .ok whole else .error _) = Except.ok e := h
    split at h
    · next hk =>
      cases h
      have hend := hd.kind_ne_ending
      -- what is left begins with the only token that ends the others
      rcases List.append_eq_append_iff.1 hus with ⟨vs, rfl, hvs⟩ | ⟨vs, rfl, rfl⟩
      · rcases List.singleton_eq_append_iff.1 hvs with ⟨rfl, -⟩ | ⟨rfl, -⟩
        · rwa [List.append_nil] at hd
        · exact absurd heof (hend eof (by simp))
      · cases vs with
        | nil => rwa [List.append_nil]
        | cons t vs => exact absurd hk (hts t (by simp))
    · cases h
  · intro h
    have hs : Stops 0 [eof] := stops_of_kind heof (.inr (.inr (.inr rfl)))
    rw [(reads_of_derives h).logic hs]
    exact if_pos heof

theorem parseTokens_comparison_and :
    let a : Token := ⟨.identifier, "a", 0, 1⟩
    let b : Token := ⟨.identifier, "b", 5, 6⟩
    let equal : Token := ⟨.operator, "==", 2, 4⟩
    let both : Token := ⟨.operator, "and", 7, 10⟩
    (∀ t ∈ [a, equal, b, both, a], t.kind ≠ .ending) ∧
    parseTokens ([a, equal, b, both, a] ++ [Token.ending 12]) =
      .ok (.binary (.connective .and)
        (.binary (.comparison .equal) (.identifier "a") (.identifier "b")) (.identifier "a")) := by
  intro a b equal both
  have hts : ∀ t ∈ [a, equal, b, both, a], t.kind ≠ .ending := by decide
  have hname {t : Token} {layer : Layer} (ht : t.kind = .identifier) :
      Derives layer [t] (.identifier t.text) :=
    (Derives.identifier ht).loosen (by cases layer <;> decide)
  have hequal : Derives (BinaryOperator.comparison .equal).layer ([a] ++ equal :: [b]) _ :=
    .compared rfl (hname rfl) ⟨rfl, rfl⟩ (hname rfl)
  have hboth : Derives (BinaryOperator.connective .and).layer ([a, equal, b] ++ both :: [a]) _ :=
    .folded rfl (.tighter hequal) ⟨rfl, rfl⟩ (hname rfl)
  exact ⟨hts, (parseTokens_eq_ok_iff _ _ hts rfl _).2 hboth⟩

end TableDoc.Formula
