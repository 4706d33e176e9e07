import TableDoc.Compilation.Plan
import TableDoc.Proofs.Diagnostic
import TableDoc.Proofs.Formula.DependencyOrder
import TableDoc.Proofs.Sequence

/-!
# How reading a formula fails

A formula that cannot be read has an error at a character, at a token or in the argument of an
aggregate (`failsReading_readFormula`). Formulas that can be read cannot be ordered only if there is
a cycle, and a cycle has a first column (`Dependencies.failsAs_build`).
-/

namespace TableDoc.Formula

/-- The errors of texts that are not formulas. -/
def Error.ofReading : Error → Bool
  | lex .. | parse .. | aggregateArgument _ => true
  | _ => false

/-- Every failure is that of a text which is no formula. -/
abbrev FailsReading (x : Except Error α) : Prop := FailsAs (fun e => e.ofReading) x

/-! ## Tokens and formulas -/

/-- Lexing fails with faults of reading only. -/
theorem failsReading_lexFrom (offset : Nat) (cs : List Char) :
    FailsReading (lexFrom offset cs) := by
  fun_induction lexFrom offset cs with
  | case1 => exact .ok _
  | case2 _ _ _ _ ih => exact ih
  | case3 => exact .error rfl
  | case4 _ _ _ _ _ _ _ ih => exact ih.bind fun _ _ => .ok _

namespace Parser

variable {ending : Token}

theorem failsReading_expect (what : Expected) (kind : Token.Kind) (ts : List Token) :
    FailsReading (expect ending what kind ts) := by
  cases ts with
  | nil => exact .error rfl
  | cons t ts =>
    rw [expect]
    split
    · exact .ok _
    · exact .error rfl

/-- The induction is that of the parser. -/
theorem failsReading :
    (∀ least ts, FailsReading (expression ending least ts)) ∧
    (∀ least left compares ts, FailsReading (operators ending least left compares ts)) ∧
    (∀ ts, FailsReading (operand ending ts)) ∧
    (∀ ts, FailsReading (arguments ending ts)) ∧
    (∀ ts, FailsReading (furtherArguments ending ts)) ∧
    ∀ base ts, FailsReading (suffixes ending base ts) := by
  apply expression.mutual_induct ending
    (fun least ts => FailsReading (expression ending least ts))
    (fun least left compares ts => FailsReading (operators ending least left compares ts))
    (fun ts => FailsReading (operand ending ts))
    (fun ts => FailsReading (arguments ending ts))
    (fun ts => FailsReading (furtherArguments ending ts))
    (fun base ts => FailsReading (suffixes ending base ts))
  case case1 =>
    intro least ts hleft hwhole
    rw [expression]
    exact hleft.bind fun left _ => (hwhole left).bind fun whole _ => .ok _
  case case2 =>
    intro least left compares
    rw [operators]
    exact .ok _
  case case3 =>
    intro least left compares t ts hnone
    simp only [operators, hnone]
    exact .ok _
  case case4 =>
    intro least left compares t ts op hop hle
    simp only [operators, hop, hle, if_true]
    exact .ok _
  case case5 =>
    intro least left compares t ts op hop hle hchained
    simp only [operators, hop, hle, hchained, if_true, if_false]
    exact .error rfl
  case case6 =>
    intro least left compares t ts op hop hle hchained hright hwhole
    simp only [operators, hop, hle, hchained, if_false]
    exact hright.bind fun right _ => (hwhole right).bind fun whole _ => .ok _
  case case7 =>
    rw [operand]
    exact .error rfl
  case case8 =>
    intro t ts hkind x hx hsuffixes
    rw [operand.eq_def]
    simp only [hkind, hx]
    exact hsuffixes
  case case9 =>
    intro t ts hkind hx
    rw [operand.eq_def]
    simp only [hkind, hx]
    exact .error rfl
  case case10 =>
    intro t ts hkind hsuffixes
    rw [operand.eq_def]
    simp only [hkind]
    exact hsuffixes
  case case11 =>
    intro t ts hkind hsuffixes
    rw [operand.eq_def]
    simp only [hkind]
    exact hsuffixes
  case case12 =>
    intro t hkind
    rw [operand.eq_def]
    simp only [hkind]
    exact .ok _
  case case13 =>
    intro t hkind next ts hnext harguments hsuffixes
    rw [operand.eq_def]
    simp only [hkind, hnext, if_true]
    exact harguments.bind fun arguments _ => (failsReading_expect _ _ _).bind fun closing _ =>
      (hsuffixes arguments closing).bind fun whole _ => .ok _
  case case14 =>
    intro t hkind next ts hnext hsuffixes
    rw [operand.eq_def]
    simp only [hkind, hnext, if_false]
    exact hsuffixes
  case case15 =>
    intro t ts hkind hinner hsuffixes
    rw [operand.eq_def]
    simp only [hkind]
    exact hinner.bind fun inner _ => (failsReading_expect _ _ _).bind fun closing _ =>
      (hsuffixes inner closing).bind fun whole _ => .ok _
  case case16 =>
    intro t ts hkind op hop hinner
    rw [operand.eq_def]
    simp only [hkind, hop]
    exact hinner.bind fun inner _ => .ok _
  case case17 =>
    intro t ts hkind hop
    rw [operand.eq_def]
    simp only [hkind, hop]
    exact .error rfl
  case case18 =>
    intro t ts _ _ _ _ _ _
    rw [operand.eq_def]
    dsimp only
    split <;> first | contradiction | exact .error rfl
  case case19 =>
    intro ts hclosing
    rw [arguments, if_pos hclosing]
    exact .ok _
  case case20 =>
    intro ts hclosing hfirst hothers
    rw [arguments, if_neg hclosing]
    exact hfirst.bind fun first _ => (hothers first).bind fun others _ => .ok _
  case case21 =>
    rw [furtherArguments]
    exact .ok _
  case case22 =>
    intro t ts hcomma hnext hothers
    rw [furtherArguments, if_pos hcomma]
    exact hnext.bind fun next _ => (hothers next).bind fun others _ => .ok _
  case case23 =>
    intro t ts hcomma
    rw [furtherArguments, if_neg hcomma]
    exact .ok _
  case case24 =>
    intro base
    rw [suffixes]
    exact .ok _
  case case25 =>
    intro base t ts hkind hsuffixes
    simp only [suffixes, hkind]
    exact (failsReading_expect _ _ _).bind fun field _ =>
      (hsuffixes field).bind fun whole _ => .ok _
  case case26 =>
    intro base t ts hkind hkey hsuffixes
    simp only [suffixes, hkind]
    exact hkey.bind fun key _ => (failsReading_expect _ _ _).bind fun closing _ =>
      (hsuffixes key closing).bind fun whole _ => .ok _
  case case27 =>
    intro base t ts hkind
    simp only [suffixes, hkind]
    exact .error rfl
  case case28 =>
    intro base t ts _ _ _
    rw [suffixes.eq_def]
    dsimp only
    split <;> first | contradiction | exact .ok _

end Parser

/-- Reading a formula fails with faults of reading only. -/
theorem failsReading_parse (source : String) : FailsReading (parse source) := by
  refine (failsReading_lexFrom 0 _).bind fun tokens _ =>
    (Parser.failsReading.1 _ _).bind fun whole _ => ?_
  dsimp only
  split
  · exact .ok _
  · exact .error rfl

/-! ## What a formula reads -/

theorem failsReading_aggregateColumn (function : String) (es : List Expr) :
    FailsReading (aggregateColumn function es) := by
  rw [aggregateColumn.eq_def]
  split
  · exact .ok _
  · exact .error rfl

/-- Listing references fails with faults of reading only. -/
theorem failsReading_references :
    (∀ e : Expr, FailsReading e.references) ∧ ∀ es, FailsReading (Expr.referencesOfAll es) := by
  apply Expr.references.mutual_induct (fun e => FailsReading e.references)
    (fun es => FailsReading (Expr.referencesOfAll es))
  case case1 | case2 | case3 | case4 =>
    intro _
    rw [Expr.references]
    exact .ok _
  case case5 =>
    intro op operand ih
    rw [Expr.references]
    exact ih
  case case6 =>
    intro op left right ihLeft ihRight
    rw [Expr.references]
    exact ihLeft.bind fun fromLeft _ => ihRight.bind fun fromRight _ => .ok _
  case case7 =>
    intro function arguments hf
    rw [Expr.references, if_pos hf]
    exact (failsReading_aggregateColumn function arguments).bind fun column _ => .ok _
  case case8 =>
    intro function arguments hf ih
    rw [Expr.references, if_neg hf]
    exact ih
  case case9 =>
    intro base field ih
    rw [Expr.references]
    exact ih
  case case10 =>
    intro table key ih
    rw [Expr.references]
    exact ih
  case case11 =>
    rw [Expr.referencesOfAll]
    exact .ok _
  case case12 =>
    intro e es ih ihAll
    rw [Expr.referencesOfAll]
    exact ih.bind fun first _ => ihAll.bind fun others _ => .ok _

namespace Dependencies

variable {definitions : List Definition}

/-- A cycle that has a first name. -/
def IsCycle (e : Error) : Prop := ∃ name path, e = .cycle (name :: path)

/-- Placing names fails with circles only. -/
theorem failsAs_place (readings : List Reading) :
    (∀ free stack order name, FailsAs IsCycle (place readings free stack order name)) ∧
      ∀ free stack order names, FailsAs IsCycle (placeAll readings free stack order names) := by
  apply place.mutual_induct readings
    (fun free stack order name => FailsAs IsCycle (place readings free stack order name))
    (fun free stack order names => FailsAs IsCycle (placeAll readings free stack order names))
  case case1 =>
    intro free stack order name hname
    rw [place, if_pos hname]
    exact .ok _
  case case2 =>
    intro free stack order name hname hfree ih
    rw [place, if_neg hname, if_pos hfree]
    exact ih.bind fun order _ => .ok _
  case case3 =>
    intro free stack order name hname hfree
    rw [place, if_neg hname, if_neg hfree]
    exact .error ⟨_, _, rfl⟩
  case case4 =>
    intro free stack order
    rw [placeAll]
    exact .ok _
  case case5 =>
    intro free stack order name names ih ih'
    rw [placeAll]
    exact ih.bind fun order _ => ih' order

/-- Whatever their names are, definitions that say what they read have an order, or there is a
cycle. -/
theorem failsAs_build (h : ∀ d ∈ definitions, ∃ refs, d.formula.references = .ok refs) :
    FailsAs IsCycle (build definitions) := by
  obtain ⟨readings, hreadings, -⟩ := mapM_readingOf (definitions.map Definition.name) h
  rw [build, hreadings]
  exact ((failsAs_place readings).2 _ _ _ _).bind fun order _ => .ok _

end Dependencies

end TableDoc.Formula

namespace TableDoc.Compilation

open Formula

theorem failsReading_readFormula (source : String) : FailsReading (readFormula source) :=
  (failsReading_parse source).bind fun e _ =>
    ((failsReading_references.1 e).bind fun _ _ => .ok ()).bind fun _ _ => .ok e

/-- A formula that is accepted has references. -/
theorem exists_references_of_readFormula {source : String} {e : Expr}
    (h : readFormula source = .ok e) :
    ∃ refs, e.references = .ok refs := by
  obtain ⟨formula, -, h⟩ := bind_eq_ok_iff.1 h
  obtain ⟨_, hcheck, h⟩ := bind_eq_ok_iff.1 h
  cases h
  obtain ⟨refs, hrefs, -⟩ := bind_eq_ok_iff.1 hcheck
  exact ⟨refs, hrefs⟩

end TableDoc.Compilation
