import Mathlib
import TableDoc.Interpolation.Reference
import TableDoc.Proofs.Text

/-!
# Written references and their values

`Written` is the grammar of references and `Names` says which value one stands for; `Fails` lists
why it may have none. `ofText?` reads what the grammar allows (`ofText?_eq_some_iff`), and `resolve`
gives the value or the fault (`resolve_eq_ok_iff`, `resolve_eq_error_iff`).
-/

namespace TableDoc.Reference

/-! ## The grammar of references -/

/-- One or more characters of names. -/
def IsName (cs : List Char) : Prop := cs ≠ [] ∧ ∀ c ∈ cs, isNameChar c

instance : DecidablePred IsName := fun cs =>
  decidable_of_iff (cs ≠ [] ∧ cs.all isNameChar) (and_congr_right' List.all_eq_true)

/-- What is left of a text without a pair of quotes around it. -/
inductive Unquotes : List Char → List Char → Prop
  | quoted {quote : Char} {inner : List Char} : quote ∈ ['\x22', '\''] →
    Unquotes (quote :: (inner ++ [quote])) inner
  | plain : (∀ quote ∈ ['\x22', '\''], ∀ inner, text ≠ quote :: (inner ++ [quote])) →
    Unquotes text text

/-- The group that is selected in brackets. -/
inductive Selects : List Char → String → Prop
  | mk {key : List Char} : Text.Blanks before → Text.IsTrimmed text → Text.Blanks after →
    ']' ∉ text → Unquotes text key →
    Selects ('[' :: (before ++ text ++ after ++ [']'])) (.ofList key)

/-- How references are written. -/
inductive Written : List Char → Reference → Prop
  | whole {table aggregate : List Char} : Text.Blanks before → IsName table → IsName aggregate →
    Text.Blanks after →
    Written (before ++ (table ++ '.' :: aggregate) ++ after)
      ⟨.ofList table, .ofList aggregate, none⟩
  | group {table aggregate : List Char} {key : String} : Text.Blanks before → IsName table →
    IsName aggregate → Selects bracket key → Text.Blanks after →
    Written (before ++ (table ++ '.' :: (aggregate ++ bracket)) ++ after)
      ⟨.ofList table, .ofList aggregate, some key⟩

variable {c : Char} {cs rest text before after table aggregate : List Char} {r : Reference}

theorem isBlank_of_isNameChar (h : isNameChar c) : Text.isBlank c = false :=
  Text.isBlank_of_isAlphanum h

theorem name?_append (hname : IsName cs) (hrest : ∀ c ∈ rest.head?, isNameChar c = false) :
    name? (cs ++ rest) = some (.ofList cs, rest) := by
  rw [name?, Text.takeWhile_append hname.2 hrest, Text.dropWhile_append hname.2 hrest]
  exact if_neg hname.1

theorem exists_of_name? {name : String} (h : name? cs = some (name, rest)) :
    ∃ chars, IsName chars ∧ name = .ofList chars ∧ cs = chars ++ rest := by
  simp only [name?] at h
  split at h
  · cases h
  · next hne =>
    cases h
    exact ⟨_, ⟨hne, fun _ => Text.of_mem_takeWhile⟩, rfl, List.takeWhile_append_dropWhile.symm⟩

/-- What is left of a text when a pair of quotes is taken off. -/
theorem unquote?_eq_some_iff {quote : Char} :
    unquote? quote cs = some text ↔ cs = quote :: (text ++ [quote]) := by
  cases cs with
  | nil => simp [unquote?]
  | cons c cs =>
    rw [unquote?]
    split
    · next h =>
      obtain ⟨rfl, hlast⟩ := h
      obtain ⟨inner, rfl⟩ := List.getLast?_eq_some_iff.1 hlast
      simp
    · next h =>
      refine ⟨by rintro ⟨⟩, fun hcs => absurd ?_ h⟩
      obtain ⟨rfl, rfl⟩ := List.cons.inj hcs
      exact ⟨rfl, List.getLast?_concat⟩

/-- Quotes are taken off as the grammar says. -/
theorem unquotes_unquote (cs : List Char) : Unquotes cs (unquote cs) := by
  rw [unquote]
  cases hdouble : unquote? '\x22' cs with
  | some inner =>
    rw [unquote?_eq_some_iff.1 hdouble]
    exact .quoted List.mem_cons_self
  | none =>
    cases hsingle : unquote? '\'' cs with
    | some inner =>
      rw [unquote?_eq_some_iff.1 hsingle]
      exact .quoted (List.mem_cons_of_mem _ List.mem_cons_self)
    | none =>
      refine .plain (List.forall_mem_cons.2 ⟨?_, List.forall_mem_singleton.2 ?_⟩)
      · exact fun inner hcs => nomatch hdouble.symm.trans (unquote?_eq_some_iff.2 hcs)
      · exact fun inner hcs => nomatch hsingle.symm.trans (unquote?_eq_some_iff.2 hcs)

/-- There is one way to take off quotes. -/
theorem Unquotes.unique {other : List Char} (h : Unquotes cs text) (h' : Unquotes cs other) :
    text = other := by
  cases h with
  | quoted hquote =>
    generalize hcs : _ :: (text ++ [_]) = cs at h'
    cases h' with
    | quoted => exact (List.append_inj_left' (List.cons.inj hcs).2 rfl)
    | plain hplain => exact absurd hcs.symm (hplain _ hquote _)
  | plain hplain =>
    cases h' with
    | quoted hquote => exact absurd rfl (hplain _ hquote _)
    | plain => rfl

/-- A bracket that is read selects the group. -/
theorem selects_of_group? {key : String} (h : group? cs = some key) : Selects cs key := by
  rw [group?.eq_def] at h
  split at h
  · next cs =>
    split at h
    · next c hclose =>
      obtain ⟨htrimmed, before, after, hbefore, hafter, htrim⟩ :=
        Text.trim_eq_iff.1 (Eq.refl (Text.trim (cs.takeWhile (· ≠ ']'))))
      have hfree : ']' ∉ Text.trim (cs.takeWhile (· ≠ ']')) := by
        intro hmem
        refine Text.notMem_takeWhile_ne ']' cs ?_
        rw [htrim]
        exact List.mem_append_left _ (List.mem_append_right _ hmem)
      have hselects := Selects.mk hbefore htrimmed hafter hfree (unquotes_unquote _)
      rw [← htrim, ← Text.eq_append_of_dropWhile_ne hclose] at hselects
      cases h
      exact hselects
    · cases h
  · cases h

/-- A bracket that selects a group is read. -/
theorem group?_of_selects {key : String} (h : Selects cs key) : group? cs = some key := by
  obtain @⟨before, text, after, key, hbefore, htext, hafter, hfree, hkey⟩ := h
  have hinner : ']' ∉ before ++ text ++ after := by
    simp only [List.mem_append, not_or]
    exact ⟨⟨fun h => absurd (hbefore _ h) (by decide), hfree⟩,
      fun h => absurd (hafter _ h) (by decide)⟩
  rw [group?.eq_def]
  simp only [Text.dropWhile_ne_append hinner, Text.takeWhile_ne_append hinner,
    Text.trim_append hbefore htext hafter]
  rw [(unquotes_unquote text).unique hkey]

theorem trim_written (hbefore : Text.Blanks before) (htable : IsName table)
    (hlast : Text.isBlank c = false) (hafter : Text.Blanks after) :
    Text.trim (before ++ (table ++ '.' :: (rest ++ [c])) ++ after) =
      table ++ '.' :: (rest ++ [c]) := by
  obtain ⟨d, ds, rfl⟩ := List.exists_cons_of_ne_nil htable.1
  refine Text.trim_append hbefore ⟨?_, ?_⟩ hafter
  · rintro _ ⟨⟩
    exact isBlank_of_isNameChar (htable.2 d List.mem_cons_self)
  · rw [← List.cons_append, ← List.append_assoc, List.getLast?_concat]
    rintro _ ⟨⟩
    exact hlast

theorem name?_point (htable : IsName table) :
    name? (table ++ '.' :: rest) = some (.ofList table, '.' :: rest) :=
  name?_append htable (by rintro _ ⟨⟩; decide)

/-- A reference that is written by the grammar is read. -/
theorem ofText?_of_written (h : Written cs r) : ofText? cs = some r := by
  cases h with
  | @whole before after table aggregate hbefore htable haggregate hafter =>
    obtain ⟨init, last, rfl⟩ : ∃ init last, aggregate = init ++ [last] :=
      ⟨_, _, (List.dropLast_concat_getLast haggregate.1).symm⟩
    have hlast :=
      isBlank_of_isNameChar (haggregate.2 last (List.mem_append_right _ List.mem_cons_self))
    have hname : name? (init ++ [last] ++ []) = some (.ofList (init ++ [last]), []) :=
      name?_append haggregate nofun
    rw [List.append_nil] at hname
    rw [ofText?, trim_written hbefore htable hlast hafter, name?_point htable]
    simp only [hname]
  | @group before bracket after table aggregate key hbefore htable haggregate hselects hafter =>
    obtain ⟨inner, rfl⟩ : ∃ inner, bracket = '[' :: inner ++ [']'] := by
      cases hselects with
      | mk => exact ⟨_, rfl⟩
    have hname : name? (aggregate ++ ('[' :: inner ++ [']'])) =
        some (.ofList aggregate, '[' :: inner ++ [']']) :=
      name?_append haggregate (by rintro _ ⟨⟩; decide)
    have hblank : Text.isBlank ']' = false := rfl
    rw [← List.append_assoc aggregate] at hname ⊢
    rw [ofText?, trim_written hbefore htable hblank hafter, name?_point htable]
    have hkey := group?_of_selects hselects
    rw [List.cons_append] at hname hkey
    simp only [hname, hkey]
    rfl

/-- A reference that is read is written by the grammar. -/
theorem written_of_ofText? (h : ofText? cs = some r) : Written cs r := by
  obtain ⟨before, after, hbefore, hafter, htrim⟩ := Text.exists_trim cs
  rw [ofText?] at h
  split at h
  · next hread =>
    obtain ⟨table, htable, rfl, htext⟩ := exists_of_name? hread
    rw [htrim, htext]
    split at h
    · next hread =>
      obtain ⟨aggregate, haggregate, rfl, rfl⟩ := exists_of_name? hread
      cases h
      rw [List.append_nil]
      exact .whole hbefore htable haggregate hafter
    · next hread =>
      obtain ⟨aggregate, haggregate, rfl, rfl⟩ := exists_of_name? hread
      obtain ⟨key, hkey, rfl⟩ := Option.map_eq_some_iff.1 h
      exact .group hbefore htable haggregate (selects_of_group? hkey) hafter
    · cases h
  · cases h

/-- References are read as the grammar says. -/
theorem ofText?_eq_some_iff : ofText? cs = some r ↔ Written cs r :=
  ⟨written_of_ofText?, ofText?_of_written⟩

theorem getLast?_append_cons_ne {d : Char} (hne : c ≠ d) (h : d ∉ after) :
    (before ++ c :: after).getLast? ≠ some d := by
  rw [List.getLast?_append, List.getLast?_cons]
  intro hlast
  have hmem : d ∈ c :: after := List.mem_of_getLast? (List.getLast?_cons.trans hlast)
  rcases List.mem_cons.1 hmem with rfl | hmem
  · exact hne rfl
  · exact h hmem

/-- A reference does not end with a brace, so braces behind it are its first two. -/
theorem Written.getLast?_ne (h : Written cs r) : cs.getLast? ≠ some '\x7d' := by
  have hblanks {blanks : List Char} (h : Text.Blanks blanks) : '\x7d' ∉ blanks := fun hmem =>
    absurd (h _ hmem) (by decide)
  cases h with
  | @whole before after table aggregate _ _ haggregate hafter =>
    have hname : '\x7d' ∉ aggregate := fun hmem => absurd (haggregate.2 _ hmem) (by decide)
    have htext : before ++ (table ++ '.' :: aggregate) ++ after =
        (before ++ table) ++ '.' :: (aggregate ++ after) := by
      simp only [List.append_assoc, List.cons_append]
    rw [htext]
    exact getLast?_append_cons_ne (by decide) (List.not_mem_append hname (hblanks hafter))
  | @group before _ after table aggregate _ _ _ _ hselects hafter =>
    obtain @⟨left, text, right, _, -, -, -, -, -⟩ := hselects
    have htext :
        before ++ (table ++ '.' :: (aggregate ++ '[' :: (left ++ text ++ right ++ [']']))) ++
            after =
          (before ++ (table ++ '.' :: (aggregate ++ '[' :: (left ++ text ++ right)))) ++
            ']' :: after := by
      simp only [List.append_assoc, List.cons_append, List.nil_append]
    rw [htext]
    exact getLast?_append_cons_ne (by decide) (hblanks hafter)

/-! ## The values of references -/

/-- The value that a reference stands for: of an aggregate without groups, or of a group that is
selected. The first table with a name is the one that is meant. -/
inductive Names (tables : List TableResult) : Reference → Scalar → Prop
  | whole {name aggregate : String} : tables.find? (·.name = name) = some result →
    result.aggregates.get? aggregate = some value → Names tables ⟨name, aggregate, none⟩ value
  | group {name aggregate key : String} : tables.find? (·.name = name) = some result →
    result.aggregates.get? aggregate = none → result.grouped? aggregate = some grouped →
    grouped.get? key = some value → Names tables ⟨name, aggregate, some key⟩ value

/-- Why a reference stands for no value. -/
inductive Fails (tables : List TableResult) : Reference → Fault → Prop
  | noTable {name aggregate : String} {group : Option String} :
    tables.find? (·.name = name) = none → Fails tables ⟨name, aggregate, group⟩ .unknown
  | noAggregate {name aggregate : String} {group : Option String} :
    tables.find? (·.name = name) = some result → result.aggregates.get? aggregate = none →
    result.grouped? aggregate = none → Fails tables ⟨name, aggregate, group⟩ .unknown
  | notGrouped {name aggregate key : String} : tables.find? (·.name = name) = some result →
    result.aggregates.get? aggregate = some value →
      Fails tables ⟨name, aggregate, some key⟩ (.notGrouped key)
  | grouped {name aggregate : String} : tables.find? (·.name = name) = some result →
    result.aggregates.get? aggregate = none → result.grouped? aggregate = some grouped →
    Fails tables ⟨name, aggregate, none⟩ .grouped
  | unknownGroup {name aggregate key : String} : tables.find? (·.name = name) = some result →
    result.aggregates.get? aggregate = none → result.grouped? aggregate = some grouped →
    grouped.get? key = none → Fails tables ⟨name, aggregate, some key⟩ (.unknownGroup key)

variable {tables : List TableResult} {value : Scalar} {fault : Fault}

theorem resolve_of_names (h : Names tables r value) : r.resolve tables = .ok value := by
  cases h with
  | whole htable hvalue => simp only [resolve, htable, hvalue]
  | group htable hnone hgrouped hvalue => simp only [resolve, htable, hnone, hgrouped, hvalue]

theorem resolve_of_fails (h : Fails tables r fault) : r.resolve tables = .error fault := by
  cases h with
  | noTable htable => simp only [resolve, htable]
  | noAggregate htable hnone hgrouped => simp only [resolve, htable, hnone, hgrouped]
  | notGrouped htable hvalue => simp only [resolve, htable, hvalue]
  | grouped htable hnone hgrouped => simp only [resolve, htable, hnone, hgrouped]
  | unknownGroup htable hnone hgrouped hkey => simp only [resolve, htable, hnone, hgrouped, hkey]

/-- A reference stands for a value or fails. -/
theorem names_or_fails (tables : List TableResult) (r : Reference) :
    (∃ value, Names tables r value) ∨ ∃ fault, Fails tables r fault := by
  obtain ⟨name, aggregate, group⟩ := r
  cases htable : tables.find? (·.name = name) with
  | none => exact .inr ⟨_, .noTable htable⟩
  | some result =>
    cases hvalue : result.aggregates.get? aggregate with
    | some value =>
      cases group with
      | none => exact .inl ⟨_, .whole htable hvalue⟩
      | some key => exact .inr ⟨_, .notGrouped htable hvalue⟩
    | none =>
      cases hgrouped : result.grouped? aggregate with
      | none => exact .inr ⟨_, .noAggregate htable hvalue hgrouped⟩
      | some grouped =>
        cases group with
        | none => exact .inr ⟨_, .grouped htable hvalue hgrouped⟩
        | some key =>
          cases hkey : grouped.get? key with
          | some value => exact .inl ⟨_, .group htable hvalue hgrouped hkey⟩
          | none => exact .inr ⟨_, .unknownGroup htable hvalue hgrouped hkey⟩

/-- A reference has the value that it names. -/
theorem resolve_eq_ok_iff : r.resolve tables = .ok value ↔ Names tables r value := by
  refine ⟨fun h => ?_, resolve_of_names⟩
  rcases names_or_fails tables r with ⟨other, hother⟩ | ⟨fault, hfault⟩
  · rw [resolve_of_names hother] at h
    exact Except.ok.inj h ▸ hother
  · cases h.symm.trans (resolve_of_fails hfault)

/-- A reference has a fault just if there is nothing that it names. -/
theorem resolve_eq_error_iff : r.resolve tables = .error fault ↔ Fails tables r fault := by
  refine ⟨fun h => ?_, resolve_of_fails⟩
  rcases names_or_fails tables r with ⟨value, hvalue⟩ | ⟨other, hother⟩
  · cases h.symm.trans (resolve_of_names hvalue)
  · rw [resolve_of_fails hother] at h
    exact Except.error.inj h ▸ hother

end TableDoc.Reference
