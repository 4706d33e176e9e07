import Mathlib
import TableDoc.Compilation.Pairing
import TableDoc.Proofs.Sequence

/-!
# Pairs of declared tables and tables of the document

The pairs are a bijection between the declared tables and those of the document, which have
different names (`pair_eq_ok_iff`). There is such a bijection just if the names are those of the
declared tables, and it does not depend on the order of the tables in the document
(`pair_bijective`), nor on the order in which tables are left when others have been taken out
(`pairSwapping_eq_pairAll`).
-/

namespace TableDoc.Compilation

variable {s : Schema} {ts : List TableSchema} {pairs : List Pair} {found : List Markdown.Table}

theorem isNone_table?_iff {name : String} :
    (s.table? name).isNone ↔ name ∉ s.tables.map TableSchema.name := by
  rw [Schema.table?, Option.isNone_iff_eq_none, List.find?_eq_none]
  simp

/-- The names of the tables of a document are all declared, and none is there twice. -/
theorem checkNames_eq_ok_iff {seen : List String} : checkNames s seen found = .ok () ↔
    (∀ f ∈ found, f.name ∈ s.tables.map TableSchema.name) ∧
      (found.map Markdown.Table.name).Nodup ∧ ∀ name ∈ found.map Markdown.Table.name,
        name ∉ seen := by
  induction found generalizing seen with
  | nil => exact iff_of_true rfl ⟨nofun, .nil, nofun⟩
  | cons f found ih =>
    rw [checkNames, List.map_cons]
    split
    · next hnone =>
      exact iff_of_false nofun fun h => isNone_table?_iff.1 hnone (h.1 f List.mem_cons_self)
    · next hsome =>
      split
      · next hseen => exact iff_of_false nofun fun h => h.2.2 f.name List.mem_cons_self hseen
      · next hseen =>
        rw [ih]
        constructor
        · rintro ⟨hdeclared, hnames⟩
          exact ⟨List.forall_mem_cons.2 ⟨not_not.1 (mt isNone_table?_iff.2 hsome), hdeclared⟩,
            nodup_cons_of_seen hseen hnames⟩
        · rintro ⟨hdeclared, hnodup, hnames⟩
          obtain ⟨hname, hnodup⟩ := List.nodup_cons.1 hnodup
          refine ⟨(List.forall_mem_cons.1 hdeclared).2, hnodup, fun other hother hmem => ?_⟩
          rcases List.mem_cons.1 hmem with rfl | hmem
          · exact hname hother
          · exact hnames other (List.mem_cons_of_mem _ hother) hmem

/-- Declarations are paired with different tables, if these have different names. -/
theorem pairAll_eq_ok_iff (hn : (found.map Markdown.Table.name).Nodup) :
    pairAll s found ts = .ok pairs ↔
      pairs.map Pair.declared = ts ∧ (∀ p ∈ pairs, p.found.name = p.declared.name) ∧
        (pairs.map Pair.found).Subperm found := by
  induction ts generalizing found pairs with
  | nil =>
    rw [pairAll, List.map_eq_nil_iff]
    constructor
    · rintro ⟨⟩
      exact ⟨rfl, nofun, List.nil_subperm⟩
    · rintro ⟨rfl, -⟩
      rfl
  | cons t ts ih =>
    have hlater (f : Markdown.Table) (hf : f ∈ found) (hname : f.name = t.name) :
        found.Perm (f :: found.filter (·.name ≠ t.name)) := hname ▸ perm_cons_filter hn hf
    have hnodup : ((found.filter (·.name ≠ t.name)).map Markdown.Table.name).Nodup :=
      hn.sublist (List.filter_sublist.map _)
    rw [pairAll]
    constructor
    · intro h
      split at h
      · cases h
      · next f hf =>
        obtain ⟨hmem, hname⟩ := (find?_eq_some_iff_of_nodup hn).1 hf
        obtain ⟨later, hok, h⟩ := bind_eq_ok_iff.1 h
        cases h
        obtain ⟨hdeclared, hnames, hsubperm⟩ := (ih hnodup).1 hok
        refine ⟨congrArg (t :: ·) hdeclared, List.forall_mem_cons.2 ⟨hname, hnames⟩, ?_⟩
        exact ((List.subperm_cons f).2 hsubperm).trans (hlater f hmem hname).symm.subperm
    · rintro ⟨hdeclared, hnames, hsubperm⟩
      rcases pairs with _ | ⟨p, later⟩ <;> cases hdeclared
      obtain ⟨hname, hnames⟩ := List.forall_mem_cons.1 hnames
      have hmem : p.found ∈ found := hsubperm.subset List.mem_cons_self
      have hfind := (find?_eq_some_iff_of_nodup hn).2 ⟨hmem, hname⟩
      have hsubperm := (List.subperm_cons _).1 (hsubperm.trans (hlater p.found hmem hname).subperm)
      have hok := (ih hnodup).2 ⟨rfl, hnames, hsubperm⟩
      rw [hfind]
      exact bind_eq_ok_iff.2 ⟨later, hok, rfl⟩

/-- Pairing gives each declared table one table of the document of the same name, and uses up all of
these. -/
theorem pair_eq_ok_iff : pair s found = .ok pairs ↔
    (found.map Markdown.Table.name).Nodup ∧ pairs.map Pair.declared = s.tables ∧
      (∀ p ∈ pairs, p.found.name = p.declared.name) ∧ (pairs.map Pair.found).Perm found := by
  rw [pair, bind_eq_ok_iff]
  constructor
  · rintro ⟨_, hnames, h⟩
    obtain ⟨hdeclared, hnodup, -⟩ := checkNames_eq_ok_iff.1 hnames
    obtain ⟨htables, hnames, hsubperm⟩ := (pairAll_eq_ok_iff hnodup).1 h
    refine ⟨hnodup, htables, hnames, hsubperm.perm_of_length_le ?_⟩
    -- the names of the document are different and declared, so there are not more of them than
    -- declarations
    have hle := (hnodup.subperm (List.forall_mem_map.2 hdeclared)).length_le
    rwa [List.length_map, ← htables, List.length_map, List.length_map,
      ← List.length_map Pair.found] at hle
  · rintro ⟨hnodup, htables, hnames, hperm⟩
    have hdeclared : ∀ f ∈ found, f.name ∈ s.tables.map TableSchema.name := by
      intro f hf
      obtain ⟨p, hp, rfl⟩ := List.mem_map.1 (hperm.mem_iff.2 hf)
      rw [hnames p hp, ← htables]
      exact List.mem_map_of_mem (List.mem_map_of_mem hp)
    exact ⟨(), checkNames_eq_ok_iff.2 ⟨hdeclared, hnodup, fun _ _ => List.not_mem_nil⟩,
      (pairAll_eq_ok_iff hnodup).2 ⟨htables, hnames, hperm.subperm⟩⟩

theorem map_name_found (h : ∀ p ∈ pairs, p.found.name = p.declared.name) :
    (pairs.map Pair.found).map Markdown.Table.name =
      (pairs.map Pair.declared).map TableSchema.name := by
  rw [List.map_map, List.map_map]
  exact List.map_congr_left h

theorem exists_pairs {fs : List Markdown.Table}
    (h : List.Forall₂ (fun t f => f.name = t.name) ts fs) :
    ∃ pairs : List Pair, pairs.map Pair.declared = ts ∧ pairs.map Pair.found = fs ∧
      ∀ p ∈ pairs, p.found.name = p.declared.name := by
  induction h with
  | nil => exact ⟨[], rfl, rfl, nofun⟩
  | @cons t f _ _ hname _ ih =>
    obtain ⟨pairs, rfl, rfl, hnames⟩ := ih
    exact ⟨⟨t, f⟩ :: pairs, rfl, rfl, List.forall_mem_cons.2 ⟨hname, hnames⟩⟩

/-- The declared tables are paired in order, each with the only table of its name. -/
theorem pair_eq_ok (h : pair s found = .ok pairs) : pairs.map Pair.declared = s.tables ∧
    (s.tables.map TableSchema.name).Nodup ∧
      ∀ p ∈ pairs, p.found ∈ found ∧ found.filter (·.name = p.declared.name) = [p.found] := by
  obtain ⟨hnodup, hdeclared, hnames, hperm⟩ := pair_eq_ok_iff.1 h
  refine ⟨hdeclared, ?_, fun p hp => ?_⟩
  · rw [← hdeclared, ← map_name_found hnames, (hperm.map _).nodup_iff]
    exact hnodup
  · have hmem : p.found ∈ found := hperm.mem_iff.1 (List.mem_map_of_mem hp)
    exact ⟨hmem, hnames p hp ▸ filter_eq_singleton hnodup hmem⟩

/-! ## Tables that are taken out -/

/-- Finds the table for each declaration, where the last table left fills the place of the one that
is found. -/
def pairSwapping (s : Schema) (found : List Markdown.Table) :
    List TableSchema → Except Diagnostic (List Pair)
  | [] => .ok []
  | t :: ts =>
    match swapOut? (·.name = t.name) found with
    | none => .error (Fault.missing.toDiagnostic t.name (s.tableSpan? t.name))
    | some (f, others) => do
      let pairs ← pairSwapping s others ts
      return ⟨t, f⟩ :: pairs

/-- In which order the tables are that are left makes no difference, if all have different names. -/
theorem pairSwapping_eq_pairAll {left : List Markdown.Table}
    (hn : (found.map Markdown.Table.name).Nodup) (hleft : left.Perm found) :
    pairSwapping s left ts = pairAll s found ts := by
  induction ts generalizing left found with
  | nil => rfl
  | cons t ts ih =>
    rw [pairSwapping, pairAll, ← find?_perm hleft hn]
    rcases hswap : swapOut? (·.name = t.name) left with _ | ⟨f, others⟩
    · have hnone : left.find? (·.name = t.name) = none := by
        rw [← Option.isNone_iff_eq_none, ← Option.not_isSome, ← isSome_swapOut?, hswap]
        rfl
      rw [hswap, hnone]
    · obtain ⟨hfind, hothers⟩ := swapOut?_eq_some hswap
      obtain ⟨hmem, hname⟩ := (find?_eq_some_iff_of_nodup ((hleft.map _).nodup_iff.2 hn)).1 hfind
      have hperm := (hothers.trans hleft).trans (hname ▸ perm_cons_filter hn (hleft.mem_iff.1 hmem))
      rw [hswap, hfind]
      exact congrArg (· >>= fun pairs => pure (⟨t, f⟩ :: pairs)) <|
        ih (hn.sublist (List.filter_sublist.map _)) hperm.cons_inv

/-- Taking the tables out of a list by swapping makes no difference to the pairs. -/
theorem pair_eq_pairSwapping (s : Schema) (found : List Markdown.Table) :
    pair s found = checkNames s [] found >>= fun _ => pairSwapping s found s.tables := by
  rw [pair]
  rcases hnames : checkNames s [] found with failure | _
  · rfl
  · exact (pairSwapping_eq_pairAll (checkNames_eq_ok_iff.1 hnames).2.1 (.refl found)).symm

/-! ## The bijection -/

/-- Tables are paired just if their names are the declared ones in some order. -/
theorem exists_pair_iff :
    (∃ pairs, pair s found = .ok pairs) ↔ (found.map Markdown.Table.name).Nodup ∧
    (found.map Markdown.Table.name).Perm (s.tables.map TableSchema.name) := by
  constructor
  · rintro ⟨pairs, h⟩
    obtain ⟨hnodup, hdeclared, hnames, hperm⟩ := pair_eq_ok_iff.1 h
    refine ⟨hnodup, (hperm.map _).symm.trans ?_⟩
    rw [map_name_found hnames, hdeclared]
  · rintro ⟨hnodup, hperm⟩
    have hnames :
        List.Forall₂ (fun name f => Markdown.Table.name f = name) (found.map Markdown.Table.name)
          found := List.forall₂_map_left_iff.2 (List.forall₂_same.2 fun _ _ => rfl)
    -- the tables in the order of the declarations
    obtain ⟨fs, hfs, hreordered⟩ := List.perm_comp_forall₂ hperm.symm hnames
    obtain ⟨pairs, hdeclared, rfl, hnames⟩ := exists_pairs (List.forall₂_map_left_iff.1 hfs)
    exact ⟨pairs, pair_eq_ok_iff.2 ⟨hnodup, hdeclared, hnames, hreordered⟩⟩

/-- Tables are paired just if those of the document have different names, which are those of the
declared ones in some order. Then the declared tables are in order, each with a table of its name,
every table of the document is in one pair, and the pairs are the same for any order of the tables
in the document. They are also the same, or the failure is, if each table is taken out of those left
and the last of these fills its place. -/
theorem pair_bijective (s : Schema) (found : List Markdown.Table) :
    ((∃ pairs, pair s found = .ok pairs) ↔ (found.map Markdown.Table.name).Nodup ∧
      (found.map Markdown.Table.name).Perm (s.tables.map TableSchema.name)) ∧
    (∀ pairs, pair s found = .ok pairs → pairs.map Pair.declared = s.tables ∧
      (∀ p ∈ pairs, p.found.name = p.declared.name) ∧ (pairs.map Pair.found).Perm found ∧
        ∀ reordered, reordered.Perm found → pair s reordered = .ok pairs) ∧
    pair s found = checkNames s [] found >>= fun _ => pairSwapping s found s.tables := by
  refine ⟨exists_pair_iff, fun pairs h => ?_, pair_eq_pairSwapping s found⟩
  obtain ⟨hnodup, hdeclared, hnames, hperm⟩ := pair_eq_ok_iff.1 h
  refine ⟨hdeclared, hnames, hperm, fun reordered hreordered => pair_eq_ok_iff.2 ?_⟩
  exact ⟨(hreordered.map _).nodup_iff.2 hnodup, hdeclared, hnames, hperm.trans hreordered.symm⟩

/-- Two declared tables. -/
def twoDeclared : Schema :=
  ⟨"1.0", [{ name := "a", columns := ["id"] }, { name := "b", columns := ["id"] }], 0, {}⟩

/-- A table of a document that is just its name. -/
def bareTable (name : String) : Markdown.Table := ⟨name, none, 0, .ofLine 0 [], [], []⟩

theorem pair_bijective_twoDeclared :
    ∃ pairs, pair twoDeclared [bareTable "b", bareTable "a"] = .ok pairs ∧
    pairs.map (fun p => (p.declared.name, p.found.name)) = [("a", "a"), ("b", "b")] ∧
      pair twoDeclared [bareTable "a", bareTable "b"] = .ok pairs := by
  have h : pair twoDeclared [bareTable "b", bareTable "a"] = .ok
      [⟨{ name := "a", columns := ["id"] }, bareTable "a"⟩,
        ⟨{ name := "b", columns := ["id"] }, bareTable "b"⟩] := by
    cbv
  obtain ⟨-, -, -, hreordered⟩ := (pair_bijective _ _).2.1 _ h
  exact ⟨_, h, rfl, hreordered _ (.swap ..)⟩

end TableDoc.Compilation
