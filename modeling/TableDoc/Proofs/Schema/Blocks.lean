import TableDoc.Proofs.Schema.Keys

/-!
# Front sections in block form

In a front section in block form (`Block.Front`) the tables, their parts and the entries of the
parts have lines of their own, one deeper than the other, among lines that count for nothing
(`Block.Idle`). Each of its lines declares a table, an entry or nothing (`Block.Front.marked`), and
none declares what another does (`Block.Front.nodup_declared`).
-/

namespace TableDoc

open Text (Blanks)
open EntryScan (Keyed OpensValue)

/-- What has a place in a front section. -/
inductive Declared where
  | table (name : String)
  | entry (table : String) (part : Section) (name : String)
  deriving DecidableEq

/-- The table itself, or that of an entry. -/
def Declared.tableName : Declared → String
  | table name => name
  | entry owner _ _ => owner

theorem Section.eq_name_of_ofName? {name : String} {part : Section}
    (h : Section.ofName? name = some part) :
    name = part.name := by
  unfold Section.ofName? at h
  split at h <;> cases h <;> rfl

namespace Block

/-- A line that counts for nothing: it is blank, a comment or an item of a list. -/
inductive Idle : List Char → Prop
  | blank : Blanks line → Idle line
  | comment : Blanks indent → Idle (indent ++ '#' :: text)
  | item : Blanks indent → Idle (indent ++ '-' :: text)

/-- A key on a line of its own, after lines that count for nothing. -/
structure Heading where
  above : List (List Char)
  name : String
  value : List Char
  idle : ∀ line ∈ above, Idle line
  isWord : Formula.IsWord name.toList
  opensValue : OpensValue value

/-- A part of a table, with entries that have an indentation of their own. -/
structure Part extends Heading where
  indent : Nat
  entries : List Heading
  nodup : (entries.map Heading.name).Nodup

/-- A table, with parts that have an indentation of their own. -/
structure Table extends Heading where
  indent : Nat
  parts : List Part
  deeper : ∀ part ∈ parts, indent < part.indent
  nodup : (parts.map fun part => part.name).Nodup

/-- Lines that may follow the tables: the first that counts has a key and no indentation, and no
other is the key of the tables. -/
inductive Outside : List (List Char) → Prop
  | nil : Outside []
  | idle : Idle line → Outside lines → Outside (line :: lines)
  | key : Keyed line key → (∀ text ∈ line :: lines, ¬ Keyed text "tables".toList) →
    Outside (line :: lines)

/-- A front section: the key of the tables without indentation, the tables with a common one, and
lines before and after them. -/
structure Front where
  before : List (List Char)
  value : List Char
  indent : Nat
  tables : List Table
  after : List (List Char)
  untitled : ∀ line ∈ before, ¬ Keyed line "tables".toList
  opensValue : OpensValue value
  indented : 0 < indent
  deeper : ∀ table ∈ tables, indent < table.indent
  nodup : (tables.map fun table => table.name).Nodup
  outside : Outside after

/-- The line of a key with an indentation. -/
def Heading.line (h : Heading) (indent : Nat) : List Char :=
  List.replicate indent ' ' ++ (h.name.toList ++ ':' :: h.value)

/-- The lines of a key and what they declare. -/
def Heading.marked (h : Heading) (indent : Nat) (declared : Option Declared) :
    List (Option Declared × List Char) :=
  h.above.map (none, ·) ++ [(declared, h.line indent)]

/-- The lines of a part and what they declare. -/
def Part.marked (p : Part) (table : String) (indent : Nat) : List (Option Declared × List Char) :=
  p.toHeading.marked indent none ++ p.entries.flatMap fun entry =>
    entry.marked p.indent ((Section.ofName? p.name).map fun part => .entry table part entry.name)

/-- The lines of a table and what they declare. -/
def Table.marked (t : Table) (indent : Nat) : List (Option Declared × List Char) :=
  t.toHeading.marked indent (some (.table t.name)) ++ t.parts.flatMap fun part =>
    part.marked t.name t.indent

/-- The lines of a front section and what they declare. -/
def Front.marked (f : Front) : List (Option Declared × List Char) :=
  f.before.map (none, ·) ++ (none, "tables".toList ++ ':' :: f.value) :: f.tables.flatMap
    (·.marked f.indent) ++ f.after.map (none, ·)

/-- The lines of a front section. -/
def Front.lines (f : Front) : List (List Char) := f.marked.map Prod.snd

/-! ## What the lines declare -/

variable {d : Declared} {table : String} {indent : Nat}

theorem declared_unmarked (lines : List (List Char)) :
    (lines.map fun line => ((none : Option Declared), line)).filterMap Prod.fst = [] := by
  rw [List.filterMap_map]
  exact List.filterMap_eq_nil_iff.2 fun _ _ => rfl

theorem Heading.declared_marked (h : Heading) (indent : Nat) (declared : Option Declared) :
    (h.marked indent declared).filterMap Prod.fst = declared.toList := by
  rw [Heading.marked, List.filterMap_append, declared_unmarked, List.nil_append]
  cases declared <;> rfl

theorem Part.declared_marked (p : Part) (table : String) (indent : Nat) :
    (p.marked table indent).filterMap Prod.fst = p.entries.filterMap fun entry =>
      (Section.ofName? p.name).map fun part => .entry table part entry.name := by
  rw [Part.marked, List.filterMap_append, Heading.declared_marked, List.filterMap_flatMap]
  simp only [Heading.declared_marked]
  rw [List.filterMap_eq_flatMap_toList]
  rfl

theorem Table.declared_marked (t : Table) (indent : Nat) :
    (t.marked indent).filterMap Prod.fst =
      .table t.name :: t.parts.flatMap fun part =>
        (part.marked t.name t.indent).filterMap Prod.fst := by
  rw [Table.marked, List.filterMap_append, Heading.declared_marked, List.filterMap_flatMap]
  rfl

/-- A front section declares what its tables declare. -/
theorem Front.declared_marked (f : Front) :
    f.marked.filterMap Prod.fst = f.tables.flatMap fun table =>
      (table.marked f.indent).filterMap Prod.fst := by
  rw [Front.marked, List.filterMap_append, List.filterMap_append, declared_unmarked,
    declared_unmarked, List.filterMap_cons_none rfl, List.filterMap_flatMap, List.nil_append,
    List.append_nil]

/-- A part declares no entry twice. -/
theorem Part.nodup_declared (p : Part) (table : String) (indent : Nat) :
    ((p.marked table indent).filterMap Prod.fst).Nodup := by
  rw [Part.declared_marked]
  refine List.Pairwise.filterMap _ ?_ (List.pairwise_map.1 p.nodup)
  rintro first second hne d hd _ hd' rfl
  obtain ⟨part, -, rfl⟩ := Option.map_eq_some_iff.1 hd
  obtain ⟨part', -, heq⟩ := Option.map_eq_some_iff.1 hd'
  exact hne (Declared.entry.inj heq).2.2.symm

/-- A part declares entries of its own. -/
theorem Part.of_mem_declared {p : Part} (h : d ∈ (p.marked table indent).filterMap Prod.fst) :
    ∃ part name, p.name = part.name ∧ d = .entry table part name := by
  rw [Part.declared_marked] at h
  obtain ⟨entry, -, hd⟩ := List.mem_filterMap.1 h
  obtain ⟨part, hpart, rfl⟩ := Option.map_eq_some_iff.1 hd
  exact ⟨part, entry.name, Section.eq_name_of_ofName? hpart, rfl⟩

theorem Table.nodup_declared (t : Table) (indent : Nat) :
    ((t.marked indent).filterMap Prod.fst).Nodup := by
  rw [Table.declared_marked]
  refine List.nodup_cons.2 ⟨?_, List.nodup_flatMap.2 ⟨fun part _ => part.nodup_declared _ _, ?_⟩⟩
  · intro hmem
    obtain ⟨part, -, hpart⟩ := List.mem_flatMap.1 hmem
    obtain ⟨_, _, -, heq⟩ := Part.of_mem_declared hpart
    cases heq
  · refine (List.pairwise_map.1 t.nodup).imp fun {first second} hne d hfirst hsecond => ?_
    obtain ⟨part, name, hpart, rfl⟩ := Part.of_mem_declared hfirst
    obtain ⟨part', name', hpart', heq⟩ := Part.of_mem_declared hsecond
    cases heq
    exact hne (hpart.trans hpart'.symm)

theorem Table.tableName_of_mem_declared {t : Table} (h : d ∈ (t.marked indent).filterMap Prod.fst) :
    d.tableName = t.name := by
  rw [Table.declared_marked] at h
  obtain rfl | h := List.mem_cons.1 h
  · rfl
  · obtain ⟨part, -, hpart⟩ := List.mem_flatMap.1 h
    obtain ⟨_, _, -, rfl⟩ := Part.of_mem_declared hpart
    rfl

/-- Nothing is declared twice. -/
theorem Front.nodup_declared (f : Front) : (f.marked.filterMap Prod.fst).Nodup := by
  rw [Front.declared_marked]
  refine List.nodup_flatMap.2 ⟨fun table _ => table.nodup_declared _, ?_⟩
  refine (List.pairwise_map.1 f.nodup).imp fun {first second} hne d hfirst hsecond => hne ?_
  exact (Table.tableName_of_mem_declared hfirst).symm.trans
    (Table.tableName_of_mem_declared hsecond)

end Block

end TableDoc
