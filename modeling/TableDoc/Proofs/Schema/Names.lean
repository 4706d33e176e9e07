import Mathlib
import TableDoc.Proofs.Sequence
import TableDoc.Proofs.Yaml.Keys
import TableDoc.Schema.Declaration

/-!
# The names of a schema

The columns of a table differ from each other and from its computed columns (`columns_of_ofRoot`).
All other names are the texts of keys in the order of their mappings (`ReadFrom`). A number or truth
value and a text are different keys even if they have one text, so all names of a schema are unique
just where there are no such keys (`namesUnique_iff_keysApart`).
-/

namespace TableDoc

open Yaml (Value)

/-- The value is a text without a tag. -/
def Yaml.Value.IsText (value : Value) : Prop := ∃ s, value = .text s

/-- Two keys that are not both texts do not have the same text. -/
def KeysApart (members : List (Value × Value)) : Prop :=
  members.Pairwise fun a b => nameOf? a.1 = nameOf? b.1 → a.1.IsText ∧ b.1.IsText

/-- The names that tables are looked up by, and the columns and aggregates of each, are all
different. -/
structure NamesUnique (tables : List TableSchema) : Prop where
  names : (tables.map TableSchema.name).Nodup
  columns : ∀ t ∈ tables, t.allColumns.Nodup
  aggregates : ∀ t ∈ tables, (t.aggregates.map AggregateDefinition.name).Nodup

variable {name version : String} {value root : Value} {members : List (Value × Value)}
  {names : List String} {t : TableSchema} {tables : List TableSchema}

/-! ## Names and keys -/

/-- Names differ just if the keys do by their texts. -/
theorem nodup_iff_keysApart (hkeys : members.Pairwise fun a b => ¬a.1.same b.1)
    (hnames : names.map some = members.map fun member => nameOf? member.1) :
    names.Nodup ↔ KeysApart members := by
  have hmap : names.Nodup ↔ members.Pairwise fun a b => nameOf? a.1 ≠ nameOf? b.1 := by
    rw [← List.nodup_map_iff (fun _ _ h => Option.some.inj h), hnames, List.Nodup,
      List.pairwise_map]
  rw [hmap]
  refine ⟨fun h => h.imp fun hne heq => absurd heq hne, fun h => (hkeys.and h).imp ?_⟩
  rintro ⟨_, _⟩ ⟨_, _⟩ ⟨hsame, htexts⟩ heq
  -- keys of one text that are both texts would be the same key
  obtain ⟨⟨s, rfl⟩, ⟨u, rfl⟩⟩ := htexts heq
  obtain rfl : s = u := Option.some.inj heq
  exact hsame (by simp [Value.same])

/-! ## Declarations -/

/-- What the declaration of a table has from the value that it is read from. -/
structure ReadFrom (name : String) (value : Value) (t : TableSchema) : Prop where
  name : t.name = name
  columns : t.columns.Nodup
  notColumn : ∀ c ∈ t.computed, c.name ∉ t.columns
  computed : (t.computed.map ComputedColumn.name).map some =
    (value.entries Section.computed.name).map fun member => nameOf? member.1
  aggregates : (t.aggregates.map AggregateDefinition.name).map some =
    (value.entries Section.aggregates.name).map fun member => nameOf? member.1

theorem nodup_of_firstRepeated? {before as : List String}
    (h : TableSchema.firstRepeated? before as = none) :
    as.Nodup ∧ ∀ a ∈ as, a ∉ before := by
  induction as generalizing before with
  | nil => exact ⟨.nil, nofun⟩
  | cons a as ih =>
    rw [TableSchema.firstRepeated?] at h
    split at h
    · cases h
    · next ha => exact nodup_cons_of_seen ha (ih h)

theorem nodup_of_readColumns {value : Option Value} {columns : List String}
    (h : TableSchema.readColumns value = .ok columns) : columns.Nodup := by
  rw [TableSchema.readColumns] at h
  split at h
  · cases h
  · cases h
  · split at h
    · cases h
    · next hnone =>
      cases h
      exact (nodup_of_firstRepeated? hnone).1

theorem map_fst_of_mapM {named : List (String × Value)}
    (h : (members.mapM fun (key, value) => (nameOf? key).map fun name => (name, value)) =
      some named) :
    (named.map Prod.fst).map some = members.map fun member => nameOf? member.1 := by
  induction members generalizing named with
  | nil =>
    cases h
    rfl
  | cons member members ih =>
    obtain ⟨key, value⟩ := member
    rw [List.mapM_cons] at h
    obtain ⟨first, hfirst, h⟩ := Option.bind_eq_some_iff.1 h
    obtain ⟨later, hlater, h⟩ := Option.bind_eq_some_iff.1 h
    obtain ⟨name, hname, rfl⟩ := Option.map_eq_some_iff.1 hfirst
    cases h
    rw [List.map_cons, List.map_cons, List.map_cons, hname, ih hlater]

/-- The names of a part are the texts of its keys. -/
theorem names_of_readPart {part : Section} {named : List (String × Value)}
    (hvalue : value.members? = some members) (h : TableSchema.readPart members part = .ok named) :
    (named.map Prod.fst).map some = (value.entries part.name).map fun member =>
      nameOf? member.1 := by
  rw [Value.entries, hvalue, Option.bind_some]
  rw [TableSchema.readPart] at h
  split at h
  · next hnone =>
    cases h
    rw [hnone]
    rfl
  · next hnull =>
    cases h
    rw [hnull]
    rfl
  · next hentries =>
    rw [hentries, Option.bind_some]
    split at h
    · cases h
    · next entries hmembers =>
      rw [hmembers]
      split at h
      · cases h
      · next hnamed =>
        cases h
        exact map_fst_of_mapM hnamed

theorem readComputed_eq_ok {columns : List String} {column : String} {c : ComputedColumn}
    (h : TableSchema.readComputed columns column value = .ok c) :
    c.name = column ∧ column ∉ columns := by
  rw [TableSchema.readComputed] at h
  split at h
  · cases h
  · split at h
    · cases h
    · next hcolumn =>
      cases h
      exact ⟨rfl, hcolumn⟩

theorem readAggregate_eq_ok {a : AggregateDefinition}
    (h : TableSchema.readAggregate name value = .ok a) :
    a.name = name := by
  rw [TableSchema.readAggregate] at h
  split at h
  · cases h
  · cases h
    rw [AggregateDefinition.ofText]
    split <;> rfl

/-- A table that is read has the names of its value. -/
theorem readFrom_of_ofValue (h : TableSchema.ofValue name value = .ok t) :
    ReadFrom name value t := by
  rw [TableSchema.ofValue] at h
  split at h
  · next members hmembers =>
    obtain ⟨columns, hcolumns, h⟩ := bind_eq_ok_iff.1 h
    obtain ⟨key, -, h⟩ := bind_eq_ok_iff.1 h
    obtain ⟨typePart, -, h⟩ := bind_eq_ok_iff.1 h
    obtain ⟨types, -, h⟩ := bind_eq_ok_iff.1 h
    obtain ⟨computedPart, hcomputedPart, h⟩ := bind_eq_ok_iff.1 h
    obtain ⟨computed, hcomputed, h⟩ := bind_eq_ok_iff.1 h
    obtain ⟨aggregatePart, haggregatePart, h⟩ := bind_eq_ok_iff.1 h
    obtain ⟨aggregates, haggregates, h⟩ := bind_eq_ok_iff.1 h
    obtain ⟨emptyCells, -, h⟩ := bind_eq_ok_iff.1 h
    cases h
    have hread := forall₂_of_mapM_ok hcomputed
    have hnames : computedPart.map Prod.fst = computed.map ComputedColumn.name :=
      forall₂_map_eq hread fun _ _ hc => (readComputed_eq_ok hc).1.symm
    have haggregateNames : aggregatePart.map Prod.fst = aggregates.map AggregateDefinition.name :=
      forall₂_map_eq (forall₂_of_mapM_ok haggregates) fun _ _ ha => (readAggregate_eq_ok ha).symm
    exact {
      name := rfl
      columns := nodup_of_readColumns hcolumns
      notColumn := fun c hc => by
        obtain ⟨_, -, hread⟩ := exists_of_mem_forall₂ hread hc
        obtain ⟨hname, hcolumn⟩ := readComputed_eq_ok hread
        rw [hname]
        exact hcolumn
      computed := hnames ▸ names_of_readPart hmembers hcomputedPart
      aggregates := haggregateNames ▸ names_of_readPart hmembers haggregatePart }
  · cases h

theorem forall₂_readFrom_of_ofMembers (h : TableSchema.ofMembers members = .ok tables) :
    List.Forall₂ (fun member t => nameOf? member.1 = some t.name ∧
      ReadFrom t.name member.2 t) members tables := by
  refine (forall₂_of_mapM_ok h).imp fun member t hread => ?_
  obtain ⟨key, value⟩ := member
  dsimp only at hread
  split at hread
  · cases hread
  · next name hname =>
    have ht := readFrom_of_ofValue (mapError_eq_ok_iff.1 hread)
    rw [ht.name]
    exact ⟨hname, ht⟩

/-- The tables of a schema are read one by one, in their order. -/
theorem forall₂_readFrom_of_ofRoot (h : Schema.ofValue root = .ok (version, tables)) :
    List.Forall₂ (fun member t => nameOf? member.1 = some t.name ∧ ReadFrom t.name member.2 t)
      (root.entries "tables") tables := by
  rw [Schema.ofValue] at h
  split at h
  · next members hmembers =>
    split at h
    · dsimp only at h
      split at h
      · cases h
      · split at h
        · next entries hentries =>
          obtain ⟨read, hread, h⟩ := bind_eq_ok_iff.1 h
          cases h
          rw [Value.entries, hmembers, Option.bind_some, hentries]
          exact forall₂_readFrom_of_ofMembers hread
        · cases h
    · cases h
  · cases h

/-- In a schema no table has a column twice, nor a computed one that is declared. -/
theorem columns_of_ofRoot (h : Schema.ofValue root = .ok (version, tables)) :
    ∀ t ∈ tables, t.columns.Nodup ∧ ∀ c ∈ t.computed, c.name ∉ t.columns := by
  intro t ht
  obtain ⟨_, -, -, ht⟩ := exists_of_mem_forall₂ (forall₂_readFrom_of_ofRoot h) ht
  exact ⟨ht.columns, ht.notColumn⟩

/-- The schema of a document is read from the value that the loader gives for its front section. -/
theorem exists_ofValue_of_ofDocument [Yaml.Loader] {d : Document} {s : Schema}
    (h : Schema.ofDocument d = .ok s) :
    ∃ root, Yaml.Loader.load (Text.unlines (d.frontLines s.frontEnd)) = .ok root ∧
      Schema.ofValue root = .ok (s.version, s.tables) := by
  rw [Schema.ofDocument] at h
  split at h
  · cases h
  · split at h
    · cases h
    · next frontEnd _ =>
      rw [Schema.ofFront] at h
      split at h
      · cases h
      · next hread =>
        cases h
        obtain ⟨root, hload, hroot⟩ := bind_eq_ok_iff.1 hread
        exact ⟨root, mapError_eq_ok_iff.1 hload, hroot⟩

/-! ## Schemas -/

/-- The columns of a table differ just if the keys of its computed columns do. -/
theorem ReadFrom.allColumns_nodup_iff (ht : ReadFrom name value t) (hvalue : value.DistinctKeys) :
    t.allColumns.Nodup ↔ KeysApart (value.entries Section.computed.name) := by
  rw [← nodup_iff_keysApart (hvalue.entries _).1 ht.computed, TableSchema.allColumns]
  refine ⟨fun h => h.of_append_right, fun h => ht.columns.append h ?_⟩
  intro column hcolumn hcomputed
  obtain ⟨c, hc, rfl⟩ := List.mem_map.1 hcomputed
  exact ht.notColumn c hc hcolumn

theorem ReadFrom.aggregates_nodup_iff (ht : ReadFrom name value t) (hvalue : value.DistinctKeys) :
    (t.aggregates.map AggregateDefinition.name).Nodup ↔
      KeysApart (value.entries Section.aggregates.name) :=
  nodup_iff_keysApart (hvalue.entries _).1 ht.aggregates

/-- The columns of a schema are different and none of them is computed. All its names are unique
just when no mapping of tables, computed columns or aggregates has two keys of one text, one of
which is not a text. -/
theorem namesUnique_iff_keysApart (hroot : root.DistinctKeys)
    (h : Schema.ofValue root = .ok (version, tables)) :
    (∀ t ∈ tables, t.columns.Nodup ∧ ∀ c ∈ t.computed, c.name ∉ t.columns) ∧
      (NamesUnique tables ↔ KeysApart (root.entries "tables") ∧ ∀ member ∈ root.entries "tables",
        KeysApart (member.2.entries Section.computed.name) ∧
          KeysApart (member.2.entries Section.aggregates.name)) := by
  obtain ⟨hkeys, hvalues⟩ := hroot.entries "tables"
  have hread := forall₂_readFrom_of_ofRoot h
  have hparts := (List.forall₂_and_left _ _).2 ⟨hvalues, hread⟩
  refine ⟨columns_of_ofRoot h, ?_⟩
  have hnames : (tables.map TableSchema.name).Nodup ↔ KeysApart (root.entries "tables") := by
    refine nodup_iff_keysApart hkeys ?_
    rw [List.map_map]
    exact (forall₂_map_eq hread fun _ _ hmember => hmember.1).symm
  have hcolumns :
      (∀ member ∈ root.entries "tables", KeysApart (member.2.entries Section.computed.name)) ↔
        ∀ t ∈ tables, t.allColumns.Nodup :=
    forall_mem_iff_of_forall₂ hparts fun _ _ ⟨hvalue, _, ht⟩ =>
      (ht.allColumns_nodup_iff hvalue).symm
  have haggregates :
      (∀ member ∈ root.entries "tables", KeysApart (member.2.entries Section.aggregates.name)) ↔
        ∀ t ∈ tables, (t.aggregates.map AggregateDefinition.name).Nodup :=
    forall_mem_iff_of_forall₂ hparts fun _ _ ⟨hvalue, _, ht⟩ =>
      (ht.aggregates_nodup_iff hvalue).symm
  rw [← hnames]
  constructor
  · rintro ⟨hn, hc, ha⟩
    exact ⟨hn, fun member hm => ⟨hcolumns.2 hc member hm, haggregates.2 ha member hm⟩⟩
  · rintro ⟨hn, hm⟩
    exact ⟨hn, hcolumns.1 fun member h => (hm member h).1,
      haggregates.1 fun member h => (hm member h).2⟩

/-- A front section in which a computed column is named `1` and another `"1"`. -/
def oneAndText : Value :=
  .mapping [(.text "mdxtab", .text "1.0"), (.text "tables", .mapping [(.text "t", .mapping [
    (.text "columns", .sequence [.text "id"]),
    (.text "computed", .mapping [(.number (.integer 1), .text "id"), (.text "1", .text "id")])])])]

/-- The table of `oneAndText`. -/
def oneAndTextTable : TableSchema where
  name := "t"
  columns := ["id"]
  computed := [⟨"1", "id"⟩, ⟨"1", "id"⟩]

theorem distinctKeys_oneAndText : oneAndText.DistinctKeys := by
  simp [oneAndText, Value.DistinctKeys, Value.DistinctKeysOfItems, Value.DistinctKeysOfMembers,
    Value.same]

theorem ofValue_oneAndText : Schema.ofValue oneAndText = .ok ("1.0", [oneAndTextTable]) := by
  cbv

theorem namesUnique_iff_keysApart_oneAndText : oneAndText.DistinctKeys ∧
    Schema.ofValue oneAndText = .ok ("1.0", [oneAndTextTable]) ∧ oneAndTextTable.columns.Nodup ∧
      ¬NamesUnique [oneAndTextTable] := by
  obtain ⟨hcolumns, hunique⟩ := namesUnique_iff_keysApart distinctKeys_oneAndText ofValue_oneAndText
  refine ⟨distinctKeys_oneAndText, ofValue_oneAndText, (hcolumns _ List.mem_cons_self).1,
    fun h => ?_⟩
  have happart := ((hunique.1 h).2 _ List.mem_cons_self).1
  obtain ⟨⟨_, hone⟩, -⟩ := List.rel_of_pairwise_cons happart List.mem_cons_self rfl
  cases hone

/-- Distinct keys alone do not make the names of a schema unique. -/
theorem namesUnique_needs_keysApart :
    ¬∀ (root : Value) (version : String) (tables : List TableSchema), root.DistinctKeys →
    Schema.ofValue root = .ok (version, tables) → NamesUnique tables := fun h =>
  absurd ((h _ _ _ distinctKeys_oneAndText ofValue_oneAndText).columns _ List.mem_cons_self)
    (by decide)

end TableDoc
