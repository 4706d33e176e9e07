import TableDoc.Proofs.Schema.Blocks
import TableDoc.Proofs.Schema.Places
import TableDoc.Yaml.Load

/-!
# Levels of indentation

Going through the lines of a front section in block form, the scan has an invariant at each level:
among the tables, among the parts of a table and among the entries of a part. A line of the level
keeps it, a line of the level above begins it anew, and what the lines declare is placed
(`EntryScan.Records`). So every table and every entry is found on its own line, and no other entry
is found (`Block.Front.located_of_places`).
-/

namespace TableDoc

open Text (Blanks isBlank)

/-! ## Places of declarations -/

namespace EntryMap

variable {m : EntryMap} {d : Declared} {n : Nat} {span : Span}
  {marked : List (Option Declared × List Char)}

/-- The place of a declaration. -/
def place? (m : EntryMap) : Declared → Option Span
  | .table name => m.table? name
  | .entry table part name => m.entry? table part name

/-- Adds the place of a declaration, if there is one. -/
def add (m : EntryMap) (span : Span) : Option Declared → EntryMap
  | none => m
  | some (.table name) => { m with tables := (name, span) :: m.tables }
  | some (.entry table part name) => { m with entries := ((table, part, name), span) :: m.entries }

theorem place?_add_self (m : EntryMap) (span : Span) (d : Declared) :
    (m.add span (some d)).place? d = some span := by
  cases d with
  | table name => exact List.lookup_cons_self
  | entry table part name => exact List.lookup_cons_self

theorem place?_add_of_ne {e : Option Declared} (h : e ≠ some d) :
    (m.add span e).place? d = m.place? d := by
  rcases e with _ | e
  · rfl
  cases e with
  | table other =>
    cases d with
    | entry => rfl
    | table name =>
      have hne : name ≠ other := fun heq => h (by rw [heq])
      rw [add, place?, place?, table?, List.lookup_cons, beq_false_of_ne hne]
      rfl
  | entry table part other =>
    cases d with
    | table => rfl
    | entry table' part' name =>
      have hne : (table', part', name) ≠ (table, part, other) := fun heq => h (by cases heq; rfl)
      rw [add, place?, place?, entry?, List.lookup_cons, beq_false_of_ne hne]
      rfl

/-- Adds the places of what lines declare, of which the first is line `n`. -/
def addLines (m : EntryMap) (n : Nat) (marked : List (Option Declared × List Char)) : EntryMap :=
  (marked.zipIdx n).foldl (fun m (line, i) => m.add (.ofLine i line.2) line.1) m

theorem addLines_append (m : EntryMap) (n : Nat)
    (marked rest : List (Option Declared × List Char)) :
    m.addLines n (marked ++ rest) = (m.addLines n marked).addLines (n + marked.length) rest := by
  rw [addLines, List.zipIdx_append, List.foldl_append]
  rfl

theorem addLines_cons (m : EntryMap) (n : Nat) (line : Option Declared × List Char)
    (rest : List (Option Declared × List Char)) :
    m.addLines n (line :: rest) = (m.add (.ofLine n line.2) line.1).addLines (n + 1) rest :=
  m.addLines_append n [line] rest

theorem place?_addLines_of_notMem (h : d ∉ marked.filterMap Prod.fst) :
    (m.addLines n marked).place? d = m.place? d := by
  induction marked generalizing m n with
  | nil => rfl
  | cons line rest ih =>
    have hline : line.1 ≠ some d :=
      fun heq => h (List.mem_filterMap.2 ⟨line, List.mem_cons_self, heq⟩)
    have hrest : d ∉ rest.filterMap Prod.fst :=
      fun hmem => h ((List.sublist_cons_self _ _).filterMap _ |>.mem hmem)
    rw [addLines_cons, ih hrest, place?_add_of_ne hline]

/-- If nothing is declared twice, then each declaration is placed on its line. -/
theorem place?_addLines (hnodup : (marked.filterMap Prod.fst).Nodup) {i : Nat} {line : List Char}
    (h : marked[i]? = some (some d, line)) :
    (m.addLines n marked).place? d = some (.ofLine (n + i) line) := by
  obtain ⟨before, after, rfl, rfl⟩ : ∃ before after, marked = before ++ (some d, line) :: after ∧
      before.length = i := by
    obtain ⟨hi, hget⟩ := List.getElem?_eq_some_iff.1 h
    refine ⟨marked.take i, marked.drop (i + 1), ?_, List.length_take_of_le hi.le⟩
    rw [← hget, ← List.drop_eq_getElem_cons, List.take_append_drop]
  have hafter : d ∉ after.filterMap Prod.fst := by
    rw [List.filterMap_append] at hnodup
    have hcons : (d :: after.filterMap Prod.fst).Nodup := (List.nodup_append.1 hnodup).2.1
    exact (List.nodup_cons.1 hcons).1
  rw [addLines_append, addLines_cons, place?_addLines_of_notMem hafter, place?_add_self]

end EntryMap

/-! ## Going through the lines -/

namespace EntryScan

open Block (Idle)

variable {s : EntryScan} {a b c n : Nat} {line text key : List Char} {name table : String}
  {part : Option Section} {span : Span}

/-- Takes in lines, of which the first is line `n`. -/
def feedLines (s : EntryScan) (n : Nat) (lines : List (List Char)) : EntryScan :=
  (lines.zipIdx n).foldl (fun s (line, i) => s.feedLine i line) s

theorem feedLines_append (s : EntryScan) (n : Nat) (lines rest : List (List Char)) :
    s.feedLines n (lines ++ rest) = (s.feedLines n lines).feedLines (n + lines.length) rest := by
  rw [feedLines, List.zipIdx_append, List.foldl_append]
  rfl

theorem feedLine_of_idle (h : Idle line) : s.feedLine n line = s := by
  cases h with
  | blank h =>
    have htext : Text.trimStart line = [] := List.dropWhile_eq_nil_iff.2 h
    simp only [feedLine, htext]
    rfl
  | @comment indent text h =>
    have htext : Text.trimStart (indent ++ '#' :: text) = '#' :: text :=
      Text.trimStart_append_cons h (by decide) text
    simp only [feedLine, htext]
    rfl
  | @item indent text h =>
    have htext : Text.trimStart (indent ++ '-' :: text) = '-' :: text :=
      Text.trimStart_append_cons h (by decide) text
    simp only [feedLine, htext]
    rfl

theorem feedLine_keyed (h : Keyed text key) (indent : Nat) :
    s.feedLine n (List.replicate indent ' ' ++ text) =
      s.feed indent (.ofList key) (.ofLine n (List.replicate indent ' ' ++ text)) := by
  obtain ⟨c, hhead, hblank, hmark⟩ := h.head?
  have hspaces : Blanks (List.replicate indent ' ') :=
    fun _ hc => List.eq_of_mem_replicate hc ▸ (by decide)
  have hrest : ∀ c ∈ text.head?, isBlank c = false := by
    rw [hhead]
    intro d hd
    cases hd
    exact hblank
  simp only [feedLine, Text.trimStart_append hspaces hrest, Text.takeWhile_append hspaces hrest,
    h.key?, Text.byteLength_spaces, hhead, Option.some_inj, hmark, if_false]

/-- A line with a key that is not indented opens the tables or leaves them. -/
theorem feedLine_unindented (h : Keyed line key) (s : EntryScan) (n : Nat) :
    s.feedLine n line = { s with inTables := String.ofList key = "tables", table := none } := by
  have hfeed := feedLine_keyed (s := s) (n := n) h 0
  rwa [List.replicate_zero, List.nil_append, feed, if_pos rfl] at hfeed

/-! ## What is known at each level -/

/-- Outside the tables. -/
structure Outside (s : EntryScan) : Prop where
  inTables : s.inTables = false
  table : s.table = none

/-- Among the tables. The first of them sets their level, and so do the first part of a table and
the first entry of a part; until then a level is not known. -/
structure InTables (a : Nat) (s : EntryScan) : Prop where
  inTables : s.inTables = true
  tableIndent : ∀ level ∈ s.tableIndent, level = a

/-- In a table, among its parts. -/
structure InTable (a b : Nat) (table : String) (s : EntryScan) : Prop where
  inTables : s.inTables = true
  tableIndent : s.tableIndent = some a
  table : s.table = some table
  partIndent : ∀ level ∈ s.partIndent, level = b

/-- In a part of a table, among its entries. -/
structure InPart (a b c : Nat) (table : String) (part : Option Section) (s : EntryScan) : Prop where
  inTables : s.inTables = true
  tableIndent : s.tableIndent = some a
  table : s.table = some table
  partIndent : s.partIndent = some b
  part : s.part = part
  entryIndent : ∀ level ∈ s.entryIndent, level = c

theorem InTable.toInTables (h : s.InTable a b table) : s.InTables a where
  inTables := h.inTables
  tableIndent := by
    rw [h.tableIndent]
    intro level hlevel
    exact (Option.some.inj hlevel).symm

theorem InPart.toInTable (h : s.InPart a b c table part) : s.InTable a b table where
  inTables := h.inTables
  tableIndent := h.tableIndent
  table := h.table
  partIndent := by
    rw [h.partIndent]
    intro level hlevel
    exact (Option.some.inj hlevel).symm

theorem getD_of_forall {level? : Option Nat} (h : ∀ level ∈ level?, level = a) :
    level?.getD a = a := by
  cases level? with
  | none => rfl
  | some level => exact h level rfl

/-- The key of a table ends the table before it. -/
theorem feed_table (h : s.InTables a) (ha : 0 < a) : s.feed a name span =
    { s with
      tableIndent := some a, table := some name, partIndent := none, part := none
      found := s.found.add span (some (.table name)) } := by
  rw [feed, if_neg ha.ne', h.inTables]
  simp only [getD_of_forall h.tableIndent, Nat.lt_irrefl, if_true, if_false, Bool.not_true,
    Bool.false_eq_true]
  rfl

/-- The key of a part ends the part before it. -/
theorem feed_part (h : s.InTable a b table) (hab : a < b) : s.feed b name span =
    { s with partIndent := some b, part := Section.ofName? name, entryIndent := none } := by
  have hlevel : s.partIndent.any (· < b) = false := by
    cases hpart : s.partIndent with
    | none => rfl
    | some level => simp [h.partIndent level hpart]
  rw [feed, if_neg (Nat.ne_of_gt (Nat.zero_lt_of_lt hab)), h.inTables]
  simp only [h.tableIndent, Option.getD_some, hab.not_gt, hab.ne', h.table, hlevel, if_false,
    Bool.not_true, Bool.false_eq_true]

/-- The key of an entry is found under the table and the part that it is in. -/
theorem feed_entry (h : s.InPart a b c table part) (hab : a < b) (hbc : b < c) :
    s.feed c name span =
      { s with
        entryIndent := some c
        found := s.found.add span (part.map fun part => .entry table part name) } := by
  have hac : a < c := hab.trans hbc
  rw [feed, if_neg (Nat.ne_of_gt (Nat.zero_lt_of_lt hbc)), h.inTables]
  simp only [h.tableIndent, Option.getD_some, hac.not_gt, hac.ne', h.table, h.partIndent,
    Option.any_some, hbc, decide_true, getD_of_forall h.entryIndent, h.part, if_true, if_false,
    Bool.not_true, Bool.false_eq_true]
  cases part with
  | none => rfl
  | some part => rfl

/-- Outside the tables nothing but their key counts. -/
theorem feedLine_of_outside (hs : s.Outside) (h : ¬ Keyed line "tables".toList) :
    s.feedLine n line = s := by
  rw [feedLine]
  split
  · rfl
  split
  · rfl
  next key hkey =>
  rw [feed]
  split
  · next hindent =>
    rw [Text.trimStart_eq_of_byteLength hindent] at hkey
    have hne := (key?_eq_some_iff.1 hkey).ofList_ne h
    rw [decide_eq_false hne, ← hs.inTables, ← hs.table]
  · rw [hs.inTables]
    rfl

/-! ## Runs -/

/-- From a state with the first property the lines lead to one with the second, and what they
declare is placed. -/
def Records (P Q : EntryScan → Prop) (marked : List (Option Declared × List Char)) : Prop :=
  ∀ s n, P s → Q (s.feedLines n (marked.map Prod.snd)) ∧
    (s.feedLines n (marked.map Prod.snd)).found = s.found.addLines n marked

section
variable {P Q R : EntryScan → Prop} {marked rest : List (Option Declared × List Char)}
  {declared : Option Declared}

theorem records_nil (h : ∀ s, P s → Q s) : Records P Q [] := fun s _ hs => ⟨h s hs, rfl⟩

theorem records_line (h : ∀ s n, P s → Q (s.feedLine n line) ∧
    (s.feedLine n line).found = s.found.add (.ofLine n line) declared) :
    Records P Q [(declared, line)] := h

theorem Records.append (h : Records P Q marked) (h' : Records Q R rest) :
    Records P R (marked ++ rest) := by
  intro s n hs
  obtain ⟨hQ, hfound⟩ := h s n hs
  obtain ⟨hR, hfound'⟩ := h' _ (n + marked.length) hQ
  rw [List.map_append, feedLines_append, List.length_map, EntryMap.addLines_append, ← hfound]
  exact ⟨hR, hfound'⟩

theorem Records.weaken (h : Records P Q marked) (hQ : ∀ {s}, Q s → R s) : Records P R marked :=
  fun s n hs => (h s n hs).imp_left hQ

theorem Records.flatMap {items : List α} {f : α → List (Option Declared × List Char)}
    (h : ∀ item ∈ items, Records P P (f item)) : Records P P (items.flatMap f) := by
  induction items with
  | nil => exact records_nil fun _ hs => hs
  | cons item items ih =>
    obtain ⟨hitem, hitems⟩ := List.forall_mem_cons.1 h
    exact hitem.append (ih hitems)

theorem records_unchanged {lines : List (List Char)}
    (h : ∀ s n, P s → ∀ line ∈ lines, s.feedLine n line = s) :
    Records P P (lines.map (none, ·)) := by
  rw [List.map_eq_flatMap]
  refine Records.flatMap fun line hline => records_line fun s n hs => ?_
  rw [h s n hs line hline]
  exact ⟨hs, rfl⟩

/-- A heading is recorded where its key stands. -/
theorem records_heading {h : Block.Heading} {indent : Nat}
    (hline : ∀ s span, P s → Q (s.feed indent h.name span) ∧
      (s.feed indent h.name span).found = s.found.add span declared) :
      Records P Q (h.marked indent declared) := by
  refine (records_unchanged fun s n _ line hmem => feedLine_of_idle (h.idle line hmem)).append ?_
  refine records_line fun s n hs => ?_
  rw [Block.Heading.line, feedLine_keyed (keyed_of_isWord h.isWord h.opensValue),
    String.ofList_toList]
  exact hline s _ hs

end

/-- The entries of a part are placed on their lines. -/
theorem records_entry (hab : a < b) (hbc : b < c) (entry : Block.Heading) :
    Records (InPart a b c table part) (InPart a b c table part)
      (entry.marked c (part.map fun part => .entry table part entry.name)) := by
  refine records_heading fun s span hs => ?_
  rw [feed_entry hs hab hbc]
  exact ⟨{ hs with entryIndent := fun _ hlevel => (Option.some.inj hlevel).symm }, rfl⟩

theorem records_part (hab : a < b) (p : Block.Part) (hb : b < p.indent) :
    Records (InTable a b table) (InTable a b table) (p.marked table b) := by
  have hheading : Records (InTable a b table) (InPart a b p.indent table (Section.ofName? p.name))
      (p.toHeading.marked b none) := by
    refine records_heading fun s span hs => ?_
    rw [feed_part hs hab]
    exact ⟨{ hs with partIndent := rfl, part := rfl, entryIndent := nofun }, rfl⟩
  -- the heading has forgotten the level of the last part's entries, so these may have their own
  exact (hheading.append (.flatMap fun entry _ => records_entry hab hb entry)).weaken
    InPart.toInTable

/-- A table is placed on its line. -/
theorem records_table (ha : 0 < a) (t : Block.Table) (hat : a < t.indent) :
    Records (InTables a) (InTables a) (t.marked a) := by
  have hheading : Records (InTables a) (InTable a t.indent t.name)
      (t.toHeading.marked a (some (.table t.name))) := by
    refine records_heading fun s span hs => ?_
    rw [feed_table hs ha]
    exact ⟨{ hs with tableIndent := rfl, table := rfl, partIndent := nofun }, rfl⟩
  exact (hheading.append (.flatMap fun part hpart =>
    records_part hat part (t.deeper part hpart))).weaken InTable.toInTables

/-- What follows the tables has no places. -/
theorem records_after {lines : List (List Char)} (h : Block.Outside lines) (a : Nat) :
    Records (InTables a) (fun _ => True) (lines.map (none, ·)) := by
  induction h with
  | nil => exact records_nil fun _ _ => trivial
  | @idle line lines hline _ ih =>
    have hfirst : Records (InTables a) (InTables a) [(none, line)] := by
      refine records_line fun s n hs => ?_
      rw [feedLine_of_idle hline]
      exact ⟨hs, rfl⟩
    exact hfirst.append ih
  | @key line key lines hkey hother =>
    obtain ⟨hline, hlines⟩ := List.forall_mem_cons.1 hother
    have hne := hkey.ofList_ne hline
    have hfirst : Records (InTables a) Outside [(none, line)] := by
      refine records_line fun s n _ => ?_
      rw [feedLine_unindented hkey]
      exact ⟨⟨decide_eq_false hne, rfl⟩, rfl⟩
    exact hfirst.append
      ((records_unchanged fun s n hs line hmem => feedLine_of_outside hs (hlines line hmem)).weaken
        fun _ => trivial)

/-- All tables and entries of a front section are placed on their lines, and nothing else is. -/
theorem records_front (f : Block.Front) :
    Records (fun s => s.Outside ∧ s.tableIndent = none) (fun _ => True) f.marked := by
  have hbefore : Records (fun s => s.Outside ∧ s.tableIndent = none)
      (fun s => s.Outside ∧ s.tableIndent = none) (f.before.map (none, ·)) :=
    records_unchanged fun s n hs line hmem => feedLine_of_outside hs.1 (f.untitled line hmem)
  have hword : Formula.IsWord "tables".toList := by decide
  have hopening : Records (fun s => s.Outside ∧ s.tableIndent = none) (InTables f.indent)
      [(none, "tables".toList ++ ':' :: f.value)] := by
    refine records_line fun s n hs => ?_
    rw [feedLine_unindented (keyed_of_isWord hword f.opensValue), String.ofList_toList]
    refine ⟨⟨decide_eq_true (Eq.refl "tables"), ?_⟩, rfl⟩
    rw [hs.2]
    nofun
  have htables :
      Records (InTables f.indent) (InTables f.indent) (f.tables.flatMap (·.marked f.indent)) :=
    .flatMap fun table hmem => records_table f.indented table (f.deeper table hmem)
  exact (hbefore.append (hopening.append htables)).append (records_after f.outside f.indent)

end EntryScan

/-! ## Places in a front section -/

namespace Block

open EntryScan (Keyed)

/-- The places that are found in a front section. -/
theorem Front.places_ofLines (f : Front) (n : Nat) :
    EntryMap.ofLines n f.lines = EntryMap.addLines {} n f.marked :=
  (EntryScan.records_front f {} n ⟨⟨rfl, rfl⟩, rfl⟩).2

/-- A schema has the tables and the entries of a front section on their own lines, of which the
first is line `n`, and other entries on the line of their table. -/
structure Front.Located (f : Front) (n : Nat) (s : Schema) : Prop where
  table : ∀ {i : Nat} {name line}, f.marked[i]? = some (some (.table name), line) →
    s.tableSpan? name = some (.ofLine (n + i) line)
  entry : ∀ {i : Nat} {table part name line},
    f.marked[i]? = some (some (.entry table part name), line) →
    s.entrySpan? table part name = some (.ofLine (n + i) line)
  other : ∀ {table part name}, (∀ line, (some (.entry table part name), line) ∉ f.marked) →
    s.entrySpan? table part name = s.tableSpan? table

/-- The places that are found in a front section are the lines of its tables and entries, also when
a schema is read from a document with this front section. -/
theorem Front.located_of_places [Yaml.Loader] (f : Front) (s : Schema) :
    (∀ n, s.places = EntryMap.ofLines n f.lines → f.Located n s) ∧
      ∀ d, Schema.ofDocument d = .ok s → d.frontLines s.frontEnd = f.lines → f.Located 1 s := by
  have hlocated (n : Nat) (hs : s.places = EntryMap.ofLines n f.lines) : f.Located n s := by
    rw [f.places_ofLines] at hs
    have hplace {i : Nat} {d : Declared} {line : List Char}
        (h : f.marked[i]? = some (some d, line)) :
          s.places.place? d = some (.ofLine (n + i) line) := by
      rw [hs]
      exact EntryMap.place?_addLines f.nodup_declared h
    refine ⟨fun h => hplace h, fun {i table part name line} h => ?_, fun {table part name} h => ?_⟩
    · have hentry : s.places.entry? table part name = some (.ofLine (n + i) line) := hplace h
      rw [Schema.entrySpan?, hentry]
      rfl
    · have hnot : Declared.entry table part name ∉ f.marked.filterMap Prod.fst := by
        intro hmem
        obtain ⟨⟨_, line⟩, hline, rfl⟩ := List.mem_filterMap.1 hmem
        exact h line hline
      have hentry : s.places.entry? table part name = none := by
        rw [hs]
        exact EntryMap.place?_addLines_of_notMem hnot
      rw [Schema.entrySpan?, hentry]
      rfl
  refine ⟨hlocated, fun d hd hlines => hlocated 1 ?_⟩
  rw [(Schema.places_of_ofDocument hd).2, hlines]

/-- A front section with two tables, whose parts and entries have different indentations, and a part
that is not in block form. -/
def rates : Front where
  before := ["mdxtab: '1.0'".toList]
  value := []
  indent := 2
  tables := [
    { above := [], name := "rates", value := [], idle := nofun, isWord := by decide,
      opensValue := nofun, indent := 4, deeper := by simp, nodup := by decide,
      parts := [
        { above := [], name := "columns", value := [], idle := nofun, isWord := by decide,
          opensValue := nofun, indent := 5, entries := [], nodup := .nil },
        { above := ["    - rate".toList], name := "types", value := [], isWord := by decide,
          opensValue := nofun, idle :=
            List.forall_mem_singleton.2 (.item (by decide : Blanks "    ".toList)),
          indent := 10, nodup := by decide,
          entries := [
            { above := [], name := "rate", value := " number".toList, idle := nofun,
              isWord := by decide, opensValue := by decide }] }] },
    { above := ["".toList, "# nets".toList], name := "nets", value := [], isWord := by decide,
      opensValue := nofun, idle :=
        List.forall_mem_cons.2 ⟨.blank nofun,
          List.forall_mem_singleton.2 (.comment (nofun : Blanks []))⟩,
      indent := 6, deeper := by simp, nodup := by decide,
      parts := [
        { above := [], name := "types", value := " \x7bnet: number\x7d".toList, idle := nofun,
          isWord := by decide, opensValue := by decide, indent := 7, entries := [], nodup := .nil },
        { above := [], name := "aggregates", value := [], idle := nofun, isWord := by decide,
          opensValue := nofun, indent := 8, nodup := by decide,
          entries := [
            { above := [], name := "total", value := " sum(net)".toList, idle := nofun,
              isWord := by decide, opensValue := by decide }] }] }]
  after := ["title: x".toList]
  untitled := by
    refine List.forall_mem_singleton.2 fun h => ?_
    exact absurd h.key? (by decide)
  opensValue := nofun
  indented := by decide
  deeper := by simp
  nodup := by decide
  outside := by
    have hkeyed : Keyed "title: x".toList "title".toList := EntryScan.key?_eq_some_iff.1 (by decide)
    refine .key hkeyed (List.forall_mem_singleton.2 fun h => ?_)
    exact absurd h.key? (by decide)

theorem Front.located_of_places_rates :
    rates.lines = ["mdxtab: '1.0'", "tables:", "  rates:", "    columns:", "    - rate",
      "    types:", "          rate: number", "", "# nets", "  nets:",
        "      types: \x7bnet: number\x7d",
      "      aggregates:", "        total: sum(net)", "title: x"].map String.toList ∧
    ∀ s : Schema, s.places = EntryMap.ofLines 1 rates.lines →
      s.tableSpan? "rates" = some (.within 3 0 8) ∧
      s.entrySpan? "rates" .types "rate" = some (.within 7 0 22) ∧
      s.tableSpan? "nets" = some (.within 10 0 7) ∧
      s.entrySpan? "nets" .aggregates "total" = some (.within 13 0 23) ∧
      s.entrySpan? "nets" .types "net" = some (.within 10 0 7) := by
  refine ⟨by rfl, fun s hs => ?_⟩
  have hlocated := (rates.located_of_places s).1 1 hs
  have hnets : s.tableSpan? "nets" = some (.within 10 0 7) := hlocated.table (i := 9) rfl
  have hnet : s.entrySpan? "nets" .types "net" = s.tableSpan? "nets" := by
    apply hlocated.other
    intro line hmem
    have hdeclared : Declared.entry "nets" .types "net" ∈ rates.marked.filterMap Prod.fst :=
      List.mem_filterMap.2 ⟨_, hmem, rfl⟩
    exact absurd hdeclared (by decide)
  exact ⟨hlocated.table (i := 2) rfl, hlocated.entry (i := 6) rfl, hnets,
    hlocated.entry (i := 12) rfl, hnet.trans hnets⟩

end Block

end TableDoc
