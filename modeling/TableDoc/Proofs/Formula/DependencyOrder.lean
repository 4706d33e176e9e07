import Mathlib.Data.List.Chain
import Mathlib.Data.List.Nodup
import Mathlib.Logic.Relation
import TableDoc.Formula.Dependency

/-!
# Dependency order

What the search for an order of the defined names finds. Names that are placed stand after all that
they read (`Ordered`), and only names that are free are placed (`place_ok`). The names that are
being placed read each other in turn (`Search`), so meeting one of them again shows a cycle
(`place_error`). Hence an order is found just if there is no cycle (`build_correct`).
-/

namespace TableDoc.Formula.Dependencies

variable {readings : List Reading} {free stack order order' names : List String} {name : String}

/-! ## Names that are placed -/

/-- Every name in the order stands after all that it reads. -/
def Ordered (readings : List Reading) (order : List String) : Prop :=
  ∀ before name after, order = before ++ name :: after →
    ∀ read ∈ readBy readings name, read ∈ before

/-- A name can be put behind all that it reads. -/
theorem Ordered.concat (h : Ordered readings order)
    (hname : ∀ read ∈ readBy readings name, read ∈ order) :
    Ordered readings (order ++ [name]) := by
  intro before other after he read hread
  rcases List.append_eq_append_iff.1 he with ⟨as, rfl, has⟩ | ⟨bs, rfl, hbs⟩
  · rcases List.singleton_eq_append_iff.1 has with ⟨rfl, hcons⟩ | ⟨-, hcons⟩
    · cases hcons
      rw [List.append_nil]
      exact hname read hread
    · cases hcons
  · cases bs with
    | nil =>
      cases hbs
      rw [List.append_nil] at hname
      exact hname read hread
    | cons _ bs =>
      cases hbs
      exact h before other bs rfl read hread

/-- How an order grows when names are placed, of which at most those in `free` are new. -/
structure Placed (readings : List Reading) (free order order' : List String) : Prop where
  grows : order <+: order'
  mem : ∀ name ∈ order', name ∈ order ∨ name ∈ free
  nodup : order.Nodup → order'.Nodup
  ordered : Ordered readings order → Ordered readings order'

theorem Placed.refl (readings : List Reading) (free order : List String) :
    Placed readings free order order :=
  ⟨List.prefix_rfl, fun _ => .inl, id, id⟩

theorem Placed.trans {order'' : List String} (h : Placed readings free order order')
    (h' : Placed readings free order' order'') : Placed readings free order order'' where
  grows := h.grows.trans h'.grows
  mem name hn := (h'.mem name hn).elim (h.mem name) .inr
  nodup hn := h'.nodup (h.nodup hn)
  ordered ho := h'.ordered (h.ordered ho)

theorem Placed.concat (h : Placed readings (free.filter (· ≠ name)) order order')
    (hfree : name ∈ free) (hname : name ∉ order)
    (hread : ∀ read ∈ readBy readings name, read ∈ order') :
    Placed readings free order (order' ++ [name]) where
  grows := h.grows.trans (List.prefix_append _ _)
  mem other ho := by
    rcases List.mem_append.1 ho with ho | ho
    · exact (h.mem other ho).imp_right List.mem_of_mem_filter
    · exact .inr (List.mem_singleton.1 ho ▸ hfree)
  nodup hn := by
    refine List.nodup_append.2 ⟨h.nodup hn, by simp, ?_⟩
    rintro other ho _ hs rfl
    rw [List.mem_singleton] at hs
    subst hs
    rcases h.mem other ho with ho | ho
    · exact hname ho
    · simp at ho
  ordered ho := (h.ordered ho).concat hread

/-- What is placed comes behind all that it reads, and nothing placed before is moved. -/
theorem place_ok (readings : List Reading) :
    (∀ free stack order name order', place readings free stack order name = .ok order' →
      Placed readings free order order' ∧ name ∈ order') ∧
    ∀ free stack order names order', placeAll readings free stack order names = .ok order' →
      Placed readings free order order' ∧ ∀ name ∈ names, name ∈ order' := by
  apply place.mutual_induct readings
    (fun free stack order name => ∀ order', place readings free stack order name = .ok order' →
      Placed readings free order order' ∧ name ∈ order')
    (fun free stack order names => ∀ order', placeAll readings free stack order names = .ok order' →
      Placed readings free order order' ∧ ∀ name ∈ names, name ∈ order')
  case case1 =>
    intro free stack order name hname order' h
    rw [place, if_pos hname] at h
    cases h
    exact ⟨.refl _ _ _, hname⟩
  case case2 =>
    intro free stack order name hname hfree ih order' h
    rw [place, if_neg hname, if_pos hfree] at h
    rcases hp : placeAll readings (free.filter (· ≠ name)) (name :: stack) order
      (readBy readings name) with e | order₁ <;> rw [hp] at h <;> cases h
    obtain ⟨hplaced, hread⟩ := ih order₁ hp
    exact ⟨hplaced.concat hfree hname hread, by simp⟩
  case case3 =>
    intro free stack order name hname hfree order' h
    rw [place, if_neg hname, if_neg hfree] at h
    cases h
  case case4 =>
    intro free stack order order' h
    rw [placeAll] at h
    cases h
    exact ⟨.refl _ _ _, nofun⟩
  case case5 =>
    intro free stack order name names ih ih' order' h
    rw [placeAll] at h
    rcases hp : place readings free stack order name with e | order₁ <;> rw [hp] at h
    · cases h
    obtain ⟨hplaced, hname⟩ := ih order₁ hp
    obtain ⟨hplaced', hnames⟩ := ih' order₁ order' h
    exact ⟨hplaced.trans hplaced', List.forall_mem_cons.2 ⟨hplaced'.grows.subset hname, hnames⟩⟩

/-! ## Names that are met again -/

/-- The path goes from a name over what it reads back to the name. -/
structure Cyclic (readings : List Reading) (path : List String) : Prop where
  two_le : 2 ≤ path.length
  closed : path.head? = path.getLast?
  chain : path.IsChain fun x y => y ∈ readBy readings x

/-- A point of the search: every name is placed, being placed or free, and each name that is being
placed is read by the next outer one. -/
structure Search (readings : List Reading) (names free stack order : List String) : Prop where
  covered : ∀ name ∈ names, name ∈ order ∨ name ∈ free ∨ name ∈ stack
  chain : stack.IsChain fun x y => x ∈ readBy readings y

theorem Search.of_subset (h : Search readings names free stack order) (ho : order ⊆ order') :
    Search readings names free stack order' :=
  { h with covered := fun name hn => (h.covered name hn).imp_left fun hm => ho hm }

/-- The names that a free name reads are placed before it. -/
theorem Search.push (h : Search readings names free stack order)
    (htop : ∀ top ∈ stack.head?, name ∈ readBy readings top) :
    Search readings names (free.filter (· ≠ name)) (name :: stack) order where
  covered other ho := by
    refine (h.covered other ho).imp_right fun hm => ?_
    by_cases hn : other = name
    · exact .inr (hn ▸ List.mem_cons_self)
    · exact hm.imp (fun hf => List.mem_filter.2 ⟨hf, by simpa using hn⟩) (List.mem_cons_of_mem _)
  chain := List.isChain_cons.2 ⟨htop, h.chain⟩

theorem exists_takeWhile_append (h : name ∈ stack) :
    ∃ rest, stack = stack.takeWhile (· ≠ name) ++ name :: rest := by
  induction stack with
  | nil => cases h
  | cons top stack ih =>
    by_cases ht : top = name
    · exact ⟨stack, by simp [ht]⟩
    · obtain ⟨rest, hrest⟩ := ih ((List.mem_cons.1 h).resolve_left (Ne.symm ht))
      refine ⟨rest, ?_⟩
      rw [List.takeWhile_cons_of_pos (by simpa using ht), List.cons_append, ← hrest]

/-- A name that is met again while it is being placed closes a circle. -/
theorem Search.cyclic (h : Search readings names free stack order)
    (htop : ∀ top ∈ stack.head?, name ∈ readBy readings top) (hstack : name ∈ stack) :
    Cyclic readings (name :: (stack.takeWhile (· ≠ name)).reverse ++ [name]) where
  two_le := by simp
  closed := by rw [List.getLast?_concat]; rfl
  chain := by
    obtain ⟨rest, hrest⟩ := exists_takeWhile_append hstack
    have hchain : (name :: stack).IsChain fun x y => x ∈ readBy readings y :=
      List.isChain_cons.2 ⟨htop, h.chain⟩
    rw [hrest, List.append_cons, ← List.cons_append] at hchain
    rw [← List.isChain_reverse]
    simpa using (List.isChain_append.1 hchain).1

/-- Placing only fails on a circle of readings, and reports it. -/
theorem place_error (readings : List Reading) (names : List String)
    (hnames : ∀ x y, y ∈ readBy readings x → y ∈ names) :
    (∀ free stack order name e, place readings free stack order name = .error e →
      Search readings names free stack order → name ∈ names →
      (∀ top ∈ stack.head?, name ∈ readBy readings top) →
      ∃ path, e = .cycle path ∧ Cyclic readings path) ∧
    ∀ free stack order visits e, placeAll readings free stack order visits = .error e →
      Search readings names free stack order →
      (∀ name ∈ visits, name ∈ names ∧ ∀ top ∈ stack.head?, name ∈ readBy readings top) →
      ∃ path, e = .cycle path ∧ Cyclic readings path := by
  apply place.mutual_induct readings
    (fun free stack order name => ∀ e, place readings free stack order name = .error e →
      Search readings names free stack order → name ∈ names →
      (∀ top ∈ stack.head?, name ∈ readBy readings top) →
      ∃ path, e = .cycle path ∧ Cyclic readings path)
    (fun free stack order visits => ∀ e, placeAll readings free stack order visits = .error e →
      Search readings names free stack order →
      (∀ name ∈ visits, name ∈ names ∧ ∀ top ∈ stack.head?, name ∈ readBy readings top) →
      ∃ path, e = .cycle path ∧ Cyclic readings path)
  case case1 =>
    intro free stack order name hname e h
    rw [place, if_pos hname] at h
    cases h
  case case2 =>
    intro free stack order name hname hfree ih e h hs hn htop
    rw [place, if_neg hname, if_pos hfree] at h
    rcases hp : placeAll readings (free.filter (· ≠ name)) (name :: stack) order
      (readBy readings name) with e₁ | order₁ <;> rw [hp] at h <;> cases h
    refine ih e hp (hs.push htop) fun read hread => ⟨hnames name read hread, ?_⟩
    rintro _ ⟨⟩
    exact hread
  case case3 =>
    intro free stack order name hname hfree e h hs hn htop
    rw [place, if_neg hname, if_neg hfree] at h
    cases h
    have hstack := ((hs.covered name hn).resolve_left hname).resolve_left hfree
    exact ⟨_, rfl, hs.cyclic htop hstack⟩
  case case4 =>
    intro free stack order e h
    rw [placeAll] at h
    cases h
  case case5 =>
    intro free stack order name visits ih ih' e h hs hv
    rw [placeAll] at h
    obtain ⟨hname, hvisits⟩ := List.forall_mem_cons.1 hv
    rcases hp : place readings free stack order name with e₁ | order₁ <;> rw [hp] at h
    · cases h
      exact ih e hp hs hname.1 hname.2
    · have hgrows := ((place_ok readings).1 free stack order name order₁ hp).1.grows
      exact ih' order₁ e h (hs.of_subset hgrows.subset) hvisits

/-! ## Definitions -/

/-- The definition of `x` refers to `y`, which is defined as well. -/
def Reads (definitions : List Definition) (x y : String) : Prop :=
  ∃ d ∈ definitions, d.name = x ∧
    (∃ refs, d.formula.references = .ok refs ∧ y ∈ refs) ∧ y ∈ definitions.map Definition.name

/-- No name reads itself, neither directly nor over other names. -/
def Acyclic (definitions : List Definition) : Prop :=
  ∀ x, ¬ Relation.TransGen (Reads definitions) x x

variable {definitions : List Definition} {x y : String}

theorem mem_readBy (hn : (readings.map Reading.name).Nodup) :
    y ∈ readBy readings x ↔ ∃ r ∈ readings, r.name = x ∧ y ∈ r.reads := by
  rw [readBy]
  constructor
  · intro h
    rcases hf : readings.reverse.find? (·.name = x) with _ | r <;> rw [hf] at h
    · cases h
    · exact ⟨r, List.mem_reverse.1 (List.mem_of_find?_eq_some hf),
        by simpa using List.find?_some hf, h⟩
  · rintro ⟨r, hr, rfl, hy⟩
    rcases hf : readings.reverse.find? (·.name = r.name) with _ | r'
    · exact absurd (decide_eq_true rfl) (List.find?_eq_none.1 hf r (List.mem_reverse.2 hr))
    · have hr' := List.mem_reverse.1 (List.mem_of_find?_eq_some hf)
      have hname : r'.name = r.name := by simpa using List.find?_some hf
      cases List.inj_on_of_nodup_map hn hr' hr hname
      rw [hf]
      exact hy

theorem readingOf_eq_ok {d : Definition} {r : Reading} (h : readingOf names d = .ok r) :
    r.name = d.name ∧
    ∀ y, y ∈ r.reads ↔ (∃ refs, d.formula.references = .ok refs ∧ y ∈ refs) ∧ y ∈ names := by
  rw [readingOf] at h
  rcases hrefs : d.formula.references with e | refs <;> rw [hrefs] at h <;> cases h
  simp

theorem mapM_readingOf (names : List String)
    (h : ∀ d ∈ definitions, ∃ refs, d.formula.references = .ok refs) :
    ∃ readings, definitions.mapM (readingOf names) = .ok readings ∧
      readings.map Reading.name = definitions.map Definition.name ∧
      ∀ r, r ∈ readings ↔ ∃ d ∈ definitions, readingOf names d = .ok r := by
  induction definitions with
  | nil => exact ⟨[], rfl, rfl, by simp⟩
  | cons d ds ih =>
    obtain ⟨⟨refs, hrefs⟩, hds⟩ := List.forall_mem_cons.1 h
    obtain ⟨readings, hr, hnames, hmem⟩ := ih hds
    have hd : ∃ first, readingOf names d = .ok first := by
      rw [readingOf, hrefs]
      exact ⟨_, rfl⟩
    obtain ⟨first, hd⟩ := hd
    refine ⟨first :: readings, ?_, ?_, fun r => ?_⟩
    · rw [List.mapM_cons, hr, hd]
      rfl
    · rw [List.map_cons, List.map_cons, hnames, (readingOf_eq_ok hd).1]
    · rw [List.mem_cons, hmem]
      simp only [List.mem_cons, exists_eq_or_imp, hd, Except.ok.injEq, @eq_comm _ first]

/-- The definitions can be searched: every name is defined once, and all aggregates are well formed.
-/
structure WellFormed (definitions : List Definition) : Prop where
  nodup : (definitions.map Definition.name).Nodup
  references : ∀ d ∈ definitions, ∃ refs, d.formula.references = .ok refs

theorem exists_readings (h : WellFormed definitions) :
    ∃ readings, definitions.mapM (readingOf (definitions.map Definition.name)) = .ok readings ∧
      (∀ x y, y ∈ readBy readings x ↔ Reads definitions x y) ∧
      ∀ x y, (∃ r ∈ readings, r.name = x ∧ y ∈ r.reads) ↔ Reads definitions x y := by
  obtain ⟨readings, hr, hnames, hmem⟩ :=
    mapM_readingOf (definitions.map Definition.name) h.references
  have hreads : ∀ x y, (∃ r ∈ readings, r.name = x ∧ y ∈ r.reads) ↔ Reads definitions x y := by
    intro x y
    constructor
    · rintro ⟨r, hm, rfl, hy⟩
      obtain ⟨d, hd, hdr⟩ := (hmem r).1 hm
      obtain ⟨hname, hiff⟩ := readingOf_eq_ok hdr
      exact ⟨d, hd, hname.symm, (hiff y).1 hy⟩
    · rintro ⟨d, hd, rfl, hy⟩
      have hdr : ∃ r, readingOf (definitions.map Definition.name) d = .ok r := by
        obtain ⟨refs, hrefs⟩ := h.references d hd
        rw [readingOf, hrefs]
        exact ⟨_, rfl⟩
      obtain ⟨r, hdr⟩ := hdr
      obtain ⟨hname, hiff⟩ := readingOf_eq_ok hdr
      exact ⟨r, (hmem r).2 ⟨d, hd, hdr⟩, hname, (hiff y).2 hy⟩
  have hn : (readings.map Reading.name).Nodup := hnames ▸ h.nodup
  exact ⟨readings, hr, fun x y => (mem_readBy hn).trans (hreads x y), hreads⟩

theorem mem_edges {found : Dependencies} :
    (x, y) ∈ found.edges ↔ ∃ r ∈ found.readings, r.name = y ∧ x ∈ r.reads := by
  simp only [edges, List.mem_flatMap, List.mem_map, Prod.mk.injEq]
  constructor
  · rintro ⟨r, hr, _, hx, rfl, rfl⟩
    exact ⟨r, hr, rfl, hx⟩
  · rintro ⟨r, hr, rfl, hx⟩
    exact ⟨r, hr, x, hx, rfl, rfl⟩

theorem mem_dependents {found : Dependencies} : y ∈ found.dependents x ↔ (x, y) ∈ found.edges := by
  simp only [dependents, List.mem_map, List.mem_filter, decide_eq_true_iff]
  constructor
  · rintro ⟨⟨_, _⟩, ⟨he, rfl⟩, rfl⟩
    exact he
  · exact fun he => ⟨_, ⟨he, rfl⟩, rfl⟩

/-! ## Orders and cycles -/

/-- In the order a name comes after each name that it reads. -/
theorem Ordered.idxOf_lt (h : Ordered readings order) (hx : x ∈ order)
    (hy : y ∈ readBy readings x) :
    order.idxOf y < order.idxOf x := by
  obtain ⟨before, after, rfl, hbefore⟩ := List.eq_append_cons_of_mem hx
  have hmem := h before x after rfl y hy
  rw [List.idxOf_append_of_mem hmem, List.idxOf_append_of_notMem hbefore, List.idxOf_cons_self]
  exact List.idxOf_lt_length_of_mem hmem

theorem Ordered.sublist (h : Ordered readings order) (hx : x ∈ order) (hy : y ∈ readBy readings x) :
    [y, x].Sublist order := by
  obtain ⟨before, after, rfl⟩ := List.append_of_mem hx
  have hmem := h before x after rfl y hy
  exact (List.singleton_sublist.2 hmem).append (List.singleton_sublist.2 List.mem_cons_self)

/-- Where all names can be ordered, none reads itself. -/
theorem Ordered.acyclic (h : Ordered readings order)
    (hreads : ∀ x y, y ∈ readBy readings x ↔ Reads definitions x y)
    (hall : ∀ x ∈ definitions.map Definition.name, x ∈ order) : Acyclic definitions := by
  have hstep {x y : String} (hxy : Reads definitions x y) : order.idxOf y < order.idxOf x := by
    obtain ⟨d, hd, hx, -⟩ := id hxy
    exact h.idxOf_lt (hall x (hx ▸ List.mem_map_of_mem hd)) ((hreads x y).2 hxy)
  have hchain {x y : String} (hxy : Relation.TransGen (Reads definitions) x y) :
      order.idxOf y < order.idxOf x := by
    induction hxy with
    | single hxy => exact hstep hxy
    | tail _ hxy ih => exact Nat.lt_trans (hstep hxy) ih
  exact fun x hx => Nat.lt_irrefl _ (hchain hx)

/-- A path that comes back to where it starts shows that a name reads itself. -/
theorem Cyclic.not_acyclic {path : List String} (h : Cyclic readings path)
    (hreads : ∀ x y, y ∈ readBy readings x ↔ Reads definitions x y) : ¬ Acyclic definitions := by
  obtain ⟨htwo, hclosed, hchain⟩ := h
  match path with
  | x :: y :: rest =>
    intro hacyclic
    obtain ⟨hxy, hrest⟩ := List.isChain_cons_cons.1 (hchain.imp fun x y => (hreads x y).1)
    have hback : Relation.ReflTransGen (Reads definitions) y x := by
      refine List.relationReflTransGen_of_exists_isChain_cons rest hrest ?_
      rw [List.head?_cons, List.getLast?_cons_cons,
        List.getLast?_eq_some_getLast (List.cons_ne_nil _ _)] at hclosed
      exact (Option.some.inj hclosed).symm
    exact hacyclic x (Relation.TransGen.head' hxy hback)

/-- If no name reads itself, every name is placed once, after all that it reads, and what a name
reads is read by it. Otherwise the error shows how a name reads itself. -/
theorem build_correct (h : WellFormed definitions) :
    (Acyclic definitions → ∃ found, build definitions = .ok found ∧
      found.order.Perm (definitions.map Definition.name) ∧
      (∀ x y, (x, y) ∈ found.edges ↔ Reads definitions y x) ∧
      (∀ edge ∈ found.edges, [edge.1, edge.2].Sublist found.order) ∧
      ∀ x y, y ∈ found.dependents x ↔ x ∈ found.precedents y) ∧
    (¬ Acyclic definitions → ∃ path, build definitions = .error (.cycle path) ∧
      2 ≤ path.length ∧ path.head? = path.getLast? ∧ path.IsChain (Reads definitions)) := by
  obtain ⟨readings, hr, hreads, hlisted⟩ := exists_readings h
  have hbuild : build definitions =
      placeAll readings (definitions.map Definition.name) [] []
        (definitions.map Definition.name) >>= fun order => .ok ⟨readings, order⟩ := by
    rw [build, hr]
    rfl
  rcases hp : placeAll readings (definitions.map Definition.name) [] []
    (definitions.map Definition.name) with e | order <;> rw [hp] at hbuild
  · have hnames : ∀ x y, y ∈ readBy readings x → y ∈ definitions.map Definition.name :=
      fun x y hy => ((hreads x y).1 hy).elim fun _ hd => hd.2.2.2
    obtain ⟨path, rfl, hcyclic⟩ := (place_error readings _ hnames).2 _ _ _ _ e hp
      ⟨fun name hn => .inr (.inl hn), .nil⟩ fun name hn => ⟨hn, nofun⟩
    refine ⟨fun hacyclic => absurd hacyclic (hcyclic.not_acyclic hreads),
      fun _ => ⟨path, hbuild, ?_⟩⟩
    exact ⟨hcyclic.two_le, hcyclic.closed, hcyclic.chain.imp fun x y => (hreads x y).1⟩
  · obtain ⟨hplaced, hall⟩ := (place_ok readings).2 _ _ _ _ order hp
    have hordered : Ordered readings order := hplaced.ordered fun before name after he => by
      simp at he
    refine ⟨fun _ => ⟨_, hbuild, ?_, ?_, ?_, ?_⟩,
      fun hcyclic => absurd (hordered.acyclic hreads hall) hcyclic⟩
    · refine (List.perm_ext_iff_of_nodup (hplaced.nodup .nil) h.nodup).2 fun name =>
        ⟨fun hn => ?_, hall name⟩
      exact (hplaced.mem name hn).resolve_left nofun
    · exact fun x y => mem_edges.trans (hlisted y x)
    · rintro ⟨x, y⟩ he
      have hxy := (hlisted y x).1 (mem_edges.1 he)
      obtain ⟨d, hd, hname, -⟩ := id hxy
      exact hordered.sublist (hall y (hname ▸ List.mem_map_of_mem hd)) ((hreads y x).2 hxy)
    · exact fun x y =>
        (mem_dependents.trans mem_edges).trans ((hlisted y x).trans (hreads y x).symm)

theorem build_straight_and_loop :
    let straight : List Definition := [⟨"b", .identifier "a"⟩, ⟨"a", .text "x"⟩]
    let loop : List Definition := [⟨"a", .identifier "b"⟩, ⟨"b", .unary .negate (.identifier "a")⟩]
    (WellFormed straight ∧ Acyclic straight ∧ ∃ found, build straight = .ok found ∧
      ("a", "b") ∈ found.edges ∧ found.order.Perm ["b", "a"]) ∧
    (WellFormed loop ∧ ¬ Acyclic loop ∧ ∃ path, build loop = .error (.cycle path) ∧
      2 ≤ path.length) := by
  intro straight loop
  constructor
  · have hwell : WellFormed straight :=
      ⟨by decide, List.forall_mem_cons.2 ⟨⟨_, rfl⟩, List.forall_mem_cons.2 ⟨⟨_, rfl⟩, nofun⟩⟩⟩
    have hreads {x y : String} (h : Reads straight x y) : x = "b" ∧ y = "a" := by
      obtain ⟨d, hd, rfl, ⟨refs, hrefs, hy⟩, -⟩ := h
      rcases List.mem_pair.1 hd with rfl | rfl <;> cases hrefs
      · exact ⟨rfl, List.mem_singleton.1 hy⟩
      · cases hy
    have hacyclic : Acyclic straight := by
      intro x hx
      obtain ⟨_, hfirst, -⟩ := Relation.TransGen.head'_iff.1 hx
      obtain ⟨_, -, hlast⟩ := Relation.TransGen.tail'_iff.1 hx
      exact absurd ((hreads hfirst).1.symm.trans (hreads hlast).2) (by decide)
    have hba : Reads straight "b" "a" :=
      ⟨_, List.mem_cons_self, rfl, ⟨["a"], rfl, List.mem_cons_self⟩, by decide⟩
    obtain ⟨found, hbuild, hperm, hedges, -⟩ := (build_correct hwell).1 hacyclic
    exact ⟨hwell, hacyclic, found, hbuild, (hedges "a" "b").2 hba, hperm⟩
  · have hwell : WellFormed loop :=
      ⟨by decide, List.forall_mem_cons.2 ⟨⟨_, rfl⟩, List.forall_mem_cons.2 ⟨⟨_, rfl⟩, nofun⟩⟩⟩
    have hab : Reads loop "a" "b" :=
      ⟨_, List.mem_cons_self, rfl, ⟨["b"], rfl, List.mem_cons_self⟩, by decide⟩
    have hba : Reads loop "b" "a" :=
      ⟨_, List.mem_cons_of_mem _ List.mem_cons_self, rfl, ⟨["a"], rfl, List.mem_cons_self⟩,
        by decide⟩
    have hcyclic : ¬ Acyclic loop := fun h => h "a" (.tail (.single hab) hba)
    obtain ⟨path, hbuild, htwo, -⟩ := (build_correct hwell).2 hcyclic
    exact ⟨hwell, hcyclic, path, hbuild, htwo⟩

end TableDoc.Formula.Dependencies
