import TableDoc.Proofs.Formula.DependencyOrder
import TableDoc.Proofs.Sequence

/-!
# Definitions in an order in which they can be computed

Definitions are `Arranged` if none reads its own name or that of a later one. An order that is found
for definitions of different names arranges them (`arranged_of_build`), and whether one is found
does not depend on the order in which they are declared (`exists_build_iff_of_perm`).
-/

namespace TableDoc.Formula.Dependencies

variable {definitions definitions' ds : List Definition} {d : Definition} {found : Dependencies}
  {readings : List Reading}

/-- The names are different, and every formula reads, of these names, only those of earlier
definitions. -/
inductive Arranged : List Definition → Prop
  | nil : Arranged []
  | cons {d : Definition} {ds : List Definition} {refs : List String} :
    d.formula.references = .ok refs →
    (∀ name ∈ refs, name ∉ (d :: ds).map Definition.name) → d.name ∉ ds.map Definition.name →
    Arranged ds → Arranged (d :: ds)

/-- It is enough to look at each definition with those that come after it. -/
theorem arranged_of_forall (hn : (ds.map Definition.name).Nodup)
    (h : ∀ before d after, ds = before ++ d :: after → ∃ refs, d.formula.references = .ok refs ∧
      ∀ name ∈ refs, name ∉ (d :: after).map Definition.name) : Arranged ds := by
  induction ds with
  | nil => exact .nil
  | cons d ds ih =>
    obtain ⟨hname, hn⟩ := List.nodup_cons.1 hn
    obtain ⟨refs, hrefs, hlater⟩ := h [] d ds rfl
    exact .cons hrefs hlater hname
      (ih hn fun before e after he => h (d :: before) e after (by rw [he]; rfl))

/-! ## Definitions in an order that is found -/

/-- Definitions that have an order are well-formed. -/
theorem WellFormed.of_build (hn : (definitions.map Definition.name).Nodup)
    (h : build definitions = .ok found) : WellFormed definitions := by
  rw [build] at h
  obtain ⟨readings, hr, -⟩ := bind_eq_ok_iff.1 h
  refine ⟨hn, fun d hd => ?_⟩
  obtain ⟨i, hi⟩ := List.mem_iff_getElem?.1 hd
  obtain ⟨r, -, hr⟩ := exists_getElem?_of_forall₂ (forall₂_of_mapM_ok hr) hi
  rw [readingOf] at hr
  obtain ⟨refs, hrefs, -⟩ := bind_eq_ok_iff.1 hr
  exact ⟨refs, hrefs⟩

/-- The order has all names, each after those that it reads. -/
theorem ordered_of_build (h : WellFormed definitions) (hb : build definitions = .ok found) :
    found.order.Perm (definitions.map Definition.name) ∧ ∃ readings, Ordered readings found.order ∧
      ∀ x y, y ∈ readBy readings x ↔ Reads definitions x y := by
  obtain ⟨readings, hr, hreads, -⟩ := exists_readings h
  rw [build, hr] at hb
  obtain ⟨_, hreadings, hb⟩ := bind_eq_ok_iff.1 hb
  cases hreadings
  obtain ⟨order, horder, hb⟩ := bind_eq_ok_iff.1 hb
  cases hb
  obtain ⟨hplaced, hall⟩ := (place_ok readings).2 _ _ _ _ order horder
  refine ⟨?_, readings, hplaced.ordered fun before name after he => by simp at he, hreads⟩
  refine (List.perm_ext_iff_of_nodup (hplaced.nodup .nil) h.nodup).2 fun name =>
    ⟨fun hn => ?_, hall name⟩
  exact (hplaced.mem name hn).resolve_left List.not_mem_nil

/-- The order that is built puts every definition after those that it reads. -/
theorem arranged_of_build (h : WellFormed definitions) (hb : build definitions = .ok found)
    (hp : ds.Perm definitions) (ho : ds.map Definition.name = found.order) : Arranged ds := by
  obtain ⟨-, readings, hordered, hreads⟩ := ordered_of_build h hb
  have hn : (ds.map Definition.name).Nodup := ((hp.map Definition.name).nodup_iff).2 h.nodup
  refine arranged_of_forall hn fun before d after he => ?_
  have hd : d ∈ definitions := hp.subset (he ▸ by simp)
  obtain ⟨refs, hrefs⟩ := h.references d hd
  refine ⟨refs, hrefs, fun name hname hlater => ?_⟩
  rw [he, List.map_append] at hn
  -- a name that is read is placed before, and so it is not placed again
  have hread : Reads definitions d.name name := by
    refine ⟨d, hd, rfl, ⟨refs, hrefs, hname⟩, (hp.map Definition.name).subset ?_⟩
    rw [he, List.map_append]
    exact List.mem_append_right _ hlater
  have hbefore := hordered (before.map Definition.name) d.name (after.map Definition.name)
    (by rw [← ho, he, List.map_append, List.map_cons]) name ((hreads _ _).2 hread)
  exact (List.nodup_append.1 hn).2.2 _ hbefore _ hlater rfl

/-! ## Whether an order is found -/

/-- Definitions have an order just if no reading goes in a circle. -/
theorem exists_build_iff (h : WellFormed definitions) :
    (∃ found, build definitions = .ok found) ↔ Acyclic definitions := by
  obtain ⟨readings, hr, hreads, -⟩ := exists_readings h
  constructor
  · rintro ⟨found, hb⟩
    obtain ⟨hperm, readings, hordered, hreads⟩ := ordered_of_build h hb
    exact hordered.acyclic hreads fun x hx => hperm.mem_iff.2 hx
  · intro hacyclic
    rw [build, hr]
    rcases hp : placeAll readings (definitions.map Definition.name) [] []
      (definitions.map Definition.name) with e | order
    · have hnames : ∀ x y, y ∈ readBy readings x → y ∈ definitions.map Definition.name :=
        fun x y hy => ((hreads x y).1 hy).elim fun _ hd => hd.2.2.2
      obtain ⟨path, rfl, hcyclic⟩ := (place_error readings _ hnames).2 _ _ _ _ e hp
        ⟨fun name hn => .inr (.inl hn), .nil⟩ fun name hn => ⟨hn, by rintro _ ⟨⟩⟩
      exact absurd hacyclic (hcyclic.not_acyclic hreads)
    · exact ⟨⟨readings, order⟩, by rw [bind_eq_ok_iff]; exact ⟨readings, rfl, by rw [hp]; rfl⟩⟩

theorem WellFormed.of_perm (h : WellFormed definitions) (hp : definitions.Perm definitions') :
    WellFormed definitions' :=
  ⟨(hp.map Definition.name).nodup_iff.1 h.nodup, fun d hd => h.references d (hp.mem_iff.2 hd)⟩

theorem acyclic_iff_of_perm (hp : definitions.Perm definitions') :
    Acyclic definitions ↔ Acyclic definitions' := by
  have hreads : Reads definitions = Reads definitions' := by
    funext x y
    simp only [Reads, hp.mem_iff, (hp.map Definition.name).mem_iff]
  rw [Acyclic, Acyclic, hreads]

/-- The order in which definitions are declared does not matter for there being an order. -/
theorem exists_build_iff_of_perm (hn : (definitions.map Definition.name).Nodup)
    (hp : definitions.Perm definitions') :
    (∃ found, build definitions = .ok found) ↔ ∃ found, build definitions' = .ok found := by
  have one {ds ds' : List Definition} (hn : (ds.map Definition.name).Nodup) (hp : ds.Perm ds')
      (h : ∃ found, build ds = .ok found) : ∃ found, build ds' = .ok found := by
    obtain ⟨found, hb⟩ := h
    have hw := WellFormed.of_build hn hb
    exact (exists_build_iff (hw.of_perm hp)).2
      ((acyclic_iff_of_perm hp).1 ((exists_build_iff hw).1 ⟨found, hb⟩))
  exact ⟨one hn hp, one ((hp.map Definition.name).nodup_iff.1 hn) hp.symm⟩

end TableDoc.Formula.Dependencies
