import Mathlib.Data.List.Forall2
import Mathlib.Data.List.Nodup

/-!
# Lists that are read item by item

What is known of steps that succeed one after another (`bind_eq_ok_iff`, `forall₂_of_mapM_ok`) or of
which one fails (`FailsAs.bind`, `FailsAs.mapM`), and of lists whose items have different names.
-/

namespace TableDoc

section
variable {ε ε' α β γ : Type} {x : Except ε α}

theorem bind_eq_ok_iff {f : α → Except ε β} {b : β} :
    x >>= f = .ok b ↔ ∃ a, x = .ok a ∧ f a = .ok b := by
  cases x with
  | error e => exact ⟨nofun, fun ⟨_, h, _⟩ => nomatch h⟩
  | ok a => exact ⟨fun h => ⟨a, rfl, h⟩, fun ⟨_, ha, h⟩ => Except.ok.inj ha ▸ h⟩

theorem mapError_eq_ok_iff {f : ε → ε'} {a : α} : x.mapError f = .ok a ↔ x = .ok a := by
  cases x with
  | error e => exact ⟨nofun, nofun⟩
  | ok b => exact ⟨fun h => congrArg _ (Except.ok.inj h), fun h => congrArg _ (Except.ok.inj h)⟩

theorem eq_ok_of_isOk {x : Except ε Unit} (h : x.isOk) : x = .ok () := by
  cases x with
  | error e => cases h
  | ok => rfl

/-- Every failure is one of these. -/
def FailsAs (P : ε → Prop) (x : Except ε α) : Prop := ∀ e, x = .error e → P e

section
variable {P : ε → Prop}

theorem FailsAs.ok (a : α) : FailsAs P (.ok a) := nofun

theorem FailsAs.error {e : ε} (h : P e) : FailsAs P (.error e : Except ε α) := by
  rintro _ ⟨⟩
  exact h

theorem FailsAs.mono {Q : ε → Prop} (h : FailsAs P x) (hPQ : ∀ e, P e → Q e) : FailsAs Q x :=
  fun e he => hPQ e (h e he)

theorem FailsAs.bind {f : α → Except ε β} (hx : FailsAs P x)
    (hf : ∀ a, x = .ok a → FailsAs P (f a)) :
    FailsAs P (x >>= f) := by
  cases x with
  | error e => exact .error (hx e rfl)
  | ok a => exact hf a rfl

theorem FailsAs.mapError {f : ε → ε'} {Q : ε' → Prop} (h : FailsAs (fun e => Q (f e)) x) :
    FailsAs Q (x.mapError f) := by
  cases x with
  | error e => exact .error (h e rfl)
  | ok a => exact .ok a

theorem FailsAs.map {f : α → β} (h : FailsAs P x) : FailsAs P (x.map f) := by
  cases x with
  | error e => exact .error (h e rfl)
  | ok a => exact .ok (f a)

/-- A list fails as its items do. -/
theorem FailsAs.mapM {f : α → Except ε β} {as : List α} (h : ∀ a ∈ as, FailsAs P (f a)) :
    FailsAs P (as.mapM f) := by
  induction as with
  | nil => exact .ok []
  | cons a as ih =>
    obtain ⟨ha, has⟩ := List.forall_mem_cons.1 h
    rw [List.mapM_cons]
    exact ha.bind fun b _ => (ih has).bind fun bs _ => .ok (b :: bs)

end

/-- Items that are all read are read in order. -/
theorem forall₂_of_mapM_ok {f : α → Except ε β} {as : List α} {bs : List β}
    (h : as.mapM f = .ok bs) :
    List.Forall₂ (fun a b => f a = .ok b) as bs := by
  induction as generalizing bs with
  | nil =>
    cases h
    exact .nil
  | cons a as ih =>
    rw [List.mapM_cons, bind_eq_ok_iff] at h
    obtain ⟨b, hb, h⟩ := h
    obtain ⟨rest, hrest, h⟩ := bind_eq_ok_iff.1 h
    cases h
    exact .cons hb (ih hrest)

theorem mapM_ok_of_forall₂ {f : α → Except ε β} {as : List α} {bs : List β}
    (h : List.Forall₂ (fun a b => f a = .ok b) as bs) : as.mapM f = .ok bs := by
  induction h with
  | nil => rfl
  | cons hab _ ih =>
    rw [List.mapM_cons, hab, ih]
    rfl

theorem forall₂_map_eq {f : α → γ} {g : β → γ} {R : α → β → Prop} {as : List α} {bs : List β}
    (h : List.Forall₂ R as bs) (hR : ∀ a b, R a b → f a = g b) : as.map f = bs.map g := by
  induction h with
  | nil => rfl
  | cons hab _ ih => rw [List.map_cons, List.map_cons, hR _ _ hab, ih]

theorem exists_of_mem_forall₂ {R : α → β → Prop} {as : List α} {bs : List β}
    (h : List.Forall₂ R as bs) {b : β} (hb : b ∈ bs) : ∃ a ∈ as, R a b := by
  induction h with
  | nil => cases hb
  | cons hab _ ih =>
    rcases List.mem_cons.1 hb with rfl | hb
    · exact ⟨_, List.mem_cons_self, hab⟩
    · obtain ⟨a, ha, hab⟩ := ih hb
      exact ⟨a, List.mem_cons_of_mem _ ha, hab⟩

theorem forall₂_trans {R : α → β → Prop} {S : β → γ → Prop} {T : α → γ → Prop} {as : List α}
    {bs : List β} {cs : List γ} (hR : List.Forall₂ R as bs) (hS : List.Forall₂ S bs cs)
    (h : ∀ a b c, R a b → S b c → T a c) :
    List.Forall₂ T as cs := by
  induction hR generalizing cs with
  | nil =>
    cases hS
    exact .nil
  | cons hab _ ih =>
    cases hS with
    | cons hbc hS => exact .cons (h _ _ _ hab hbc) (ih hS)

theorem exists_getElem?_of_forall₂ {R : α → β → Prop} {as : List α} {bs : List β}
    (h : List.Forall₂ R as bs) {a : α} {i : Nat} (ha : as[i]? = some a) :
    ∃ b, bs[i]? = some b ∧ R a b := by
  induction h generalizing i with
  | nil => cases ha
  | cons hab _ ih =>
    cases i with
    | zero =>
      cases ha
      exact ⟨_, rfl, hab⟩
    | succ i => exact ih ha

/-- Lists are related if their items are, place by place. -/
theorem forall₂_of_getElem? {R : α → β → Prop} {as : List α} {bs : List β}
    (h : ∀ i : Nat, Option.Rel R as[i]? bs[i]?) : List.Forall₂ R as bs := by
  induction as generalizing bs with
  | nil =>
    cases bs with
    | nil => exact .nil
    | cons b bs => cases h 0
  | cons a as ih =>
    cases bs with
    | nil => cases h 0
    | cons b bs =>
      cases h 0 with
      | some hab => exact .cons hab (ih fun i => h (i + 1))

theorem forall_mem_iff_of_forall₂ {R : α → β → Prop} {P : α → Prop} {Q : β → Prop} {as : List α}
    {bs : List β} (h : List.Forall₂ R as bs) (hR : ∀ a b, R a b → (P a ↔ Q b)) :
    (∀ a ∈ as, P a) ↔ ∀ b ∈ bs, Q b := by
  induction h with
  | nil => exact ⟨nofun, nofun⟩
  | cons hab _ ih => rw [List.forall_mem_cons, List.forall_mem_cons, hR _ _ hab, ih]

end

theorem drop_succ_of_cons {α : Type} {a : α} {as bs : List α} {n : Nat} (h : a :: as = bs.drop n) :
    bs[n]? = some a ∧ as = bs.drop (n + 1) := by
  rw [← List.head?_drop, ← List.tail_drop, ← h]
  exact ⟨rfl, rfl⟩

theorem drop_idxOf? {α : Type} [DecidableEq α] {a : α} {as : List α} (h : a ∈ as) :
    as.drop ((as.idxOf? a).getD 0) = as.dropWhile (· ≠ a) := by
  induction as with
  | nil => cases h
  | cons b as ih =>
    by_cases hb : b = a
    · subst hb
      simp [List.idxOf?_cons]
    · have hmem : a ∈ as := (List.mem_cons.1 h).resolve_left (Ne.symm hb)
      obtain ⟨i, hi⟩ := Option.isSome_iff_exists.1 (List.isSome_idxOf?.2 hmem)
      have ih := ih hmem
      rw [hi, Option.getD_some] at ih
      rw [List.idxOf?_cons, if_neg (by simpa using hb), hi, Option.map_some, Option.getD_some,
        List.drop_succ_cons, ih, List.dropWhile_cons_of_pos (by simpa using hb)]

theorem mem_of_lookup {α β : Type} [BEq α] [LawfulBEq α] {a : α} {b : β} {items : List (α × β)}
    (h : items.lookup a = some b) : (a, b) ∈ items := by
  obtain ⟨before, after, rfl, -⟩ := List.lookup_eq_some_iff.1 h
  exact List.mem_append_right _ List.mem_cons_self

section
variable {β : Type} {seen : List β} {b : β} {bs : List β}

theorem nodup_cons_of_seen (hb : b ∉ seen) (h : bs.Nodup ∧ ∀ c ∈ bs, c ∉ b :: seen) :
    (b :: bs).Nodup ∧ ∀ c ∈ b :: bs, c ∉ seen := by
  obtain ⟨hn, hbs⟩ := h
  refine ⟨List.nodup_cons.2 ⟨fun hmem => hbs b hmem List.mem_cons_self, hn⟩, ?_⟩
  exact List.forall_mem_cons.2 ⟨hb, fun c hc hmem => hbs c hc (List.mem_cons_of_mem _ hmem)⟩

end

section
variable {α β : Type} [DecidableEq β] {f : α → β} {a : α} {as : List α}

theorem filter_eq_singleton (hn : (as.map f).Nodup) (ha : a ∈ as) :
    as.filter (f · = f a) = [a] := by
  induction as with
  | nil => cases ha
  | cons b as ih =>
    obtain ⟨hb, hn⟩ := List.nodup_cons.1 hn
    rcases List.mem_cons.1 ha with rfl | ha
    · have hnone : as.filter (f · = f a) = [] :=
        List.filter_eq_nil_iff.2 fun c hc heq => hb (of_decide_eq_true heq ▸ List.mem_map_of_mem hc)
      rw [List.filter_cons_of_pos (by simp), hnone]
    · have hne : f b ≠ f a := fun heq => hb (heq ▸ List.mem_map_of_mem ha)
      rw [List.filter_cons_of_neg (by simpa using hne), ih hn ha]

theorem find?_eq_some_iff_of_nodup {b : β} (hn : (as.map f).Nodup) :
    as.find? (f · = b) = some a ↔ a ∈ as ∧ f a = b := by
  constructor
  · intro h
    exact ⟨List.mem_of_find?_eq_some h, by simpa using List.find?_some h⟩
  · rintro ⟨ha, rfl⟩
    rw [← List.head?_filter, filter_eq_singleton hn ha]
    rfl

/-- Where all is different, the order does not matter to what is found. -/
theorem find?_perm {bs : List α} {b : β} (hperm : as.Perm bs) (hn : (bs.map f).Nodup) :
    as.find? (f · = b) = bs.find? (f · = b) := by
  refine Option.ext fun a => ?_
  rw [find?_eq_some_iff_of_nodup hn, find?_eq_some_iff_of_nodup ((hperm.map f).nodup_iff.2 hn),
    hperm.mem_iff]

theorem perm_cons_filter (hn : (as.map f).Nodup) (ha : a ∈ as) :
    as.Perm (a :: as.filter (f · ≠ f a)) := by
  have hperm := List.filter_append_perm (f · = f a) as
  rw [filter_eq_singleton hn ha, List.singleton_append] at hperm
  simpa only [ne_eq, decide_not] using hperm.symm

end

section
variable {α : Type} {p : α → Bool} {a : α} {as others : List α}

theorem perm_set_dropLast {i : Nat} {last : α} (ha : as[i]? = some a)
    (hlast : as.getLast? = some last) : (a :: (as.set i last).dropLast).Perm as := by
  obtain ⟨hi, rfl⟩ := List.getElem?_eq_some_iff.1 ha
  have hsplit : as = as.take i ++ as[i] :: as.drop (i + 1) := by
    rw [← List.drop_eq_getElem_cons, List.take_append_drop]
  rw [List.set_eq_take_append_cons_drop, if_pos hi]
  rcases List.eq_nil_or_concat' (as.drop (i + 1)) with hnil | ⟨between, final, hbetween⟩
  · rw [hnil] at hsplit ⊢
    rw [List.dropLast_concat]
    exact (List.perm_append_singleton _ _).symm.trans (.of_eq hsplit.symm)
  · rw [hbetween] at hsplit ⊢
    obtain rfl : final = last := by
      rw [hsplit, ← List.cons_append, ← List.append_assoc, List.getLast?_concat] at hlast
      exact Option.some.inj hlast
    rw [← List.cons_append, ← List.append_assoc, List.dropLast_concat]
    refine List.Perm.trans ?_ (List.perm_middle.symm.trans (.of_eq hsplit.symm))
    exact (List.Perm.append_left _ (List.perm_append_singleton final between).symm).cons _

/-- Takes out the first item with a property. The last item fills its place. -/
def swapOut? (p : α → Bool) (as : List α) : Option (α × List α) := do
  let i ← as.findIdx? p
  let taken ← as[i]?
  let last ← as.getLast?
  return (taken, (as.set i last).dropLast)

/-- What is swapped out is the first match, and the rest stays. -/
theorem swapOut?_eq_some (h : swapOut? p as = some (a, others)) :
    as.find? p = some a ∧ (a :: others).Perm as := by
  rw [swapOut?] at h
  obtain ⟨i, hi, h⟩ := Option.bind_eq_some_iff.1 h
  obtain ⟨first, hfirst, h⟩ := Option.bind_eq_some_iff.1 h
  obtain ⟨last, hlast, h⟩ := Option.bind_eq_some_iff.1 h
  cases h
  refine ⟨?_, perm_set_dropLast hfirst hlast⟩
  obtain ⟨hlt, hp, hbefore⟩ := List.findIdx?_eq_some_iff_getElem.1 hi
  obtain ⟨_, rfl⟩ := List.getElem?_eq_some_iff.1 hfirst
  exact List.find?_eq_some_iff_getElem.2 ⟨hp, i, hlt, rfl, fun j hj => by simpa using hbefore j hj⟩

theorem isSome_swapOut? : (swapOut? p as).isSome = (as.find? p).isSome := by
  rcases hi : as.findIdx? p with _ | i
  · have hnone : as.find? p = none :=
      List.find?_eq_none.2 (by simpa using List.findIdx?_eq_none_iff.1 hi)
    rw [swapOut?, hi, hnone]
    rfl
  · obtain ⟨hlt, hp, -⟩ := List.findIdx?_eq_some_iff_getElem.1 hi
    have hmem : as[i] ∈ as := List.getElem_mem hlt
    have hlast := List.getLast?_eq_some_getLast (List.ne_nil_of_mem hmem)
    have hfind : (as.find? p).isSome := List.find?_isSome.2 ⟨as[i], hmem, hp⟩
    simp only [swapOut?, hi, List.getElem?_eq_getElem hlt, hlast, hfind, Option.bind_eq_bind,
      Option.bind_some]
    rfl

end

end TableDoc
