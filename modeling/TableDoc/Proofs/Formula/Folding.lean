import TableDoc.Formula.Function

/-!
# What aggregates make of values

Nulls can be left out of values and put in anywhere (`SameButNulls`) without changing what an
aggregate makes of them. The other values are counted, or they are folded as numbers; the first that
is no number is what the others fail with (`AggregateFunction.Folds`, `AggregateFunction.folds`).
-/

namespace TableDoc

/-- A value is neither null nor a number. -/
def Scalar.isForeign (v : Scalar) : Bool := v.kind = .boolean ∨ v.kind = .text

namespace Formula

/-- Values are the same but for nulls, which stand among either of them at any places. -/
inductive SameButNulls : List Scalar → List Scalar → Prop
  | nil : SameButNulls [] []
  | cons (v : Scalar) : SameButNulls vs ws → SameButNulls (v :: vs) (v :: ws)
  | null_left : SameButNulls vs ws → SameButNulls (.null :: vs) ws
  | null_right : SameButNulls vs ws → SameButNulls vs (.null :: ws)

/-- The values but for nulls. -/
def present (vs : List Scalar) : List Scalar := vs.filter (· ≠ .null)

namespace AggregateFunction

/-- What an aggregate makes of values. -/
structure Folds (f : AggregateFunction) (vs : List Scalar) : Prop where
  nulls : ∀ ws, SameButNulls vs ws → f.apply ws = f.apply vs
  error_iff : (∃ e, f.apply vs = .error e) ↔ f ≠ .count ∧ ∃ v ∈ vs, v.isForeign
  error : ∀ e, f.apply vs = .error e → ∃ v, vs.find? Scalar.isForeign = some v ∧ e.code = .type ∧
    e.message = "Type error: " ++ f.name ++ " requires numbers, got " ++ v.kind.name ++ " '" ++
      v.toText ++ "'"
  null_iff : f.apply vs = .ok .null ↔ f ∈ [avg, min, max] ∧ ∀ v ∈ vs, v = .null
  number : ∀ s, f.apply vs = .ok s → s ≠ .null → ∃ x, s = .number x
  count : f = .count → f.apply vs = .ok (.number (.ofNat (vs.countP (· ≠ .null))))
  extremum : f = .min ∨ f = .max → ∀ s, f.apply vs = .ok s → s ≠ .null → s ∈ vs

variable {f : AggregateFunction} {vs ws : List Scalar} {v s : Scalar} {xs : List Float} {x : Float}

/-! ## Values but for nulls -/

@[simp] theorem present_null (vs : List Scalar) : present (.null :: vs) = present vs := rfl

theorem present_cons (h : v ≠ .null) (vs : List Scalar) : present (v :: vs) = v :: present vs :=
  List.filter_cons_of_pos (decide_eq_true h)

theorem present_number (x : Float) (vs : List Scalar) :
    present (.number x :: vs) = .number x :: present vs :=
  present_cons (by simp) vs

/-- Nulls do not matter to what is folded. -/
theorem present_eq (h : SameButNulls vs ws) : present vs = present ws := by
  induction h with
  | nil => rfl
  | cons v _ ih =>
    by_cases hv : v = .null
    · rw [hv, present_null, present_null, ih]
    · rw [present_cons hv, present_cons hv, ih]
  | null_left _ ih => rw [present_null, ih]
  | null_right _ ih => rw [present_null, ih]

theorem present_eq_nil_iff : present vs = [] ↔ ∀ v ∈ vs, v = .null := by
  simp [present]

/-- Values without foreign ones are numbers, once the nulls are gone. -/
theorem present_of_numbers (h : ∀ v ∈ vs, v.isForeign = false) :
    ∃ xs : List Float, present vs = xs.map .number := by
  induction vs with
  | nil => exact ⟨[], rfl⟩
  | cons v vs ih =>
    obtain ⟨hv, hvs⟩ := List.forall_mem_cons.1 h
    obtain ⟨xs, hxs⟩ := ih hvs
    cases v with
    | null => exact ⟨xs, hxs⟩
    | number x => exact ⟨x :: xs, by rw [present_number, hxs, List.map_cons]⟩
    | boolean b => cases hv
    | text t => cases hv

theorem mapM_number (f : AggregateFunction) (xs : List Float) :
    (xs.map Scalar.number).mapM f.number = .ok xs := by
  induction xs with
  | nil => rfl
  | cons x xs ih =>
    rw [List.map_cons, List.mapM_cons, ih]
    rfl

theorem mapM_number_of_find? (f : AggregateFunction) (h : vs.find? Scalar.isForeign = some v) :
    (present vs).mapM f.number = .error (.type (.aggregate f.name v)) := by
  induction vs with
  | nil => cases h
  | cons w vs ih =>
    cases w with
    | null => exact ih h
    | number x =>
      rw [present_number, List.mapM_cons, ih h]
      rfl
    | boolean b =>
      cases h
      rfl
    | text t =>
      cases h
      rfl

/-! ## The aggregates -/

theorem apply_count (vs : List Scalar) :
    count.apply vs = .ok (.number (.ofNat (vs.countP (· ≠ .null)))) := by
  rw [apply, if_pos rfl, List.countP_eq_length_filter]

/-- An aggregate sees the values that are no nulls only. -/
theorem apply_congr (h : present vs = present ws) : f.apply vs = f.apply ws := by
  rw [present, present] at h
  rw [apply, apply, h]

/-- The first foreign value is the one that is reported. -/
theorem apply_of_find? (hf : f ≠ .count) (h : vs.find? Scalar.isForeign = some v) :
    f.apply vs = .error (.type (.aggregate f.name v)) := by
  have hmapM := mapM_number_of_find? f h
  rw [present] at hmapM
  rw [apply, if_neg hf]
  rw [hmapM]
  rfl

/-- Without foreign values the numbers are folded. -/
theorem apply_of_numbers (hf : f ≠ .count) (h : present vs = xs.map .number) :
    f.apply vs = .ok (ofNumbers xs f) := by
  rw [present] at h
  rw [apply, if_neg hf]
  rw [h, mapM_number]
  rfl

theorem ofNumbers_eq_null_iff : ofNumbers xs f = .null ↔ f ∈ [avg, min, max] ∧ xs = [] := by
  cases f <;> cases xs <;> simp [ofNumbers, reduce]

/-- Numbers are folded to a number or to null. -/
theorem ofNumbers_eq_number (xs : List Float) (f : AggregateFunction) :
    ofNumbers xs f = .null ∨ ∃ x, ofNumbers xs f = .number x := by
  cases f with
  | sum | count => exact .inr ⟨_, rfl⟩
  | avg | min | max => cases xs <;> simp [ofNumbers, reduce]

theorem foldl_mem {g : Float → Float → Float} (hg : ∀ x y, g x y = x ∨ g x y = y) (x : Float)
    (xs : List Float) :
    xs.foldl g x ∈ x :: xs := by
  induction xs generalizing x with
  | nil => exact List.mem_cons_self
  | cons y xs ih =>
    rw [List.foldl_cons]
    rcases List.mem_cons.1 (ih (g x y)) with h | h
    · rw [h]
      rcases hg x y with hxy | hxy <;> rw [hxy]
      · exact List.mem_cons_self
      · exact List.mem_cons_of_mem _ List.mem_cons_self
    · exact List.mem_cons_of_mem _ (List.mem_cons_of_mem _ h)

/-- A choice between two, made again and again, gives one of the numbers. -/
theorem mem_of_reduce {g : Float → Float → Float} (hg : ∀ x y, g x y = x ∨ g x y = y)
    (h : reduce g xs ≠ .null) :
    reduce g xs ∈ xs.map Scalar.number := by
  cases xs with
  | nil => exact absurd rfl h
  | cons x xs => exact List.mem_map_of_mem (foldl_mem hg x xs)

theorem ite_ite_eq {p q : Prop} [Decidable p] [Decidable q] (x y : Float) :
    (if p then y else if q then y else x) = x ∨ (if p then y else if q then y else x) = y := by
  split
  · exact .inr rfl
  · split
    · exact .inr rfl
    · exact .inl rfl

theorem smaller_eq (x y : Float) : smaller x y = x ∨ smaller x y = y := ite_ite_eq x y

theorem greater_eq (x y : Float) : greater x y = x ∨ greater x y = y := ite_ite_eq x y

/-- The extremum of numbers is one of them. -/
theorem mem_of_extremum (hf : f = .min ∨ f = .max) (h : ofNumbers xs f ≠ .null) :
    ofNumbers xs f ∈ xs.map Scalar.number := by
  rcases hf with rfl | rfl
  · exact mem_of_reduce smaller_eq h
  · exact mem_of_reduce greater_eq h

/-- `count` counts, others fail with the first value that is no number, or fold numbers. -/
theorem apply_cases (f : AggregateFunction) (vs : List Scalar) :
    (f = .count ∧ f.apply vs = .ok (.number (.ofNat (vs.countP (· ≠ .null))))) ∨
    (f ≠ .count ∧ ∃ v, vs.find? Scalar.isForeign = some v ∧
      f.apply vs = .error (.type (.aggregate f.name v))) ∨
    f ≠ .count ∧ (∀ v ∈ vs, v.isForeign = false) ∧
      ∃ xs : List Float, present vs = xs.map .number ∧ f.apply vs = .ok (ofNumbers xs f) := by
  by_cases hf : f = .count
  · subst hf
    exact .inl ⟨rfl, apply_count vs⟩
  cases hfind : vs.find? Scalar.isForeign with
  | some v => exact .inr (.inl ⟨hf, v, rfl, apply_of_find? hf hfind⟩)
  | none =>
    have hvs : ∀ v ∈ vs, v.isForeign = false :=
      fun v hv => Bool.eq_false_iff.2 (List.find?_eq_none.1 hfind v hv)
    obtain ⟨xs, hxs⟩ := present_of_numbers hvs
    exact .inr (.inr ⟨hf, hvs, xs, hxs, apply_of_numbers hf hxs⟩)

/-- A function other than `count` fails just if there is a foreign value. -/
theorem error_iff_foreign (f : AggregateFunction) (vs : List Scalar) :
    (∃ e, f.apply vs = .error e) ↔ f ≠ .count ∧ ∃ v ∈ vs, v.isForeign := by
  rcases apply_cases f vs with ⟨hf, h⟩ | ⟨hf, v, hfind, h⟩ | ⟨hf, hvs, xs, -, h⟩ <;> rw [h]
  · constructor
    · rintro ⟨_, he⟩
      cases he
    · rintro ⟨hne, -⟩
      exact absurd hf hne
  · exact ⟨fun _ => ⟨hf, v, List.mem_of_find?_eq_some hfind, List.find?_some hfind⟩,
      fun _ => ⟨_, rfl⟩⟩
  · constructor
    · rintro ⟨_, he⟩
      cases he
    · rintro ⟨-, v, hv, hforeign⟩
      rw [hvs v hv] at hforeign
      cases hforeign

/-- Nulls do not matter to an aggregate. All but `count` fail just if there is a value that is no
number, with the first such value. Else `avg`, `min` and `max` of nulls only are null, and all
others are numbers: `count` how many values there are, `min` and `max` one of them. -/
theorem folds (f : AggregateFunction) (vs : List Scalar) : f.Folds vs where
  nulls ws h := apply_congr (present_eq h).symm
  error_iff := error_iff_foreign f vs
  error e he := by
    rcases apply_cases f vs with ⟨-, h⟩ | ⟨-, v, hfind, h⟩ | ⟨-, -, xs, -, h⟩ <;> rw [h] at he <;>
      cases he
    exact ⟨v, hfind, rfl, rfl⟩
  null_iff := by
    rcases apply_cases f vs with ⟨rfl, h⟩ | ⟨-, v, hfind, h⟩ | ⟨-, -, xs, hxs, h⟩ <;> rw [h]
    · simp
    · constructor
      · intro he
        cases he
      · rintro ⟨-, hnull⟩
        have hforeign := List.find?_some hfind
        rw [hnull v (List.mem_of_find?_eq_some hfind)] at hforeign
        cases hforeign
    · rw [← present_eq_nil_iff, hxs, Except.ok.injEq, ofNumbers_eq_null_iff, List.map_eq_nil_iff]
  number s hs hne := by
    rcases apply_cases f vs with ⟨-, h⟩ | ⟨-, v, -, h⟩ | ⟨-, -, xs, -, h⟩ <;> rw [h] at hs <;>
      cases hs
    · exact ⟨_, rfl⟩
    · exact (ofNumbers_eq_number xs f).resolve_left hne
  count hf := hf ▸ apply_count vs
  extremum hf s hs hne := by
    rcases apply_cases f vs with ⟨rfl, -⟩ | ⟨-, v, -, h⟩ | ⟨-, -, xs, hxs, h⟩
    · rcases hf with hf | hf <;> cases hf
    · rw [h] at hs
      cases hs
    · rw [h] at hs
      cases hs
      have hmem := mem_of_extremum hf hne
      rw [← hxs] at hmem
      exact (List.mem_filter.1 hmem).1

end AggregateFunction

end Formula

end TableDoc
