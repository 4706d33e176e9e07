import TableDoc.Yaml.Value

/-!
# Keys of mappings

A loader refuses a mapping with two keys that are the same, so the values that it gives have
`DistinctKeys`. The same then holds of the members of each mapping in such a value
(`DistinctKeys.entries`).
-/

namespace TableDoc.Yaml

namespace Value

mutual

/-- No mapping in the value has two keys that are the same. -/
def DistinctKeys : Value → Prop
  | mapping members => (members.Pairwise fun a b => ¬a.1.same b.1) ∧ DistinctKeysOfMembers members
  | sequence items => DistinctKeysOfItems items
  | tagged _ value => value.DistinctKeys
  | _ => True

/-- `DistinctKeys` for all items of a sequence. -/
def DistinctKeysOfItems : List Value → Prop
  | [] => True
  | value :: values => value.DistinctKeys ∧ DistinctKeysOfItems values

/-- `DistinctKeys` for all members of a mapping. -/
def DistinctKeysOfMembers : List (Value × Value) → Prop
  | [] => True
  | (key, value) :: members => key.DistinctKeys ∧ value.DistinctKeys ∧ DistinctKeysOfMembers members

end

/-- The members of the mapping under a key of a mapping. -/
def entries (value : Value) (key : String) : List (Value × Value) :=
  ((value.members?.bind (lookup? · key)).bind members?).getD []

variable {value key : Value} {members : List (Value × Value)}

theorem DistinctKeys.untag {value : Value} (h : value.DistinctKeys) : value.untag.DistinctKeys := by
  fun_induction Value.untag value with
  | case1 tag value ih =>
    rw [DistinctKeys] at h
    exact ih h
  | case2 => exact h

theorem DistinctKeysOfMembers.of_mem (h : DistinctKeysOfMembers members) :
    ∀ member ∈ members, member.2.DistinctKeys := by
  induction members with
  | nil => nofun
  | cons member members ih =>
    rw [DistinctKeysOfMembers] at h
    obtain ⟨-, hvalue, hmembers⟩ := h
    exact List.forall_mem_cons.2 ⟨hvalue, ih hmembers⟩

theorem DistinctKeys.of_members? (h : value.DistinctKeys)
    (hmembers : value.members? = some members) :
    (members.Pairwise fun a b => ¬a.1.same b.1) ∧ ∀ member ∈ members, member.2.DistinctKeys := by
  have hu := h.untag
  rw [members?] at hmembers
  split at hmembers
  · next heq =>
    cases hmembers
    rw [heq, DistinctKeys] at hu
    exact ⟨hu.1, hu.2.of_mem⟩
  · cases hmembers

theorem DistinctKeys.entries (h : value.DistinctKeys) (key : String) :
    ((value.entries key).Pairwise fun a b => ¬a.1.same b.1) ∧
      ∀ member ∈ value.entries key, member.2.DistinctKeys := by
  rw [Value.entries]
  cases hfound : (value.members?.bind (lookup? · key)).bind members? with
  | none => exact ⟨.nil, nofun⟩
  | some found =>
    obtain ⟨inner, hinner, hfound⟩ := Option.bind_eq_some_iff.1 hfound
    obtain ⟨members, hmembers, hinner⟩ := Option.bind_eq_some_iff.1 hinner
    obtain ⟨member, hmember, rfl⟩ := Option.map_eq_some_iff.1 hinner
    have hdistinct := (h.of_members? hmembers).2 _ (List.mem_of_find?_eq_some hmember)
    exact hdistinct.of_members? hfound

end Value

end TableDoc.Yaml
