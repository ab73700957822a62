import Mathlib.Data.List.Basic

/-!
# Parties under an index

The state of a system of many parties is a list, and a party is known by its index. A party that
moves is replaced in place, a new one is appended; the lemmas say which parties the list holds
afterwards.
-/

namespace Indexed

variable {α : Type*} {l : List α} {i j : Nat} {a b : α}

/-- After one party was replaced, a party is the new one or another one as it was. -/
theorem getElem?_set_cases (h : (l.set i a)[j]? = some b) :
    (j = i ∧ b = a) ∨ (j ≠ i ∧ l[j]? = some b) := by
  rw [List.getElem?_set] at h
  split at h
  · next hij =>
    split at h
    · exact Or.inl ⟨hij.symm, (Option.some.inj h).symm⟩
    · cases h
  · next hij => exact Or.inr ⟨Ne.symm hij, h⟩

/-- After one party was appended, a party is an old one or the new one. -/
theorem getElem?_append_cases (h : (l ++ [a])[i]? = some b) :
    l[i]? = some b ∨ (i = l.length ∧ b = a) := by
  rw [List.getElem?_append] at h
  split at h
  · exact Or.inl h
  · next hge =>
    have hlen := (List.getElem?_eq_some_iff.mp h).1
    rw [List.length_singleton] at hlen
    have hi : i = l.length := by omega
    subst hi
    rw [Nat.sub_self] at h
    exact Or.inr ⟨rfl, (Option.some.inj h).symm⟩

/-- How many parties have a property, before and after one was replaced. -/
theorem countP_set (p : α → Bool) (h : l[i]? = some b) :
    (l.set i a).countP p + (if p b then 1 else 0) = l.countP p + if p a then 1 else 0 := by
  obtain ⟨hi, hb⟩ := List.getElem?_eq_some_iff.mp h
  rw [List.countP_set hi, hb]
  by_cases hp : p b = true
  · have hpos : 0 < l.countP p := List.countP_pos_iff.mpr ⟨b, List.mem_of_getElem? h, hp⟩
    simp only [hp, if_true]
    omega
  · simp [hp]

end Indexed
