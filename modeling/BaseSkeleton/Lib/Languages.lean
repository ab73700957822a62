import Mathlib.Computability.Language

/-!
# Languages of character classes

The regular expressions that grammars of names are written with: a class of letters, a non-empty
repetition, and words of one class between separators of another. `mem_separated` says what the last
one accepts without a decomposition.
-/

namespace Language

open Computability

variable {α : Type*} {p q : α → Bool} {l : Language α} {w v : List α}

/-- `[..]`: the words of one letter of a class. -/
def ofClass (p : α → Bool) : Language α :=
  {w | ∃ a, w = [a] ∧ p a = true}

/-- `(..)+`. -/
def oneOrMore (l : Language α) : Language α :=
  l * l∗

/-- `p+(q+p+)*`: words of the class `p`, separated by words of the class `q`. -/
def separated (p q : α → Bool) : Language α :=
  oneOrMore (ofClass p) * (oneOrMore (ofClass q) * oneOrMore (ofClass p))∗

/-- A repetition goes on with one more word in front. -/
theorem mem_kstar_append (hw : w ∈ l) (hv : v ∈ l∗) : w ++ v ∈ l∗ := by
  obtain ⟨words, rfl, hwords⟩ := mem_kstar.mp hv
  rw [← List.flatten_cons]
  exact join_mem_kstar (List.forall_mem_cons.mpr ⟨hw, hwords⟩)

theorem mem_kstar_ofClass : w ∈ (ofClass p)∗ ↔ ∀ a ∈ w, p a = true := by
  constructor
  · intro h a ha
    obtain ⟨letters, hw, hletters⟩ := mem_kstar.mp h
    rw [hw, List.mem_flatten] at ha
    obtain ⟨letter, hletter, ha⟩ := ha
    obtain ⟨b, hb, hp⟩ := hletters letter hletter
    rw [hb, List.mem_singleton] at ha
    rwa [ha]
  · intro h
    induction w with
    | nil => exact nil_mem_kstar _
    | cons a w ih =>
      rw [List.forall_mem_cons] at h
      exact mem_kstar_append (w := [a]) ⟨a, rfl, h.1⟩ (ih h.2)

theorem mem_oneOrMore_ofClass :
    w ∈ oneOrMore (ofClass p) ↔ w ≠ [] ∧ ∀ a ∈ w, p a = true := by
  constructor
  · intro h
    obtain ⟨first, ⟨a, rfl, ha⟩, rest, hrest, rfl⟩ := mem_mul.mp h
    refine ⟨by simp, ?_⟩
    rw [List.singleton_append, List.forall_mem_cons]
    exact ⟨ha, mem_kstar_ofClass.mp hrest⟩
  · intro h
    cases w with
    | nil => exact absurd rfl h.1
    | cons a w =>
      rw [List.forall_mem_cons] at h
      exact append_mem_mul (a := [a]) ⟨a, rfl, h.2.1⟩ (mem_kstar_ofClass.mpr h.2.2)

/-! ## Separated words

A list is of this form if its letters are of the two classes, it neither begins nor ends with a
separator, and no two separators follow each other. -/

theorem forall_getLast?_tail {a : α} {P : α → Prop} (h : ∀ b ∈ (a :: w).getLast?, P b) :
    ∀ b ∈ w.getLast?, P b := by
  intro b hb
  refine h b ?_
  cases w with
  | nil => cases hb
  | cons c w => rwa [List.getLast?_cons_cons]

/-- The letters after the first one: the rest of a word, and separated words. -/
theorem mem_separated_rest (hw : ∀ a ∈ w, p a = true ∨ q a = true)
    (hlast : ∀ a ∈ w.getLast?, p a = true) :
    w ∈ (ofClass p)∗ * (oneOrMore (ofClass q) * oneOrMore (ofClass p))∗ := by
  induction w with
  | nil => exact append_mem_mul (nil_mem_kstar _) (nil_mem_kstar _)
  | cons a w ih =>
    rw [List.forall_mem_cons] at hw
    have hlast' := forall_getLast?_tail hlast
    obtain ⟨word, hword, groups, hgroups, hsplit⟩ := mem_mul.mp (ih hw.2 hlast')
    by_cases hp : p a = true
    · rw [← hsplit, ← List.cons_append]
      refine append_mem_mul (mem_kstar_ofClass.mpr ?_) hgroups
      exact List.forall_mem_cons.mpr ⟨hp, mem_kstar_ofClass.mp hword⟩
    · -- a separator begins a new group, or joins the separators that the next group begins with
      have hq : q a = true := hw.1.resolve_left hp
      refine append_mem_mul (nil_mem_kstar _) ?_
      cases word with
      | cons b word =>
        have hseparator : [a] ∈ oneOrMore (ofClass q) :=
          mem_oneOrMore_ofClass.mpr ⟨by simp, by simpa using hq⟩
        have hword' : b :: word ∈ oneOrMore (ofClass p) :=
          mem_oneOrMore_ofClass.mpr ⟨by simp, mem_kstar_ofClass.mp hword⟩
        rw [← hsplit]
        exact mem_kstar_append (append_mem_mul hseparator hword') hgroups
      | nil =>
        obtain ⟨parts, hparts, hmem⟩ := mem_kstar_iff_exists_nonempty.mp hgroups
        rw [List.nil_append, hparts] at hsplit
        cases parts with
        | nil =>
          rw [← hsplit] at hlast
          exact absurd (hlast a rfl) hp
        | cons part parts =>
          rw [List.forall_mem_cons] at hmem
          obtain ⟨separators, hseparators, word, hword, hpart⟩ := mem_mul.mp hmem.1.1
          have hjoined : a :: separators ∈ oneOrMore (ofClass q) :=
            mem_oneOrMore_ofClass.mpr ⟨by simp,
              List.forall_mem_cons.mpr ⟨hq, (mem_oneOrMore_ofClass.mp hseparators).2⟩⟩
          rw [← hsplit, List.flatten_cons, ← hpart, ← List.cons_append, ← List.cons_append]
          exact mem_kstar_append (append_mem_mul hjoined hword)
            (join_mem_kstar fun part hpart => (hmem.2 part hpart).1)

/-- The last letter of a repetition is the last letter of a word. -/
theorem getLast?_of_mem_separated (h : w ∈ separated p q) : ∀ a ∈ w.getLast?, p a = true := by
  obtain ⟨word, hword, groups, hgroups, rfl⟩ := mem_mul.mp h
  obtain ⟨parts, rfl, hparts⟩ := mem_kstar.mp hgroups
  intro a ha
  rcases List.eq_nil_or_concat parts with rfl | ⟨parts', part, rfl⟩
  · rw [List.flatten_nil, List.append_nil] at ha
    exact (mem_oneOrMore_ofClass.mp hword).2 a (List.mem_of_mem_getLast? ha)
  · obtain ⟨separators, _, word', hword', hpart⟩ := mem_mul.mp (hparts part (by simp))
    obtain ⟨hne, hword'⟩ := mem_oneOrMore_ofClass.mp hword'
    rw [List.concat_eq_append, List.flatten_append, List.flatten_singleton, ← hpart,
      ← List.append_assoc, ← List.append_assoc, List.getLast?_append_of_ne_nil _ hne] at ha
    exact hword' a (List.mem_of_mem_getLast? ha)

/-- **The separated words**: letters of both classes, of which the first and the last one belong to
words. -/
theorem mem_separated :
    w ∈ separated p q ↔ w ≠ [] ∧ (∀ a ∈ w, p a = true ∨ q a = true) ∧
      (∀ a ∈ w.head?, p a = true) ∧ ∀ a ∈ w.getLast?, p a = true := by
  constructor
  · intro h
    have hlast := getLast?_of_mem_separated h
    obtain ⟨word, hword, groups, hgroups, rfl⟩ := mem_mul.mp h
    obtain ⟨hne, hword⟩ := mem_oneOrMore_ofClass.mp hword
    refine ⟨by simp [hne], fun a ha => ?_, fun a ha => ?_, hlast⟩
    · rcases List.mem_append.mp ha with hmem | hmem
      · exact Or.inl (hword a hmem)
      · obtain ⟨parts, rfl, hparts⟩ := mem_kstar.mp hgroups
        obtain ⟨part, hpart, hmem⟩ := List.mem_flatten.mp hmem
        obtain ⟨separators, hseparators, word', hword', rfl⟩ := mem_mul.mp (hparts part hpart)
        rcases List.mem_append.mp hmem with hmem | hmem
        · exact Or.inr ((mem_oneOrMore_ofClass.mp hseparators).2 a hmem)
        · exact Or.inl ((mem_oneOrMore_ofClass.mp hword').2 a hmem)
    · rw [List.head?_append_of_ne_nil _ hne] at ha
      exact hword a (List.mem_of_mem_head? ha)
  · rintro ⟨hne, hletters, hfirst, hlast⟩
    cases w with
    | nil => exact absurd rfl hne
    | cons a w =>
      rw [List.forall_mem_cons] at hletters
      have hlast' := forall_getLast?_tail hlast
      obtain ⟨word, hword, groups, hgroups, hsplit⟩ :=
        mem_mul.mp (mem_separated_rest hletters.2 hlast')
      rw [← hsplit, ← List.cons_append]
      refine append_mem_mul (mem_oneOrMore_ofClass.mpr ⟨by simp, ?_⟩) hgroups
      exact List.forall_mem_cons.mpr ⟨hfirst a rfl, mem_kstar_ofClass.mp hword⟩

end Language
