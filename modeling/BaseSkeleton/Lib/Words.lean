import Mathlib.Data.List.TakeWhile

/-!
# Words of a list

The words of a list are its maximal non-empty runs without separators. `List.words` computes them
by splitting and dropping what is empty; `List.IsWordOf` says what they are without a
computation, and `mem_words` that the two agree.
-/

namespace List

variable {α : Type*} {sep : α → Bool} {w l before after : List α}

/-- The non-empty pieces between the separators. -/
def words (sep : α → Bool) (l : List α) : List (List α) :=
  (l.splitOnP sep).filter fun w => !w.isEmpty

/-- `w` is a run of `l` without separators that ends at separators or at the ends of `l`. -/
structure IsPieceOf (sep : α → Bool) (w l : List α) : Prop where
  clean : ∀ c ∈ w, sep c = false
  run : ∃ before after, l = before ++ (w ++ after) ∧
    (∀ c, before.getLast? = some c → sep c = true) ∧
    (∀ c, after.head? = some c → sep c = true)

/-- A word is a piece that is not empty. -/
structure IsWordOf (sep : α → Bool) (w l : List α) : Prop extends IsPieceOf sep w l where
  nonempty : w ≠ []

/-- A list without separators is its own only piece. -/
theorem isPieceOf_clean (hl : ∀ c ∈ l, sep c = false) : IsPieceOf sep w l ↔ w = l := by
  constructor
  · rintro ⟨_, before, after, hrun, hbefore, hafter⟩
    have hnone : ∀ c ∈ l, ¬ sep c = true := fun c hc => by simp [hl c hc]
    have hb : before = [] := by
      cases hlast : before.getLast? with
      | none => exact getLast?_eq_none_iff.mp hlast
      | some c =>
        have hc : c ∈ l := hrun ▸ mem_append_left _ (mem_of_getLast? hlast)
        exact absurd (hbefore c hlast) (hnone c hc)
    have ha : after = [] := by
      cases hhead : after.head? with
      | none => exact head?_eq_none_iff.mp hhead
      | some c =>
        have hc : c ∈ l :=
          hrun ▸ mem_append_right _ (mem_append_right _ (mem_of_mem_head? hhead))
        exact absurd (hafter c hhead) (hnone c hc)
    rw [hrun, hb, ha, nil_append, append_nil]
  · rintro rfl
    exact ⟨hl, [], [], by simp, by simp, by simp⟩

/-- The pieces of a list that has a separator: what stands before the first one, and the pieces of
what stands after it. -/
theorem isPieceOf_cons {s : α} {rest : List α} (hl : ∀ c ∈ l, sep c = false)
    (hs : sep s = true) : IsPieceOf sep w (l ++ s :: rest) ↔ w = l ∨ IsPieceOf sep w rest := by
  constructor
  · rintro ⟨hw, before, after, hrun, hbefore, hafter⟩
    rcases append_eq_append_iff.mp hrun with ⟨front, hbf, hrest⟩ | ⟨back, hlb, hrest⟩
    · cases front with
      | nil =>
        -- `w` would begin with the separator, unless it is the empty piece before it
        rw [append_nil] at hbf
        rw [nil_append] at hrest
        cases before with
        | nil =>
          left
          cases w with
          | nil => exact hbf
          | cons c w =>
            obtain rfl := (cons.inj hrest).1
            have hclean := hw s mem_cons_self
            rw [hs] at hclean
            cases hclean
        | cons b before =>
          obtain ⟨last, hlast⟩ : ∃ c, (b :: before).getLast? = some c := ⟨_, getLast?_cons⟩
          have hmem : last ∈ l := hbf ▸ mem_of_getLast? hlast
          have hclean := hl last hmem
          rw [hbefore last hlast] at hclean
          cases hclean
      | cons c front =>
        obtain ⟨rfl, hfront⟩ := cons.inj hrest
        refine Or.inr ⟨hw, front, after, hfront, ?_, hafter⟩
        intro c hc
        refine hbefore c ?_
        rw [hbf, getLast?_append, getLast?_cons, hc]
        simp
    · -- nothing before the separator ends in one
      have hb : before = [] := by
        cases hlast : before.getLast? with
        | none => exact getLast?_eq_none_iff.mp hlast
        | some c =>
          have hclean := hl c (hlb ▸ mem_append_left _ (mem_of_getLast? hlast))
          rw [hbefore c hlast] at hclean
          cases hclean
      left
      subst hb
      rw [nil_append] at hlb
      subst hlb
      rcases append_eq_append_iff.mp hrest with ⟨front, hwl, hafter'⟩ | ⟨front, hwl, hafter'⟩
      · cases front with
        | nil => rw [hwl, append_nil]
        | cons c front =>
          have hclean := hl c (hwl ▸ mem_append_right _ mem_cons_self)
          rw [hafter c (by rw [hafter']; rfl)] at hclean
          cases hclean
      · cases front with
        | nil => rw [hwl, append_nil]
        | cons c front =>
          obtain ⟨rfl, _⟩ := cons.inj hafter'
          have hclean := hw s (hwl ▸ mem_append_right _ mem_cons_self)
          rw [hs] at hclean
          cases hclean
  · rintro (rfl | ⟨hw, before, after, rfl, hbefore, hafter⟩)
    · exact ⟨hl, [], s :: rest, by simp, by simp, by simpa using hs⟩
    · refine ⟨hw, l ++ s :: before, after, by simp, ?_, hafter⟩
      intro c hc
      rw [getLast?_append, getLast?_cons, Option.some_or, Option.some.injEq] at hc
      cases hlast : before.getLast? with
      | none =>
        rw [hlast] at hc
        exact hc ▸ hs
      | some b =>
        rw [hlast] at hc
        exact hc ▸ hbefore b hlast

/-- Splitting a list gives its pieces. -/
theorem mem_splitOnP (sep : α → Bool) (l : List α) : w ∈ l.splitOnP sep ↔ IsPieceOf sep w l := by
  by_cases hclean : ∀ c ∈ l, sep c = false
  · rw [splitOnP_eq_singleton hclean, mem_singleton, isPieceOf_clean hclean]
  · -- cut at the first separator
    have hne : l.dropWhile (fun c => !sep c) ≠ [] := by
      intro hnil
      refine hclean fun c hc => ?_
      simpa using dropWhile_eq_nil_iff.mp hnil c hc
    obtain ⟨s, rest, hcut⟩ := exists_cons_of_ne_nil hne
    have hs : sep s = true := by
      have hhead := head?_dropWhile_not (fun c => !sep c) l
      rw [hcut] at hhead
      simpa using hhead
    have hfront : ∀ c ∈ l.takeWhile (fun c => !sep c), sep c = false := by
      intro c hc
      simpa using mem_takeWhile_imp hc
    have hl : l = l.takeWhile (fun c => !sep c) ++ s :: rest := by
      rw [← hcut]
      exact (takeWhile_append_dropWhile).symm
    have hshort : rest.length < l.length := by
      rw [hl, length_append, length_cons]
      omega
    rw [hl, splitOnP_append_cons_of_forall_mem hfront s hs, mem_cons, mem_splitOnP sep rest,
      isPieceOf_cons hfront hs]
termination_by l.length

/-- **The words of a list are its words.** -/
theorem mem_words : w ∈ words sep l ↔ IsWordOf sep w l := by
  rw [words, mem_filter, mem_splitOnP]
  constructor
  · rintro ⟨hpiece, hne⟩
    exact ⟨hpiece, by simpa using hne⟩
  · rintro ⟨hpiece, hne⟩
    exact ⟨hpiece, by simpa using hne⟩

end List
