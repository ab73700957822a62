import Mathlib.Data.List.Basic

/-!
# Logs whose entries are justified by what came before

A log is a list of entries, newest first. `Justified P log` says of every entry that it was in
order when it was written: `P older entry` for the part `older` of the log that was there then. A
protocol is a choice of `P`; what it promises about whole logs follows from `Justified` alone.
-/

namespace Log

variable {ε : Type*} {P : List ε → ε → Prop} {log newer older : List ε} {e : ε}

/-- Every entry is justified by the older part of the log. -/
def Justified (P : List ε → ε → Prop) (log : List ε) : Prop :=
  ∀ newer e older, log = newer ++ e :: older → P older e

theorem justified_nil : Justified P [] := by
  intro newer e older h
  cases newer <;> cases h

theorem justified_cons : Justified P (e :: log) ↔ P log e ∧ Justified P log := by
  constructor
  · intro h
    refine ⟨h [] e log rfl, fun newer e' older hlog => ?_⟩
    exact h (e :: newer) e' older (by rw [hlog, List.cons_append])
  · rintro ⟨he, hlog⟩ newer e' older hsplit
    cases newer with
    | nil =>
      obtain ⟨rfl, rfl⟩ := List.cons.inj hsplit
      exact he
    | cons e'' newer => exact hlog newer e' older (List.cons.inj hsplit).2

/-- The older part of a justified log is justified. -/
theorem Justified.drop_newer (h : Justified P (newer ++ older)) : Justified P older := by
  intro newer' e older' hsplit
  exact h (newer ++ newer') e older' (by rw [hsplit, List.append_assoc])

/-- The newest of the entries that fit. -/
theorem exists_newest {fits : ε → Prop} (h : ∃ e ∈ log, fits e) :
    ∃ newer e older, log = newer ++ e :: older ∧ fits e ∧ ∀ e' ∈ newer, ¬ fits e' := by
  induction log with
  | nil => simp at h
  | cons a log ih =>
    by_cases ha : fits a
    · exact ⟨[], a, log, rfl, ha, by simp⟩
    · have hrest : ∃ e ∈ log, fits e := by simpa [ha] using h
      obtain ⟨newer, e, older, hlog, he, hnewer⟩ := ih hrest
      refine ⟨a :: newer, e, older, ?_, he, ?_⟩
      · rw [hlog, List.cons_append]
      · rw [List.forall_mem_cons]
        exact ⟨ha, hnewer⟩

/-! ## Entries that keep a distance -/

/-- Of entries that keep a distance from each other at most one fits where two do not. -/
theorem countP_le_one {R : ε → ε → Prop} {fits : ε → Bool} (h : log.Pairwise R)
    (hR : ∀ a b, R a b → fits a = true → fits b = false) : log.countP fits ≤ 1 := by
  induction log with
  | nil => exact Nat.zero_le 1
  | cons a log ih =>
    obtain ⟨ha, hrest⟩ := List.pairwise_cons.mp h
    by_cases hfits : fits a = true
    · have hnone : log.countP fits = 0 := by
        refine List.countP_eq_zero.mpr fun b hb => ?_
        rw [hR a b (ha b hb) hfits]
        exact Bool.false_ne_true
      have hcount : (a :: log).countP fits = 1 := by
        rw [List.countP_cons_of_pos hfits, hnone]
      exact Nat.le_of_eq hcount
    · rw [List.countP_cons_of_neg hfits]
      exact ih hrest

end Log
