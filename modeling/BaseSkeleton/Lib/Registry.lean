import Mathlib.Logic.Function.Basic

/-!
# Registries

A `Registry` holds records that are found under their key, and no two of which bear the same mark.
Both are fields of the structure: a record is put where its mark is free, so what comes out of
`put` and `remove` is a registry again.

* `Registry.find_put` / `Registry.find_remove` — what is found after a change.
-/

/-- Records under their keys, no two with the same mark. -/
@[ext]
structure Registry {κ α β : Type} (key : α → κ) (mark : α → β) where
  find : κ → Option α
  keyed : ∀ k a, find k = some a → key a = k
  unique : ∀ k l a b, find k = some a → find l = some b → mark a = mark b → k = l

namespace Registry

variable {κ α β : Type} [DecidableEq κ] {key : α → κ} {mark : α → β}

/-- The registry without records. -/
def empty : Registry key mark where
  find _ := none
  keyed := nofun
  unique := nofun

/-- No record but the one of `k` bears the mark `m`. -/
def Free (R : Registry key mark) (k : κ) (m : β) : Prop :=
  ∀ l a, R.find l = some a → mark a = m → l = k

/-- The registry with `a` under its key. -/
def put (R : Registry key mark) (a : α) (h : R.Free (key a) (mark a)) : Registry key mark where
  find := Function.update R.find (key a) (some a)
  keyed := by
    intro k b hb
    rw [Function.update_apply] at hb
    split at hb
    · next hk =>
      cases hb
      exact hk.symm
    · exact R.keyed k b hb
  unique := by
    intro k l b c hb hc hmark
    rw [Function.update_apply] at hb hc
    split at hb <;> split at hc
    · next hk hl => exact hk.trans hl.symm
    · next hk _ =>
      cases hb
      exact hk.trans (h l c hc hmark.symm).symm
    · next _ hl =>
      cases hc
      exact (h k b hb hmark).trans hl.symm
    · exact R.unique k l b c hb hc hmark

/-- The registry without the record of `k`. -/
def remove (R : Registry key mark) (k : κ) : Registry key mark where
  find := Function.update R.find k none
  keyed := by
    intro l a ha
    rw [Function.update_apply] at ha
    split at ha
    · cases ha
    · exact R.keyed l a ha
  unique := by
    intro l m a b ha hb hmark
    rw [Function.update_apply] at ha hb
    split at ha
    · cases ha
    · split at hb
      · cases hb
      · exact R.unique l m a b ha hb hmark

variable (R : Registry key mark)

theorem find_put {a : α} (h : R.Free (key a) (mark a)) (k : κ) :
    (R.put a h).find k = if k = key a then some a else R.find k :=
  Function.update_apply ..

theorem find_remove (k l : κ) :
    (R.remove k).find l = if l = k then none else R.find l :=
  Function.update_apply ..

end Registry
