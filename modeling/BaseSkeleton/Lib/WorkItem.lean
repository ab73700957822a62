import Mathlib.Data.List.Pairwise
import Mathlib.Data.List.Range
import Mathlib.Order.Basic

/-!
# The life of a leased work item with an attempt budget

A work item is submitted once, handed out to owners one attempt at a time, and leaves the
circulation either *done* (an owner finished it) or *dead* (the budget ran out); terminal items
may be removed after a retention period. This module fixes that life independently of any store
that realises it: `Next` is what one event may do to an item, `Life` is a whole history (newest
event first) together with the item it leaves behind.

The facts a store inherits by refining `Life`:

* `Life.acquires_reverse` — the attempts handed out are `1, 2, …, spent`, in that order;
* `Life.spent_le_budget` — never more than the budget;
* `Life.holder_eq` — who holds the item can be read off the history alone;
* `Life.closings_pairwise` — no attempt is closed twice;
* `Life.submitted` / `Life.removed` — an item carries what it was submitted with until the event
  that removes it, which is its last.

Owners, instants and cargo are arbitrary types.
-/

namespace WorkItem

variable {ω τ π : Type*}

/-- Where an item is in its life. -/
inductive Stage (ω τ : Type*) where
  | ready
  | held (owner : ω)
  | done (since : τ)
  | dead (since : τ)
  | removed

/-- An item: what it carries, how many attempts it may use and has used, and its stage. -/
structure Item (ω τ π : Type*) where
  cargo : π
  budget : Nat
  spent : Nat
  stage : Stage ω τ

/-- What can happen to an item. `giveUp` is an attempt that ended without success, by the owner's
word or because the lease ran out. -/
inductive Event (ω τ π : Type*) where
  | submit (cargo : π) (budget : Nat)
  | acquire (owner : ω) (attempt : Nat)
  | extend (attempt : Nat)
  | finish (attempt : Nat) (now : τ)
  | giveUp (attempt : Nat) (now : τ)
  | remove (now keepDone keepDead : τ)

/-- The retention that applies to a terminal stage has run out at `now`. -/
def Stage.Expired [Add τ] [LT τ] (now keepDone keepDead : τ) : Stage ω τ → Prop
  | .done since => since + keepDone < now
  | .dead since => since + keepDead < now
  | _ => False

/-- One event in the life of an item; `none` is an item that has not been submitted yet. -/
inductive Next [Add τ] [LT τ] :
    Option (Item ω τ π) → Event ω τ π → Item ω τ π → Prop where
  | submit (cargo : π) (budget : Nat) (hpos : 0 < budget) :
      Next none (.submit cargo budget) ⟨cargo, budget, 0, .ready⟩
  | acquire (it : Item ω τ π) (owner : ω) (hready : it.stage = .ready)
      (hbudget : it.spent < it.budget) :
      Next (some it) (.acquire owner (it.spent + 1))
        { it with spent := it.spent + 1, stage := .held owner }
  | extend (it : Item ω τ π) (owner : ω) (hheld : it.stage = .held owner) :
      Next (some it) (.extend it.spent) it
  | finish (it : Item ω τ π) (owner : ω) (now : τ) (hheld : it.stage = .held owner) :
      Next (some it) (.finish it.spent now) { it with stage := .done now }
  | giveUp (it : Item ω τ π) (owner : ω) (now : τ) (hheld : it.stage = .held owner) :
      Next (some it) (.giveUp it.spent now)
        { it with stage := if it.spent < it.budget then .ready else .dead now }
  | remove (it : Item ω τ π) (now keepDone keepDead : τ)
      (hexpired : it.stage.Expired now keepDone keepDead) :
      Next (some it) (.remove now keepDone keepDead) { it with stage := .removed }

/-- A history, newest event first, and the item it leaves behind. -/
inductive Life [Add τ] [LT τ] : List (Event ω τ π) → Option (Item ω τ π) → Prop where
  | unborn : Life [] none
  | next {es : List (Event ω τ π)} {it : Option (Item ω τ π)} {e : Event ω τ π}
      {it' : Item ω τ π} (hlife : Life es it) (hnext : Next it e it') : Life (e :: es) (some it')

/-! ## What can be read off a history

Each of these looks at the events alone. The theorems below compare them with the item the history
leaves behind. -/

/-- The attempts handed out, newest first. -/
def acquires : List (Event ω τ π) → List Nat
  | [] => []
  | .acquire _ attempt :: es => attempt :: acquires es
  | _ :: es => acquires es

/-- The attempts that were closed, by success or not, newest first. -/
def closings : List (Event ω τ π) → List Nat
  | [] => []
  | .finish attempt _ :: es => attempt :: closings es
  | .giveUp attempt _ :: es => attempt :: closings es
  | _ :: es => closings es

/-- The owner and attempt of the latest `acquire`, unless that attempt has been closed since. -/
def holder : List (Event ω τ π) → Option (ω × Nat)
  | [] => none
  | .acquire owner attempt :: _ => some (owner, attempt)
  | .finish _ _ :: _ => none
  | .giveUp _ _ :: _ => none
  | _ :: es => holder es

/-- The owner and attempt an item in stage `held` is bound to. -/
def Item.holder (it : Item ω τ π) : Option (ω × Nat) :=
  match it.stage with
  | .held owner => some (owner, it.spent)
  | _ => none

/-- How far the budget is used in each stage. -/
def Item.Sound (it : Item ω τ π) : Prop :=
  match it.stage with
  | .ready => it.spent < it.budget
  | .dead _ => it.spent = it.budget ∧ 0 < it.spent
  | _ => it.spent ≤ it.budget ∧ 0 < it.spent

variable [Add τ] [LT τ] {es : List (Event ω τ π)} {it : Item ω τ π}

theorem Life.nil_of_none (h : Life es none) : es = [] := by
  cases h
  rfl

/-! ## The budget

What holds of an item in each of its stages, by induction on its life. -/

theorem Life.sound (h : Life es (some it)) : it.Sound := by
  generalize hit : some it = i at h
  induction h generalizing it with
  | unborn => cases hit
  | @next es i e it' hlife hnext ih =>
    cases hit
    cases hnext with
    | submit cargo budget hpos => exact hpos
    | acquire it owner hready hbudget => exact ⟨hbudget, Nat.succ_pos _⟩
    | extend it owner hheld => exact ih rfl
    | finish it owner now hheld =>
      have hs := ih rfl
      simpa [Item.Sound, hheld] using hs
    | giveUp it owner now hheld =>
      have hs : it.spent ≤ it.budget ∧ 0 < it.spent := by simpa [Item.Sound, hheld] using ih rfl
      by_cases hlt : it.spent < it.budget
      · simp [Item.Sound, hlt]
      · simp only [Item.Sound, hlt, if_false]
        omega
    | remove it now keepDone keepDead hexpired =>
      have hs := ih rfl
      revert hs hexpired
      simp only [Item.Sound]
      cases it.stage <;> simp only [Stage.Expired] <;> grind

theorem Life.spent_le_budget (h : Life es (some it)) : it.spent ≤ it.budget := by
  have hs := h.sound
  revert hs
  simp only [Item.Sound]
  split <;> omega

/-! ## Attempts are handed out in order -/

theorem Life.acquires_reverse (h : Life es (some it)) :
    (acquires es).reverse = List.range' 1 it.spent := by
  generalize hit : some it = i at h
  induction h generalizing it with
  | unborn => cases hit
  | @next es i e it' hlife hnext ih =>
    cases hit
    cases hnext with
    | submit cargo budget hpos =>
      rw [hlife.nil_of_none]
      rfl
    | acquire it owner hready hbudget =>
      simp only [acquires, List.reverse_cons]
      rw [ih rfl, List.range'_concat, Nat.one_mul, Nat.add_comm 1]
    | extend it owner hheld => exact ih rfl
    | finish it owner now hheld =>
      have hprev := ih rfl
      exact hprev
    | giveUp it owner now hheld =>
      have hprev := ih rfl
      exact hprev
    | remove it now keepDone keepDead hexpired =>
      have hprev := ih rfl
      exact hprev

/-! ## Who holds the item

The latest acquisition, unless something has closed it since. -/

theorem Life.holder_eq {i : Option (Item ω τ π)} (h : Life es i) :
    holder es = i.bind Item.holder := by
  induction h with
  | unborn => rfl
  | @next es i e it' hlife hnext ih =>
    cases hnext with
    | submit cargo budget hpos =>
      rw [hlife.nil_of_none]
      rfl
    | acquire it owner hready hbudget => rfl
    | extend it owner hheld => exact ih
    | finish it owner now hheld => rfl
    | giveUp it owner now hheld =>
      by_cases hlt : it.spent < it.budget <;> simp [holder, Item.holder, hlt]
    | remove it now keepDone keepDead hexpired =>
      -- only terminal items are removed, and nobody holds those
      have hnone : it.holder = none := by
        simp only [Item.holder]
        cases hs : it.stage with
        | held owner => simp [hs, Stage.Expired] at hexpired
        | _ => rfl
      change holder es = none
      rw [ih]
      exact hnone

/-! ## No attempt is closed twice

Only a held attempt is closed, and the next one has a higher number. -/

/-- Every closed attempt was handed out, and the attempt that is still open is not among them. -/
theorem Life.closings_le (h : Life es (some it)) :
    ∀ k ∈ closings es, k ≤ it.spent ∧ (∀ owner, it.stage = .held owner → k < it.spent) := by
  generalize hit : some it = i at h
  induction h generalizing it with
  | unborn => cases hit
  | @next es i e it' hlife hnext ih =>
    cases hit
    intro k hk
    cases hnext with
    | submit cargo budget hpos =>
      rw [hlife.nil_of_none] at hk
      simp [closings] at hk
    | acquire it owner hready hbudget =>
      have := (ih rfl k hk).1
      exact ⟨Nat.le_succ_of_le this, fun _ _ => Nat.lt_succ_of_le this⟩
    | extend it owner hheld => exact ih rfl k hk
    -- the attempt that ends is the current one, and nobody holds the item afterwards
    | finish it owner now hheld =>
      refine ⟨?_, fun _ h => by simp at h⟩
      rcases List.mem_cons.mp hk with rfl | hk
      · exact le_rfl
      · exact (ih rfl k hk).1
    | giveUp it owner now hheld =>
      refine ⟨?_, fun _ h => by split at h <;> simp at h⟩
      rcases List.mem_cons.mp hk with rfl | hk
      · exact le_rfl
      · exact (ih rfl k hk).1
    | remove it now keepDone keepDead hexpired =>
      exact ⟨(ih rfl k hk).1, fun _ h => by simp at h⟩

theorem Life.closings_pairwise {i : Option (Item ω τ π)} (h : Life es i) :
    (closings es).Pairwise (· > ·) := by
  induction h with
  | unborn => exact List.Pairwise.nil
  | @next es i e it' hlife hnext ih =>
    cases hnext with
    | finish it owner now hheld =>
      exact List.Pairwise.cons (fun k hk => (hlife.closings_le k hk).2 owner hheld) ih
    | giveUp it owner now hheld =>
      exact List.Pairwise.cons (fun k hk => (hlife.closings_le k hk).2 owner hheld) ih
    | submit cargo budget hpos => exact ih
    | acquire it owner hready hbudget => exact ih
    | extend it owner hheld => exact ih
    | remove it now keepDone keepDead hexpired => exact ih

theorem Life.closings_nodup {i : Option (Item ω τ π)} (h : Life es i) : (closings es).Nodup :=
  h.closings_pairwise.imp fun hgt => Nat.ne_of_gt hgt

/-! ## Submission and removal -/

/-- An item carries what it was submitted with, and nothing else was ever submitted. -/
theorem Life.submitted (h : Life es (some it)) (cargo : π) (budget : Nat) :
    .submit cargo budget ∈ es ↔ cargo = it.cargo ∧ budget = it.budget := by
  generalize hit : some it = i at h
  induction h generalizing it with
  | unborn => cases hit
  | @next es i e it' hlife hnext ih =>
    cases hit
    cases hnext with
    | submit cargo' budget' hpos => simp [hlife.nil_of_none]
    | acquire it owner hready hbudget => simpa using ih rfl
    | extend it owner hheld => simpa using ih rfl
    | finish it owner now hheld => simpa using ih rfl
    | giveUp it owner now hheld => simpa using ih rfl
    | remove it now keepDone keepDead hexpired => simpa using ih rfl

/-- A removed item was removed by its latest event: nothing happens to it afterwards. -/
theorem Life.removed (h : Life es (some it)) (hrem : it.stage = .removed) :
    ∃ now keepDone keepDead older, es = .remove now keepDone keepDead :: older := by
  cases h with
  | next hlife hnext =>
    cases hnext with
    | submit cargo budget hpos => cases hrem
    | acquire it owner hready hbudget => cases hrem
    | extend it owner hheld => simp [hheld] at hrem
    | finish it owner now hheld => cases hrem
    | giveUp it owner now hheld =>
      simp only at hrem
      split at hrem <;> cases hrem
    | remove it now keepDone keepDead hexpired => exact ⟨now, keepDone, keepDead, _, rfl⟩

end WorkItem
