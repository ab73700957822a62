import Mathlib.Data.Option.Basic

/-!
# Input-driven machines and their runs

A `Machine` is an initial state and a partial step function: `step s i` is `none` when input
`i` cannot happen in `s`. Runs are lists of inputs, **newest first**, so that one more step is
one more `cons` and every induction on a run follows the list.

* `Machine.run` — the state a run ends in, if the run is possible.
* `Machine.Reachable.invariant` — the induction every safety proof of a machine goes through.
* `Machine.run_append` / `Machine.runFrom_invariant` — cut a run at an earlier state and reason
  about what came after it.
* `Machine.Reachable.simulate` — a machine that projects onto another one only reaches
  projections of that machine's states.
* `Machine.restrict` — the runs all of whose steps meet a condition, with their invariant rule.
* `Machine.Endless` — runs that never stop.
-/

/-- A machine driven by inputs; `step s i = none` says that `i` is not possible in `s`. -/
structure Machine (σ ι : Type*) where
  init : σ
  step : σ → ι → Option σ

namespace Machine

variable {σ ι σ' ι' : Type*}

/-- The state reached from `s` by `inputs`, the newest input at the head of the list. -/
def runFrom (M : Machine σ ι) (s : σ) : List ι → Option σ
  | [] => some s
  | i :: older => (M.runFrom s older).bind fun r => M.step r i

/-- A run from the initial state. -/
def run (M : Machine σ ι) (inputs : List ι) : Option σ :=
  M.runFrom M.init inputs

/-- The states some run ends in. -/
def Reachable (M : Machine σ ι) (s : σ) : Prop :=
  ∃ inputs, M.run inputs = some s

variable {M : Machine σ ι}

@[simp] theorem runFrom_nil (s : σ) : M.runFrom s [] = some s := rfl

theorem runFrom_cons {s t : σ} {i : ι} {older : List ι} :
    M.runFrom s (i :: older) = some t ↔ ∃ r, M.runFrom s older = some r ∧ M.step r i = some t := by
  simp [runFrom, Option.bind_eq_some_iff]

theorem run_cons {t : σ} {i : ι} {older : List ι} :
    M.run (i :: older) = some t ↔ ∃ r, M.run older = some r ∧ M.step r i = some t :=
  runFrom_cons

/-! ## Cutting a run -/

/-- A run whose oldest inputs are `older` passes through the state `older` ends in. -/
theorem runFrom_append {s t : σ} {newer older : List ι} :
    M.runFrom s (newer ++ older) = some t ↔
      ∃ r, M.runFrom s older = some r ∧ M.runFrom r newer = some t := by
  induction newer generalizing t with
  | nil => simp
  | cons i newer ih =>
    rw [List.cons_append, runFrom_cons]
    constructor
    · rintro ⟨q, hq, hstep⟩
      obtain ⟨r, hr, hrq⟩ := ih.mp hq
      exact ⟨r, hr, runFrom_cons.mpr ⟨q, hrq, hstep⟩⟩
    · rintro ⟨r, hr, hrt⟩
      obtain ⟨q, hrq, hstep⟩ := runFrom_cons.mp hrt
      exact ⟨q, ih.mpr ⟨r, hr, hrq⟩, hstep⟩

theorem run_append {t : σ} {newer older : List ι} :
    M.run (newer ++ older) = some t ↔
      ∃ r, M.run older = some r ∧ M.runFrom r newer = some t :=
  runFrom_append

/-! ## Reachable states -/

theorem reachable_init : M.Reachable M.init := ⟨[], rfl⟩

theorem reachable_get {inputs : List ι} (h : (M.run inputs).isSome) :
    M.Reachable ((M.run inputs).get h) :=
  ⟨inputs, (Option.some_get h).symm⟩

theorem Reachable.next {s t : σ} {i : ι} (h : M.Reachable s) (hstep : M.step s i = some t) :
    M.Reachable t := by
  obtain ⟨inputs, hrun⟩ := h
  exact ⟨i :: inputs, run_cons.mpr ⟨s, hrun, hstep⟩⟩

theorem Reachable.runFrom {s t : σ} {inputs : List ι} (h : M.Reachable s)
    (hrun : M.runFrom s inputs = some t) : M.Reachable t := by
  obtain ⟨older, holder⟩ := h
  exact ⟨inputs ++ older, run_append.mpr ⟨s, holder, hrun⟩⟩

/-- **The invariant rule.** What holds initially and is kept by every step out of a reachable
state holds of every reachable state. -/
theorem Reachable.invariant {P : σ → Prop} (h0 : P M.init)
    (hstep : ∀ s i t, M.Reachable s → P s → M.step s i = some t → P t) {s : σ}
    (h : M.Reachable s) : P s := by
  obtain ⟨inputs, hrun⟩ := h
  induction inputs generalizing s with
  | nil =>
    cases hrun
    exact h0
  | cons i older ih =>
    obtain ⟨r, hr, hrs⟩ := run_cons.mp hrun
    exact hstep r i s ⟨older, hr⟩ (ih hr) hrs

/-- What one step out of a reachable state keeps, a whole continuation keeps. -/
theorem Reachable.runFrom_invariant {P : σ → Prop}
    (hstep : ∀ s i t, M.Reachable s → P s → M.step s i = some t → P t) {s t : σ}
    {inputs : List ι} (h : M.Reachable s) (hs : P s) (hrun : M.runFrom s inputs = some t) :
    P t := by
  induction inputs generalizing t with
  | nil =>
    cases hrun
    exact hs
  | cons i older ih =>
    obtain ⟨r, hr, hrt⟩ := runFrom_cons.mp hrun
    exact hstep r i t (h.runFrom hr) (ih hr) hrt

/-- **Projection.** If every step of `M` is either invisible through `f` or a step of `N`, then
`f` maps the reachable states of `M` to reachable states of `N`. -/
theorem Reachable.simulate {N : Machine σ' ι'} (f : σ → σ') (h0 : f M.init = N.init)
    (hstep : ∀ s i t, M.Reachable s → M.step s i = some t →
      f t = f s ∨ ∃ j, N.step (f s) j = some (f t)) {s : σ} (h : M.Reachable s) :
    N.Reachable (f s) := by
  refine Reachable.invariant (P := fun s => N.Reachable (f s)) ?_ ?_ h
  · rw [h0]
    exact reachable_init
  · intro s i t hs hfs ht
    rcases hstep s i t hs ht with heq | ⟨j, hj⟩
    · rwa [heq]
    · exact hfs.next hj

/-! ## Runs under a condition -/

/-- The steps of `M` that meet a condition on the state before the step and its input. -/
def restrict (M : Machine σ ι) (ok : σ → ι → Prop) [∀ s i, Decidable (ok s i)] : Machine σ ι where
  init := M.init
  step s i := if ok s i then M.step s i else none

variable {ok : σ → ι → Prop} [∀ s i, Decidable (ok s i)]

theorem restrict_step {s t : σ} {i : ι} :
    (M.restrict ok).step s i = some t ↔ ok s i ∧ M.step s i = some t := by
  show (if ok s i then M.step s i else none) = some t ↔ _
  split
  · next hok => exact ⟨fun h => ⟨hok, h⟩, fun h => h.2⟩
  · next hok => exact ⟨fun h => (nomatch h), fun h => absurd h.1 hok⟩

theorem Reachable.of_restrict {s : σ} (h : (M.restrict ok).Reachable s) : M.Reachable s := by
  refine Reachable.invariant (M := M.restrict ok) (P := M.Reachable) reachable_init ?_ h
  intro s i t _ hs ht
  exact hs.next (restrict_step.mp ht).2

/-- The invariant rule of the runs under a condition. -/
theorem Reachable.restrict_invariant {P : σ → Prop} (h0 : P M.init)
    (hstep : ∀ s i t, M.Reachable s → P s → ok s i → M.step s i = some t → P t) {s : σ}
    (h : (M.restrict ok).Reachable s) : P s := by
  refine Reachable.invariant (M := M.restrict ok) h0 ?_ h
  intro s i t hreach hs ht
  obtain ⟨hok, ht⟩ := restrict_step.mp ht
  exact hstep s i t hreach.of_restrict hs hok ht

/-! ## Endless runs

A sequence of states with the inputs between them. Each state of it is reachable. -/

/-- A run that goes on forever; `states n` is the state before its step `n`. -/
structure Endless (M : Machine σ ι) where
  states : Nat → σ
  inputs : Nat → ι
  start : M.Reachable (states 0)
  step : ∀ n, M.step (states n) (inputs n) = some (states (n + 1))

theorem Endless.reachable (r : M.Endless) (n : Nat) : M.Reachable (r.states n) := by
  induction n with
  | zero => exact r.start
  | succ n ih => exact ih.next (r.step n)

/-- What every step from `n` on keeps holds from `n` on. -/
theorem Endless.invariant {P : σ → Prop} (r : M.Endless) {n : Nat} (hn : P (r.states n))
    (hstep : ∀ m, n ≤ m → P (r.states m) → P (r.states (m + 1))) {m : Nat} (hm : n ≤ m) :
    P (r.states m) := by
  induction hm with
  | refl => exact hn
  | step hm ih => exact hstep _ hm ih

end Machine
