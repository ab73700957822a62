import Mathlib.Logic.Function.Basic
import BaseSkeleton.Lib.Pool

/-!
# Waiting for the threads of a pool

Somebody waits for each thread of a pool: until the thread has returned, or until the wait is cut
off. A thread that is cut off runs no more of its program. The call it was waiting for may still
take effect, and nobody learns of the reply.

* `Pool.awaited` — the pool with those who wait for its threads.
* `Pool.reachable_pool` — the pool is in a state that it reaches alone.
* `Pool.returned_ending` — a wait that was not cut off has ended with the result of its thread.
-/

variable {C : Type} {R : C → Type} {σ ρ ω δ α : Type}

/-- How the wait for a thread has ended. -/
inductive Ending (α : Type) where
  | returned (a : α)
  | cutOff

/-- A pool, and how the waits for its threads have ended. -/
structure Awaited (R : C → Type) (σ ρ α : Type) where
  pool : Pool R σ ρ α
  endings : Nat → Option (Ending α)
  /-- the threads that were cut off, until a call of theirs takes effect -/
  inFlight : Nat → Bool

/-- What can happen in a pool while somebody waits for its threads. -/
inductive AwaitedInput (ρ ω δ : Type) where
  | run (input : PoolInput ρ ω δ)
  /-- thread `i` has returned, and whoever waits for it has the result -/
  | respond (i : Nat)
  /-- the wait for thread `i` is cut off -/
  | expire (i : Nat)

namespace Awaited

/-- A thread that was cut off makes one call at most, the one it was waiting for. -/
def mayRun (s : Awaited R σ ρ α) : PoolInput ρ ω δ → Bool
  | .call i _ => (s.endings i).isNone || s.inFlight i
  | _ => true

/-- The calls that may still take effect. -/
def landed (s : Awaited R σ ρ α) : PoolInput ρ ω δ → Nat → Bool
  | .call i _ => Function.update s.inFlight i false
  | _ => s.inFlight

end Awaited

namespace Pool

def awaitedStep (setup : Setup R σ ρ ω δ α) (s : Awaited R σ ρ α) :
    AwaitedInput ρ ω δ → Option (Awaited R σ ρ α)
  | .run input =>
    if s.mayRun input then
      (step setup s.pool input).map fun pool => ⟨pool, s.endings, s.landed input⟩
    else none
  | .respond i =>
    match s.endings i, s.pool.threads[i]? with
    | none, some ⟨_, .ret a⟩ =>
      some { s with endings := Function.update s.endings i (some (.returned a)) }
    | _, _ => none
  | .expire i =>
    match s.endings i, s.pool.threads[i]? with
    | none, some _ =>
      some
        { s with
          endings := Function.update s.endings i (some .cutOff)
          inFlight := Function.update s.inFlight i true }
    | _, _ => none

/-- A pool with somebody who waits for each thread. -/
def awaited (setup : Setup R σ ρ ω δ α) : Machine (Awaited R σ ρ α) (AwaitedInput ρ ω δ) where
  init := ⟨(machine setup).init, fun _ => none, fun _ => false⟩
  step := awaitedStep setup

variable {setup : Setup R σ ρ ω δ α} {s s' : Pool R σ ρ α} {t t' : Awaited R σ ρ α} {i : Nat}

/-- **Inversion of `awaitedStep`.** -/
inductive AwaitedSteps (setup : Setup R σ ρ ω δ α) (t : Awaited R σ ρ α) :
    AwaitedInput ρ ω δ → Awaited R σ ρ α → Prop where
  | run (input : PoolInput ρ ω δ) (pool : Pool R σ ρ α)
      (hstep : (machine setup).step t.pool input = some pool) :
      AwaitedSteps setup t (.run input) ⟨pool, t.endings, t.landed input⟩
  | respond (i : Nat) (request : ρ) (a : α) (hthread : t.pool.threads[i]? = some ⟨request, .ret a⟩) :
      AwaitedSteps setup t (.respond i)
        { t with endings := Function.update t.endings i (some (.returned a)) }
  | expire (i : Nat) :
      AwaitedSteps setup t (.expire i)
        { t with
          endings := Function.update t.endings i (some .cutOff)
          inFlight := Function.update t.inFlight i true }

theorem awaitedStep_steps {input : AwaitedInput ρ ω δ}
    (h : (awaited setup).step t input = some t') : AwaitedSteps setup t input t' := by
  unfold awaited awaitedStep at h
  cases input with
  | run input =>
    simp only at h
    split at h
    · obtain ⟨pool, hstep, rfl⟩ := Option.map_eq_some_iff.mp h
      exact .run input pool hstep
    · cases h
  | respond i =>
    simp only at h
    split at h
    · next request a _ hthread =>
      cases h
      exact .respond i request a hthread
    · cases h
  | expire i =>
    simp only at h
    split at h
    · cases h
      exact .expire i
    · cases h

/-- **The pool does what it can do alone.** -/
theorem reachable_pool (h : (awaited setup).Reachable t) : (machine setup).Reachable t.pool := by
  refine Machine.Reachable.simulate (N := machine setup) Awaited.pool rfl ?_ h
  intro t input t' _ hstep
  cases awaitedStep_steps hstep with
  | run input pool hrun => exact Or.inr ⟨input, hrun⟩
  | respond => exact Or.inl rfl
  | expire => exact Or.inl rfl

/-! ## What somebody has who waited

A thread that has returned does not move again, so the result that somebody got is the one the
thread shows from then on. -/

/-- A thread that has returned stays as it is. -/
theorem returned_kept {input : PoolInput ρ ω δ} {request : ρ} {a : α}
    (h : (machine setup).step s input = some s')
    (hthread : s.threads[i]? = some ⟨request, .ret a⟩) :
    s'.threads[i]? = some ⟨request, .ret a⟩ := by
  cases step_steps h with
  | start request' =>
    rw [List.getElem?_append_left (List.getElem?_eq_some_iff.mp hthread).1, hthread]
  | call j w request' c k hcalls =>
    -- the thread that makes a call is another one
    have hne : j ≠ i := by
      rintro rfl
      cases hcalls.symm.trans hthread
    rw [List.getElem?_set_ne hne, hthread]
  | disturb d => exact hthread

/-- **The result of a wait** is the one its thread has returned. -/
theorem returned_ending (h : (awaited setup).Reachable t) {a : α}
    (hending : t.endings i = some (.returned a)) :
    ∃ request, t.pool.threads[i]? = some ⟨request, .ret a⟩ := by
  refine Machine.Reachable.invariant (P := fun t => ∀ i a, t.endings i = some (.returned a) →
    ∃ request, t.pool.threads[i]? = some ⟨request, .ret a⟩) ?_ ?_ h i a hending
  · intro i a hnone
    cases hnone
  · intro t input t' _ ih hstep i a hending
    cases awaitedStep_steps hstep with
    | run input pool hrun =>
      obtain ⟨request, hthread⟩ := ih i a hending
      exact ⟨request, returned_kept hrun hthread⟩
    | respond j request b hthread =>
      simp only [Function.update_apply] at hending
      split at hending
      · next hij =>
        cases hending
        exact ⟨request, hij ▸ hthread⟩
      · exact ih i a hending
    | expire j =>
      simp only [Function.update_apply] at hending
      split at hending
      · cases hending
      · exact ih i a hending

end Pool
