import Mathlib.Algebra.BigOperators.Group.Finset.Piecewise
import Mathlib.Algebra.GroupWithZero.Nat
import BaseSkeleton.Lib.Indexed
import BaseSkeleton.Lib.Machine
import BaseSkeleton.Lib.Program

/-!
# Programs that share a store

A `Pool` runs programs next to each other: each step starts one, or lets one of them make its next
call, or disturbs the store from outside. The log records every call with its reply and with the
thread that made it, newest first.

* `Pool.exchanges` — the calls of one thread in the log; `sum_exchanges` adds up all threads.
* `Pool.Inv` / `reachable_inv` — every thread is as far as its calls in the log have brought it.
* `Pool.Ordered` / `reachable_ordered` — if no thread starts before all others have returned, the
  calls of the threads follow each other in the log as the threads were started.
-/

variable {C : Type} {R : C → Type} {σ ρ ω δ α : Type}

/-- A program that was started for a request, as far as it has come. -/
structure Thread (R : C → Type) (ρ α : Type) where
  request : ρ
  rest : Program R α

/-- The threads, what they share, and what they have called. -/
structure Pool (R : C → Type) (σ ρ α : Type) where
  store : σ
  threads : List (Thread R ρ α)
  log : List (Nat × Program.Exchange R)

/-- What can happen in a pool. -/
inductive PoolInput (ρ ω δ : Type) where
  | start (request : ρ)
  /-- thread `i` makes its next call, in circumstances `w` -/
  | call (i : Nat) (w : ω)
  | disturb (d : δ)

namespace Pool

/-- What a pool is made of. -/
structure Setup (R : C → Type) (σ ρ ω δ α : Type) where
  program : ρ → Program R α
  handler : ω → (c : C) → σ → R c × σ
  disturb : δ → σ → σ
  init : σ

variable (setup : Setup R σ ρ ω δ α)

def step (s : Pool R σ ρ α) : PoolInput ρ ω δ → Option (Pool R σ ρ α)
  | .start request =>
    some { s with threads := s.threads ++ [⟨request, setup.program request⟩] }
  | .call i w =>
    match s.threads[i]? with
    | some ⟨request, .call c k⟩ =>
      let reply := (setup.handler w c s.store).1
      some
        { store := (setup.handler w c s.store).2
          threads := s.threads.set i ⟨request, k reply⟩
          log := (i, ⟨c, reply⟩) :: s.log }
    | _ => none
  | .disturb d => some { s with store := setup.disturb d s.store }

def machine : Machine (Pool R σ ρ α) (PoolInput ρ ω δ) where
  init := ⟨setup.init, [], []⟩
  step := step setup

/-- All threads have returned. -/
def Quiescent (s : Pool R σ ρ α) : Prop :=
  ∀ t ∈ s.threads, t.rest.done = true

instance (s : Pool R σ ρ α) : Decidable s.Quiescent :=
  inferInstanceAs (Decidable (∀ t ∈ s.threads, t.rest.done = true))

/-- The calls of thread `i` in a log. -/
def exchanges (i : Nat) (log : List (Nat × Program.Exchange R)) : List (Program.Exchange R) :=
  log.filterMap fun e => if e.1 = i then some e.2 else none

variable {setup} {s s' : Pool R σ ρ α} {i : Nat} {e : Program.Exchange R}
  {log newer older : List (Nat × Program.Exchange R)}

theorem mem_exchanges : e ∈ exchanges i log ↔ (i, e) ∈ log := by
  unfold exchanges
  rw [List.mem_filterMap]
  constructor
  · intro h
    obtain ⟨⟨j, e'⟩, hmem, heq⟩ := h
    simp only [Option.ite_none_right_eq_some, Option.some.injEq] at heq
    obtain ⟨rfl, rfl⟩ := heq
    exact hmem
  · intro h
    exact ⟨(i, e), h, if_pos rfl⟩

theorem exchanges_cons_self : exchanges i ((i, e) :: log) = e :: exchanges i log := by
  simp [exchanges]

theorem exchanges_cons_ne {j : Nat} (h : j ≠ i) :
    exchanges i ((j, e) :: log) = exchanges i log := by
  simp [exchanges, h]

theorem exchanges_append :
    exchanges i (newer ++ (i, e) :: older) = exchanges i newer ++ e :: exchanges i older := by
  rw [← exchanges_cons_self]
  exact List.filterMap_append

/-- A sum over a log is the sum over its threads. -/
theorem sum_exchanges (f : Program.Exchange R → Nat) {n : Nat} (h : ∀ e ∈ log, e.1 < n) :
    (∑ i ∈ Finset.range n, ((exchanges i log).map f).sum) = (log.map fun e => f e.2).sum := by
  induction log with
  | nil => simp [exchanges]
  | cons e log ih =>
    obtain ⟨j, e⟩ := e
    have hj : j ∈ Finset.range n := Finset.mem_range.mpr (h _ List.mem_cons_self)
    have hsplit : ∀ i, ((exchanges i ((j, e) :: log)).map f).sum =
        (if j = i then f e else 0) + ((exchanges i log).map f).sum := by
      intro i
      by_cases hi : j = i
      · rw [← hi, exchanges_cons_self, if_pos rfl, List.map_cons, List.sum_cons]
      · rw [exchanges_cons_ne hi, if_neg hi, Nat.zero_add]
    rw [Finset.sum_congr rfl fun i _ => hsplit i, Finset.sum_add_distrib, Finset.sum_ite_eq,
      if_pos hj, ih fun e he => h e (List.mem_cons_of_mem _ he), List.map_cons, List.sum_cons]

/-- Every thread has come as far as its calls in the log have brought it. -/
structure Inv (setup : Setup R σ ρ ω δ α) (s : Pool R σ ρ α) : Prop where
  follows : ∀ (i : Nat) (t : Thread R ρ α), s.threads[i]? = some t →
    (setup.program t.request).Follows (exchanges i s.log) t.rest
  bounded : ∀ e ∈ s.log, e.1 < s.threads.length

/-- **Inversion of `step`.** -/
inductive Steps (setup : Setup R σ ρ ω δ α) (s : Pool R σ ρ α) :
    PoolInput ρ ω δ → Pool R σ ρ α → Prop where
  | start (request : ρ) :
      Steps setup s (.start request)
        { s with threads := s.threads ++ [⟨request, setup.program request⟩] }
  | call (i : Nat) (w : ω) (request : ρ) (c : C) (k : R c → Program R α)
      (hthread : s.threads[i]? = some ⟨request, .call c k⟩) :
      Steps setup s (.call i w)
        { store := (setup.handler w c s.store).2
          threads := s.threads.set i ⟨request, k (setup.handler w c s.store).1⟩
          log := (i, ⟨c, (setup.handler w c s.store).1⟩) :: s.log }
  | disturb (d : δ) :
      Steps setup s (.disturb d) { s with store := setup.disturb d s.store }

theorem step_steps {input : PoolInput ρ ω δ} (h : (machine setup).step s input = some s') :
    Steps setup s input s' := by
  cases input with
  | start request =>
    cases h
    exact .start request
  | call i w =>
    unfold machine step at h
    simp only at h
    split at h
    · next request c k hthread =>
      cases h
      exact .call i w request c k hthread
    · cases h
  | disturb d =>
    cases h
    exact .disturb d

/-- A call that nobody has made yet. -/
theorem exchanges_eq_nil (h : ∀ e ∈ log, e.1 < i) : exchanges i log = [] := by
  refine List.eq_nil_iff_forall_not_mem.mpr fun e he => ?_
  exact Nat.lt_irrefl _ (h _ (mem_exchanges.mp he))

theorem inv_init : Inv setup (machine setup).init where
  follows i t ht := by cases ht
  bounded e he := by cases he

theorem inv_step {input : PoolInput ρ ω δ} (hinv : Inv setup s)
    (h : (machine setup).step s input = some s') : Inv setup s' := by
  cases step_steps h with
  | start request =>
    refine ⟨?_, ?_⟩
    · intro i t ht
      rcases Indexed.getElem?_append_cases ht with ht | ⟨rfl, rfl⟩
      · exact hinv.follows i t ht
      · rw [exchanges_eq_nil hinv.bounded]
        exact .start
    · intro e he
      rw [List.length_append]
      exact Nat.lt_add_right _ (hinv.bounded e he)
  | call i w request c k hthread =>
    refine ⟨?_, ?_⟩
    · intro j t ht
      rcases Indexed.getElem?_set_cases ht with ⟨rfl, rfl⟩ | ⟨hne, ht⟩
      · rw [exchanges_cons_self]
        exact .reply (hinv.follows j _ hthread) _
      · rw [exchanges_cons_ne (Ne.symm hne)]
        exact hinv.follows j t ht
    · intro e he
      rw [List.length_set]
      rcases List.mem_cons.mp he with rfl | he
      · exact (List.getElem?_eq_some_iff.mp hthread).1
      · exact hinv.bounded e he
  | disturb d => exact ⟨hinv.follows, hinv.bounded⟩

/-- **The run lemma.** -/
theorem reachable_inv (h : (machine setup).Reachable s) : Inv setup s := by
  refine Machine.Reachable.invariant inv_init ?_ h
  intro s input s' _ hinv hstep
  exact inv_step hinv hstep

/-! ## One thread after the other

If a thread starts only when the pool is quiescent, the last thread is the only one that can move.
-/

/-- Only the thread that was started last runs, and the calls of a thread come after all calls of
the threads that were started before. -/
structure Ordered (s : Pool R σ ρ α) : Prop where
  running : ∀ (i : Nat) (t : Thread R ρ α), s.threads[i]? = some t → t.rest.done = false →
    i + 1 = s.threads.length
  pairwise : s.log.Pairwise fun later earlier => earlier.1 ≤ later.1

theorem ordered_init : Ordered (machine setup).init where
  running i t ht := by cases ht
  pairwise := List.Pairwise.nil

theorem ordered_step {input : PoolInput ρ ω δ} (hinv : Inv setup s) (hordered : Ordered s)
    (hstart : ∀ request, input = .start request → s.Quiescent)
    (h : (machine setup).step s input = some s') : Ordered s' := by
  cases step_steps h with
  | start request =>
    refine ⟨?_, hordered.pairwise⟩
    intro i t ht hrunning
    rcases Indexed.getElem?_append_cases ht with ht | ⟨rfl, rfl⟩
    · have hdone := hstart request rfl t (List.mem_of_getElem? ht)
      rw [hrunning] at hdone
      cases hdone
    · simp
  | call i w request c k hthread =>
    have hlast := hordered.running i _ hthread rfl
    refine ⟨?_, ?_⟩
    · intro j t ht hrunning
      rw [List.length_set]
      rcases Indexed.getElem?_set_cases ht with ⟨rfl, rfl⟩ | ⟨_, ht⟩
      · exact hlast
      · exact hordered.running j t ht hrunning
    · refine List.Pairwise.cons ?_ hordered.pairwise
      intro e he
      have hbound := hinv.bounded e he
      show e.1 ≤ i
      omega
  | disturb d => exact ⟨hordered.running, hordered.pairwise⟩

/-- **Threads that are started one after the other** are ordered in the log. -/
theorem reachable_ordered {ok : Pool R σ ρ α → PoolInput ρ ω δ → Prop}
    [∀ s input, Decidable (ok s input)]
    (hok : ∀ s request, ok s (.start request) → s.Quiescent)
    (h : ((machine setup).restrict ok).Reachable s) : Ordered s := by
  refine Machine.Reachable.restrict_invariant ordered_init ?_ h
  intro s input s' hreach hordered hallowed hstep
  refine ordered_step (reachable_inv hreach) hordered (fun request hinput => ?_) hstep
  rw [hinput] at hallowed
  exact hok s request hallowed

end Pool
