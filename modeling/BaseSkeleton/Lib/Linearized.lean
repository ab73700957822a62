import BaseSkeleton.Lib.Pool

/-!
# Pools that serve one request at a time

The threads of a pool interleave their calls. If each thread makes at most one call that touches
the part of the store that counts, and what it returns is settled with that call, the pool looks
from outside like an object that serves whole requests, one after the other: the instant of that
call is when a request is served.

* `Pool.Object` — the part of the store that counts, and what serving a request on its own means.
* `Pool.Object.Lawful` — the programs of the pool make one such call, and what they do is what
  serving the request does.
* `Pool.Object.linearized_run` — every run of a lawful pool is a history of served requests, and
  what a thread has returned before a point of the run is not served after it.
-/

namespace Pool

variable {C : Type} {R : C → Type} {σ ρ ω δ α V : Type}

/-- What a pool looks like to somebody who sees requests and results only. -/
structure Object (C σ ρ ω α V : Type) where
  /-- the part of the store that counts -/
  view : σ → V
  /-- the calls that depend on it or change it -/
  visible : C → Bool
  /-- a request is served on its own, in circumstances `w` -/
  serve : ρ → ω → V → α × V

/-- A request that was served, and the thread it was started as. -/
structure Serving (ρ ω : Type) where
  thread : Nat
  request : ρ
  circumstances : ω

namespace Object

variable (o : Object C σ ρ ω α V) (setup : Setup R σ ρ ω δ α)

/-- What the requests of a history leave behind; the newest is at the head. -/
def after (v : V) : List (Serving ρ ω) → V
  | [] => v
  | e :: older => (o.serve e.request e.circumstances (after v older)).2

/-- No visible call is left, and only `a` can be returned. -/
def Settled (a : α) : Program R α → Prop
  | .ret b => b = a
  | .call c k => o.visible c = false ∧ ∀ w s, Settled a (k (setup.handler w c s).1)

/-- The next visible call serves the request, and settles what is returned. -/
def Waiting (request : ρ) : Program R α → Prop
  | .ret _ => True
  | .call c k =>
    if o.visible c then
      ∀ w s, o.view (setup.handler w c s).2 = (o.serve request w (o.view s)).2 ∧
        o.Settled setup (o.serve request w (o.view s)).1 (k (setup.handler w c s).1)
    else ∀ w s, Waiting request (k (setup.handler w c s).1)

/-- The pool does what the object does. -/
structure Lawful : Prop where
  waiting : ∀ request, o.Waiting setup request (setup.program request)
  silent : ∀ w c s, o.visible c = false → o.view (setup.handler w c s).2 = o.view s
  disturbed : ∀ d s, o.view (setup.disturb d s) = o.view s

/-! ## Rules for programs

A program is settled or waiting call by call, so that each rule takes one call off. -/

variable {o setup} {request : ρ} {a : α} {c : C} {p : Program R α}

theorem settled_ret_iff {b : α} : o.Settled setup a (.ret b) ↔ b = a := Iff.rfl

theorem settled_call_iff {k : R c → Program R α} :
    o.Settled setup a (.call c k) ↔
      o.visible c = false ∧ ∀ w s, o.Settled setup a (k (setup.handler w c s).1) := Iff.rfl

theorem waiting_ret {b : α} : o.Waiting setup request (.ret b) := trivial

theorem waiting_visible {k : R c → Program R α} (hc : o.visible c = true) :
    o.Waiting setup request (.call c k) ↔
      ∀ w s, o.view (setup.handler w c s).2 = (o.serve request w (o.view s)).2 ∧
        o.Settled setup (o.serve request w (o.view s)).1 (k (setup.handler w c s).1) := by
  rw [Waiting, if_pos hc]

theorem waiting_silent {k : R c → Program R α} (hc : o.visible c = false) :
    o.Waiting setup request (.call c k) ↔
      ∀ w s, o.Waiting setup request (k (setup.handler w c s).1) := by
  rw [Waiting, if_neg (by simp [hc])]

-- both are read through their rules: unfolding them would run the program
attribute [irreducible] Settled Waiting

/-! ## Serving a request by running it alone

An object may serve a request by running its program alone, over a store that is made of the part
that counts. -/

/-- No visible call is left, and only `a` can be returned, whatever the replies. -/
def Closed (visible : C → Bool) (a : α) : Program R α → Prop
  | .ret b => b = a
  | .call c k => visible c = false ∧ ∀ r, Closed visible a (k r)

theorem Closed.settled (h : Closed o.visible a p) : o.Settled setup a p := by
  induction p with
  | ret b => exact settled_ret_iff.mpr h
  | call c k ih => exact settled_call_iff.mpr ⟨h.1, fun w s => ih _ (h.2 _)⟩

theorem Closed.eval {visible : C → Bool} {view : σ → V} {handler : (c : C) → σ → R c × σ}
    (hsilent : ∀ c s, visible c = false → view (handler c s).2 = view s) (h : Closed visible a p)
    (s : σ) : (p.eval handler s).1 = a ∧ view (p.eval handler s).2 = view s := by
  induction p generalizing s with
  | ret b => exact ⟨h, rfl⟩
  | call c k ih =>
    obtain ⟨hresult, hview⟩ := ih _ (h.2 _) (handler c s).2
    exact ⟨hresult, hview.trans (hsilent c s h.1)⟩

/-- The object that runs each request alone. -/
def alone (view : σ → V) (visible : C → Bool) (embed : V → σ) (base : Setup R σ ρ ω δ α) :
    Object C σ ρ ω α V where
  view := view
  visible := visible
  serve request w v :=
    let done := (base.program request).eval (base.handler w) (embed v)
    (done.1, view done.2)

/-- **A visible call of a program serves its request**, if the rest of the program is closed, and
the program comes to the call when it is alone. -/
theorem waiting_alone {view : σ → V} {visible : C → Bool} {embed : V → σ}
    {base : Setup R σ ρ ω δ α} {k : R c → Program R α} (hc : visible c = true)
    (hsilent : ∀ w c s, visible c = false → view (base.handler w c s).2 = view s)
    (hagree : ∀ w s s', view s' = view s → (setup.handler w c s).1 = (base.handler w c s').1 ∧
      view (setup.handler w c s).2 = view (base.handler w c s').2)
    (hcomes : ∀ w v, ∃ v', view v' = v ∧ (base.program request).eval (base.handler w) (embed v) =
      (Program.call c k).eval (base.handler w) v')
    (hk : ∀ r, ∃ a, Closed visible a (k r)) :
    (alone view visible embed base).Waiting setup request (.call c k) := by
  rw [waiting_visible hc]
  intro w s
  obtain ⟨s', hs', hcall⟩ := hcomes w (view s)
  obtain ⟨hreply, hview⟩ := hagree w s s' hs'
  obtain ⟨a, ha⟩ := hk (base.handler w c s').1
  obtain ⟨hresult, hlast⟩ := ha.eval (hsilent w) (base.handler w c s').2
  have hserve : (alone view visible embed base).serve request w (view s) =
      (a, view (base.handler w c s').2) := by
    show (_, _) = _
    rw [hcall]
    exact Prod.ext hresult hlast
  show view _ = _ ∧ _
  rw [hreply]
  refine ⟨?_, ?_⟩
  · exact hview.trans (congrArg Prod.snd hserve).symm
  · show (alone view visible embed base).Settled setup
      ((alone view visible embed base).serve request w (view s)).1 _
    rw [hserve]
    exact ha.settled

/-! ## Histories

The invariant of a lawful pool: a thread waits for the call it is served with, or has been served,
and the part that counts is what the history leaves behind. -/

/-- A thread is as far as the history says. -/
inductive Stands (o : Object C σ ρ ω α V) (setup : Setup R σ ρ ω δ α) (v : V) (i : Nat)
    (request : ρ) (rest : Program R α) : List (Serving ρ ω) → Prop where
  | served (newer : List (Serving ρ ω)) (w : ω) (older : List (Serving ρ ω))
      (hsettled : o.Settled setup (o.serve request w (o.after v older)).1 rest) :
      Stands o setup v i request rest (newer ++ ⟨i, request, w⟩ :: older)
  | waiting (history : List (Serving ρ ω)) (hnew : ∀ e ∈ history, e.thread ≠ i)
      (hwaiting : o.Waiting setup request rest) : Stands o setup v i request rest history

/-- The pool has come as far as if it had served the requests of `history` one after the other. -/
structure Linearized (o : Object C σ ρ ω α V) (setup : Setup R σ ρ ω δ α) (s : Pool R σ ρ α)
    (history : List (Serving ρ ω)) : Prop where
  view : o.view s.store = o.after (o.view setup.init) history
  /-- a request is served with the visible call of its thread -/
  order : history.map Serving.thread = (s.log.filter fun e => o.visible e.2.1).map Prod.fst
  once : (history.map Serving.thread).Nodup
  started : ∀ e ∈ history, e.thread < s.threads.length
  stands : ∀ (i : Nat) (t : Thread R ρ α), s.threads[i]? = some t →
    Stands o setup (o.view setup.init) i t.request t.rest history
  /-- every visible reply was given at its place in the history -/
  replied : ∀ i e, (i, e) ∈ s.log → o.visible e.1 = true →
    ∃ newer entry older store, history = newer ++ entry :: older ∧ entry.thread = i ∧
      o.view store = o.after (o.view setup.init) older ∧
      e.2 = (setup.handler entry.circumstances e.1 store).1 ∧
      o.view (setup.handler entry.circumstances e.1 store).2 =
        o.after (o.view setup.init) (entry :: older)

variable {s s' t : Pool R σ ρ α} {history : List (Serving ρ ω)} {v : V} {i : Nat}
  {rest : Program R α}

theorem Stands.grow {j : Nat} {e : Serving ρ ω} (h : Stands o setup v j request rest history)
    (he : e.thread ≠ j) : Stands o setup v j request rest (e :: history) := by
  cases h with
  | served newer w older hsettled => exact .served (e :: newer) w older hsettled
  | waiting _ hnew hwaiting => exact .waiting _ (List.forall_mem_cons.mpr ⟨he, hnew⟩) hwaiting

/-- A silent call changes nothing that the history speaks of. -/
theorem Stands.silent {k : R c → Program R α} (hc : o.visible c = false)
    (h : Stands o setup v i request (.call c k) history) (w : ω) (store : σ) :
    Stands o setup v i request (k (setup.handler w c store).1) history := by
  cases h with
  | served newer w' older hsettled =>
    exact .served newer w' older ((settled_call_iff.mp hsettled).2 w store)
  | waiting _ hnew hwaiting => exact .waiting _ hnew ((waiting_silent hc).mp hwaiting w store)

/-- A thread about to make a visible call is still to be served. -/
theorem Stands.visible {k : R c → Program R α} (hc : o.visible c = true)
    (h : Stands o setup v i request (.call c k) history) :
    (∀ e ∈ history, e.thread ≠ i) ∧ o.Waiting setup request (.call c k) := by
  cases h with
  | served newer w older hsettled => exact absurd (settled_call_iff.mp hsettled).1 (by simp [hc])
  | waiting _ hnew hwaiting => exact ⟨hnew, hwaiting⟩

theorem linearized_init : o.Linearized setup (machine setup).init [] where
  view := rfl
  order := rfl
  once := List.nodup_nil
  started e he := absurd he List.not_mem_nil
  stands i t ht := by cases ht
  replied i e he := absurd he List.not_mem_nil

/-- A visible call serves the request of its thread. -/
theorem Linearized.serve {k : R c → Program R α} (h : o.Linearized setup s history)
    (hthread : s.threads[i]? = some ⟨request, .call c k⟩) (hc : o.visible c = true) (w : ω) :
    o.Linearized setup
      { store := (setup.handler w c s.store).2
        threads := s.threads.set i ⟨request, k (setup.handler w c s.store).1⟩
        log := (i, ⟨c, (setup.handler w c s.store).1⟩) :: s.log }
      (⟨i, request, w⟩ :: history) := by
  obtain ⟨hnew, hwaiting⟩ := (h.stands i _ hthread).visible hc
  obtain ⟨hview, hsettled⟩ := (waiting_visible hc).mp hwaiting w s.store
  rw [h.view] at hview hsettled
  refine ⟨hview, ?_, ?_, ?_, ?_, ?_⟩
  · show i :: history.map Serving.thread = (List.filter _ ((i, _) :: s.log)).map Prod.fst
    rw [List.filter_cons_of_pos (by exact hc), List.map_cons, h.order]
  · refine List.nodup_cons.mpr ⟨fun hmem => ?_, h.once⟩
    obtain ⟨e, he, hi⟩ := List.mem_map.mp hmem
    exact hnew e he hi
  · rw [List.length_set]
    exact List.forall_mem_cons.mpr ⟨(List.getElem?_eq_some_iff.mp hthread).1, h.started⟩
  · intro j t ht
    rcases Indexed.getElem?_set_cases ht with ⟨rfl, rfl⟩ | ⟨hne, ht⟩
    · exact .served [] w history hsettled
    · exact (h.stands j t ht).grow (Ne.symm hne)
  · intro j e he hvisible
    rcases List.mem_cons.mp he with heq | he
    · cases heq
      exact ⟨[], ⟨i, request, w⟩, history, s.store, rfl, rfl, h.view, rfl, hview⟩
    · obtain ⟨newer, entry, older, store, rfl, hspec⟩ := h.replied j e he hvisible
      exact ⟨⟨i, request, w⟩ :: newer, entry, older, store, rfl, hspec⟩

/-- A silent call leaves the history as it is. -/
theorem Linearized.silent (hlawful : o.Lawful setup) {k : R c → Program R α}
    (h : o.Linearized setup s history)
    (hthread : s.threads[i]? = some ⟨request, .call c k⟩) (hc : o.visible c = false) (w : ω) :
    o.Linearized setup
      { store := (setup.handler w c s.store).2
        threads := s.threads.set i ⟨request, k (setup.handler w c s.store).1⟩
        log := (i, ⟨c, (setup.handler w c s.store).1⟩) :: s.log } history := by
  refine ⟨(hlawful.silent w c s.store hc).trans h.view, ?_, h.once, ?_, ?_, ?_⟩
  · show history.map Serving.thread = (List.filter _ ((i, _) :: s.log)).map Prod.fst
    rw [List.filter_cons_of_neg (by simp [hc]), h.order]
  · rw [List.length_set]
    exact h.started
  · intro j t ht
    rcases Indexed.getElem?_set_cases ht with ⟨rfl, rfl⟩ | ⟨_, ht⟩
    · exact (h.stands j _ hthread).silent hc w s.store
    · exact h.stands j t ht
  · intro j e he hvisible
    rcases List.mem_cons.mp he with heq | he
    · cases heq
      exact absurd hvisible (by simp [hc])
    · exact h.replied j e he hvisible

/-- **The step lemma.** A step serves at most one request, of a thread that has not returned. -/
theorem linearized_step (hlawful : o.Lawful setup) {input : PoolInput ρ ω δ}
    (h : o.Linearized setup s history) (hstep : (machine setup).step s input = some s') :
    ∃ later, o.Linearized setup s' (later ++ history) ∧
      ∀ e ∈ later, ∃ t, s.threads[e.thread]? = some t ∧ t.rest.done = false := by
  cases step_steps hstep with
  | start request =>
    refine ⟨[], ⟨h.view, h.order, h.once, ?_, ?_, h.replied⟩, by simp⟩
    · intro e he
      rw [List.length_append]
      exact Nat.lt_add_right _ (h.started e he)
    · intro i t ht
      rcases Indexed.getElem?_append_cases ht with ht | ⟨rfl, rfl⟩
      · exact h.stands i t ht
      · exact .waiting _ (fun e he => Nat.ne_of_lt (h.started e he)) (hlawful.waiting request)
  | call i w request c k hthread =>
    cases hc : o.visible c with
    | false => exact ⟨[], h.silent hlawful hthread hc w, by simp⟩
    | true =>
      refine ⟨[⟨i, request, w⟩], h.serve hthread hc w, fun e he => ?_⟩
      rw [List.mem_singleton.mp he]
      exact ⟨_, hthread, rfl⟩
  | disturb d =>
    exact ⟨[], ⟨(hlawful.disturbed d s.store).trans h.view, h.order, h.once, h.started, h.stands,
      h.replied⟩, by simp⟩

/-- A thread that has returned stays as it is. -/
theorem returned_stays {input : PoolInput ρ ω δ} {thread : Thread R ρ α}
    (hstep : (machine setup).step s input = some s') (ht : s.threads[i]? = some thread)
    (hdone : thread.rest.done = true) : s'.threads[i]? = some thread := by
  cases step_steps hstep with
  | start request =>
    have hlt := (List.getElem?_eq_some_iff.mp ht).1
    show (s.threads ++ _)[i]? = _
    rw [List.getElem?_append_left hlt, ht]
  | call j w request c k hthread =>
    have hne : j ≠ i := by
      intro hji
      rw [hji, ht] at hthread
      cases hthread
      cases hdone
    show (s.threads.set j _)[i]? = _
    rw [List.getElem?_set_ne hne, ht]
  | disturb d => exact ht

theorem run_returned_stays {inputs : List (PoolInput ρ ω δ)} {thread : Thread R ρ α}
    (hrun : (machine setup).runFrom s inputs = some t) (ht : s.threads[i]? = some thread)
    (hdone : thread.rest.done = true) : t.threads[i]? = some thread := by
  induction inputs generalizing t with
  | nil =>
    cases hrun
    exact ht
  | cons input older ih =>
    obtain ⟨r, hr, hstep⟩ := Machine.runFrom_cons.mp hrun
    exact returned_stays hstep (ih hr) hdone

/-- **The run lemma.** A run of a lawful pool goes on from the history of the state it starts in,
and serves no request whose thread had returned by then. -/
theorem linearized_run (hlawful : o.Lawful setup) {inputs : List (PoolInput ρ ω δ)}
    (h : o.Linearized setup s history) (hrun : (machine setup).runFrom s inputs = some t) :
    ∃ later, o.Linearized setup t (later ++ history) ∧
      ∀ e ∈ later, ∀ thread, s.threads[e.thread]? = some thread → thread.rest.done = false := by
  induction inputs generalizing t with
  | nil =>
    cases hrun
    exact ⟨[], h, by simp⟩
  | cons input older ih =>
    obtain ⟨r, hr, hstep⟩ := Machine.runFrom_cons.mp hrun
    obtain ⟨later, hlater, hrunning⟩ := ih hr
    obtain ⟨last, hlast, hlive⟩ := linearized_step hlawful hlater hstep
    refine ⟨last ++ later, by rwa [List.append_assoc], fun e he thread ht => ?_⟩
    rcases List.mem_append.mp he with he | he
    · obtain ⟨thread', ht', hlive'⟩ := hlive e he
      by_contra hdone
      rw [Bool.not_eq_false] at hdone
      rw [run_returned_stays hr ht hdone] at ht'
      cases ht'
      rw [hlive'] at hdone
      cases hdone
    · exact hrunning e he thread ht

theorem reachable_linearized (hlawful : o.Lawful setup) (h : (machine setup).Reachable s) :
    ∃ history, o.Linearized setup s history := by
  obtain ⟨inputs, hrun⟩ := h
  obtain ⟨history, hlinearized, _⟩ := linearized_run hlawful linearized_init hrun
  rw [List.append_nil] at hlinearized
  exact ⟨history, hlinearized⟩

/-- A request of the history is the one of its thread. -/
theorem Linearized.request_eq {e : Serving ρ ω} (h : o.Linearized setup s history)
    (he : e ∈ history) : ∃ thread, s.threads[e.thread]? = some thread ∧
      thread.request = e.request := by
  obtain ⟨thread, ht⟩ : ∃ thread, s.threads[e.thread]? = some thread :=
    ⟨_, List.getElem?_eq_getElem (h.started e he)⟩
  refine ⟨thread, ht, ?_⟩
  have hstands := h.stands e.thread thread ht
  generalize hserved : history = served at hstands
  cases hstands with
  | served newer w older _ =>
    have hmem : ⟨e.thread, thread.request, w⟩ ∈ history := by simp [hserved]
    have hsame := List.inj_on_of_nodup_map h.once he hmem rfl
    exact (congrArg Serving.request hsame).symm
  | waiting _ hnew _ => exact absurd rfl (hnew e (hserved ▸ he))

/-- What a thread has returned. -/
theorem Linearized.returned {thread : Thread R ρ α} (h : o.Linearized setup s history)
    (ht : s.threads[i]? = some thread) (hret : thread.rest = .ret a) :
    (∃ newer w older, history = newer ++ ⟨i, thread.request, w⟩ :: older ∧
        a = (o.serve thread.request w (o.after (o.view setup.init) older)).1) ∨
      ∀ e ∈ history, e.thread ≠ i := by
  have hstands := h.stands i thread ht
  rw [hret] at hstands
  cases hstands with
  | served newer w older hsettled => exact Or.inl ⟨newer, w, older, rfl, settled_ret_iff.mp hsettled⟩
  | waiting _ hnew _ => exact Or.inr hnew

end Object

end Pool
