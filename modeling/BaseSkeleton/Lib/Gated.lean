import Mathlib.Logic.Function.Basic
import BaseSkeleton.Lib.Pool

/-!
# Pools behind a gate

A `Gate` stands in front of a pool. It makes calls of its own, which look at the store and leave it
alone; then it ends a request with a result, or lets it enter the pool as a request of the pool,
and passes on what the pool returns.

* `Pool.Gate.setup` — the pool with its gate.
* `Pool.Behind` — a state of the gated pool has the state of a pool without a gate behind it.
* `Pool.behind_run` — every run of the gated pool has a run of the pool behind it.
-/

variable {C D : Type} {R : C → Type} {Q : D → Type} {σ ρ κ ω ω' δ α β : Type}

/-- The replies to calls of two kinds. -/
@[reducible] def EitherReply (R : C → Type) (Q : D → Type) : C ⊕ D → Type
  | .inl c => R c
  | .inr d => Q d

namespace Program

/-- A program whose calls are of the first kind. -/
def inside : Program R α → Program (EitherReply R Q) α
  | ret a => ret a
  | call c k => call (.inl c) fun r => (k r).inside

/-- A program whose calls are of the second kind. -/
def outside : Program Q α → Program (EitherReply R Q) α
  | ret a => ret a
  | call d k => call (.inr d) fun r => (k r).outside

/-- The calls of the first kind. -/
def Exchange.inside : Exchange (EitherReply R Q) → Option (Exchange R)
  | ⟨.inl c, r⟩ => some ⟨c, r⟩
  | ⟨.inr _, _⟩ => none

/-- The calls of the second kind. -/
def Exchange.outside : Exchange (EitherReply R Q) → Option (Exchange Q)
  | ⟨.inl _, _⟩ => none
  | ⟨.inr d, r⟩ => some ⟨d, r⟩

theorem bind_assoc {γ : Type} (p : Program R α) (f : α → Program R β) (g : β → Program R γ) :
    (p.bind f).bind g = p.bind fun a => (f a).bind g := by
  induction p with
  | ret a => rfl
  | call c k ih => exact congrArg (call c) (funext ih)

theorem bind_ret (p : Program R α) : p.bind .ret = p := by
  induction p with
  | ret a => rfl
  | call c k ih => exact congrArg (call c) (funext ih)

theorem inside_bind (p : Program R α) (f : α → Program R β) :
    (p.bind f).inside (Q := Q) = p.inside.bind fun a => (f a).inside := by
  induction p with
  | ret a => rfl
  | call c k ih => exact congrArg (call (Sum.inl c)) (funext ih)

theorem inside_map_eq_ret {p : Program R α} {f : α → β} {b : β} :
    (p.map f).inside (Q := Q) = .ret b ↔ ∃ a, p = .ret a ∧ f a = b := by
  cases p with
  | ret a =>
    constructor
    · intro h
      cases h
      exact ⟨a, rfl, rfl⟩
    · rintro ⟨a, ha, rfl⟩
      cases ha
      rfl
  | call c k =>
    constructor
    · intro h
      cases h
    · rintro ⟨a, ha, _⟩
      cases ha

end Program

/-- What becomes of a request at a gate. -/
inductive Passage (β ρ : Type) where
  | ends (b : β)
  | enters (request : ρ)

/-- How requests come into a pool, and results out of it. -/
structure Gate (Q : D → Type) (σ ρ κ ω' α β : Type) where
  pass : κ → Program Q (Passage β ρ)
  leave : κ → α → β
  /-- the calls of the gate look at the store -/
  answer : ω' → (d : D) → σ → Q d

namespace Pool

open Program (Exchange)

namespace Gate

variable (gate : Gate Q σ ρ κ ω' α β) (program : ρ → Program R α) (request : κ)

/-- What a request does when it has come through the gate. -/
def beyond : Passage β ρ → Program (EitherReply R Q) β
  | .ends b => .ret b
  | .enters r => ((program r).map (gate.leave request)).inside

/-- What a request does that has come as far as `p` at the gate. -/
def before (p : Program Q (Passage β ρ)) : Program (EitherReply R Q) β :=
  p.outside.bind (beyond gate program request)

/-- The pool with its gate. -/
def setup (setup : Setup R σ ρ ω δ α) :
    Setup (EitherReply R Q) σ κ (ω × ω') δ β where
  program request := before gate setup.program request (gate.pass request)
  handler w
    | .inl c => setup.handler w.1 c
    | .inr d => fun s => (gate.answer w.2 d s, s)
  disturb := setup.disturb
  init := setup.init

end Gate

/-! ## The pool behind a gated pool

A thread of the gated pool is before the gate or beyond it. `door` says which thread of the pool
behind a thread beyond the gate is, and `threshold` is one that may be about to enter. -/

/-- A call of the pool, under the thread that makes it there. -/
def through (door : Nat → Option Nat) (e : Nat × Exchange (EitherReply R Q)) :
    Option (Nat × Exchange R) :=
  match door e.1, e.2.inside with
  | some j, some e => some (j, e)
  | _, _ => none

/-- The calls that thread `i` has made at the gate. -/
def gateExchanges (i : Nat) (log : List (Nat × Exchange (EitherReply R Q))) : List (Exchange Q) :=
  (exchanges i log).filterMap Exchange.outside

/-- The calls that thread `i` has made behind the gate. -/
def poolExchanges (i : Nat) (log : List (Nat × Exchange (EitherReply R Q))) : List (Exchange R) :=
  (exchanges i log).filterMap Exchange.inside

/-- Where a thread of the gated pool is, and what it is in the pool behind; `threshold` says that
it may be about to enter. -/
inductive Stands (gate : Gate Q σ ρ κ ω' α β) (setup : Setup R σ ρ ω δ α) (threshold : Prop)
    (trace : List (Exchange Q)) (t : Pool R σ ρ α) :
    Option Nat → Thread (EitherReply R Q) κ β → Prop where
  | before (request : κ) (p : Program Q (Passage β ρ))
      (hfollows : (gate.pass request).Follows trace p)
      (hout : ∀ r, p = .ret (.enters r) → threshold) :
      Stands gate setup threshold trace t none
        ⟨request, Gate.before gate setup.program request p⟩
  | beyond (request : κ) (r : ρ) (q : Program R α) (j : Nat)
      (hfollows : (gate.pass request).Follows trace (.ret (.enters r)))
      (hthread : t.threads[j]? = some ⟨r, q⟩) :
      Stands gate setup threshold trace t (some j)
        ⟨request, (q.map (gate.leave request)).inside⟩

/-- The pool `t` is behind the gated pool `s`: thread `i` of `s` has become thread `door i` of `t`,
or has not entered. Only the thread `threshold` may be about to. -/
structure Behind (gate : Gate Q σ ρ κ ω' α β) (setup : Setup R σ ρ ω δ α)
    (threshold : Option Nat) (door : Nat → Option Nat)
    (s : Pool (EitherReply R Q) σ κ β) (t : Pool R σ ρ α) : Prop where
  store : t.store = s.store
  log : t.log = s.log.filterMap (through door)
  called : ∀ e ∈ s.log, e.2.inside.isSome → (door e.1).isSome
  injective : ∀ i i' j, door i = some j → door i' = some j → i = i'
  bounded : ∀ i j, door i = some j → i < s.threads.length ∧ j < t.threads.length
  entered : ∀ j < t.threads.length, ∃ i, door i = some j
  stands : ∀ i thread, s.threads[i]? = some thread →
    Stands gate setup (threshold = some i) (gateExchanges i s.log) t (door i) thread

variable {gate : Gate Q σ ρ κ ω' α β} {setup : Setup R σ ρ ω δ α}
  {s s' : Pool (EitherReply R Q) σ κ β} {t t' : Pool R σ ρ α} {door : Nat → Option Nat}
  {threshold : Option Nat} {trace : List (Exchange Q)} {i : Nat}

theorem behind_init :
    Behind gate setup none (fun _ => none) (machine (Gate.setup gate setup)).init
      (machine setup).init where
  store := rfl
  log := rfl
  called e he := absurd he List.not_mem_nil
  injective i i' j h := by cases h
  bounded i j h := by cases h
  entered j h := absurd h (Nat.not_lt_zero j)
  stands i thread h := by cases h

/-- A thread stands where it stood after others have moved in the pool behind. -/
theorem Stands.mono {P P' : Prop} {j : Option Nat} {thread : Thread (EitherReply R Q) κ β}
    (h : Stands gate setup P trace t j thread) (hP : P → P')
    (hthreads : ∀ k inner, j = some k → t.threads[k]? = some inner → t'.threads[k]? = some inner) :
    Stands gate setup P' trace t' j thread := by
  cases h with
  | before request p hfollows hout => exact .before request p hfollows fun r hr => hP (hout r hr)
  | beyond request r q k hfollows hthread =>
    exact .beyond request r q k hfollows (hthreads k _ rfl hthread)

/-- A request that did not enter has made no call behind the gate. -/
theorem Behind.poolExchanges_of_none (h : Behind gate setup threshold door s t)
    (hdoor : door i = none) : poolExchanges i s.log = [] := by
  refine List.filterMap_eq_nil_iff.mpr fun e he => ?_
  cases hinside : e.inside with
  | none => rfl
  | some e' =>
    have hcalled := h.called (i, e) (mem_exchanges.mp he) (by rw [hinside]; rfl)
    rw [hdoor] at hcalled
    cases hcalled

/-- The calls of a request that has entered are those of its thread behind the gate. -/
theorem Behind.poolExchanges_of_some {j : Nat} (h : Behind gate setup threshold door s t)
    (hdoor : door i = some j) : poolExchanges i s.log = exchanges j t.log := by
  rw [h.log]
  unfold poolExchanges exchanges
  induction s.log with
  | nil => rfl
  | cons e log ih =>
    obtain ⟨i', e⟩ := e
    unfold through at ih ⊢
    rw [List.filterMap_cons, List.filterMap_cons (f := fun e => _)]
    by_cases hi : i' = i
    · subst hi
      cases hinside : e.inside <;> simp [hdoor, hinside, ih]
    · rw [if_neg hi, ih]
      cases hdoor' : door i' with
      | none => simp
      | some j' =>
        have hjj : j' ≠ j := fun hjj => hi (h.injective i' i j (hjj ▸ hdoor') hdoor)
        cases e.inside <;> simp [hjj]

/-- A request that did not enter has ended at the gate. -/
theorem Behind.ended {thread : Thread (EitherReply R Q) κ β} {b : β}
    (h : Behind gate setup none door s t) (ht : s.threads[i]? = some thread)
    (hdoor : door i = none) (hret : thread.rest = .ret b) :
    (gate.pass thread.request).Follows (gateExchanges i s.log) (.ret (.ends b)) := by
  have hstands := h.stands i thread ht
  rw [hdoor] at hstands
  cases hstands with
  | before request p hfollows hout =>
    cases p with
    | ret passage =>
      cases passage with
      | ends b' =>
        cases hret
        exact hfollows
      | enters r => cases hout r rfl
    | call d k => cases hret

/-- A request that has entered returns what its thread behind the gate does. -/
theorem Behind.inside {thread : Thread (EitherReply R Q) κ β} {j : Nat}
    (h : Behind gate setup none door s t) (ht : s.threads[i]? = some thread)
    (hdoor : door i = some j) :
    ∃ inner, t.threads[j]? = some inner ∧
      (gate.pass thread.request).Follows (gateExchanges i s.log) (.ret (.enters inner.request)) ∧
      ∀ b, thread.rest = .ret b ↔ ∃ a, inner.rest = .ret a ∧ gate.leave thread.request a = b := by
  have hstands := h.stands i thread ht
  rw [hdoor] at hstands
  cases hstands with
  | beyond request r q j hfollows hthread =>
    exact ⟨_, hthread, hfollows, fun b => Program.inside_map_eq_ret⟩

/-- The thread of the gated pool that each thread behind it came from. -/
theorem Behind.exists_origin (h : Behind gate setup threshold door s t) :
    ∃ origin : Nat → Nat, (∀ i j, door i = some j → origin j = i) ∧
      ∀ j < t.threads.length, door (origin j) = some j := by
  classical
  have horigin : ∀ i j, door i = some j →
      (if h : ∃ i, door i = some j then h.choose else 0) = i := by
    intro i j hdoor
    have hex : ∃ i, door i = some j := ⟨i, hdoor⟩
    rw [dif_pos hex]
    exact h.injective _ _ j hex.choose_spec hdoor
  refine ⟨fun j => if h : ∃ i, door i = some j then h.choose else 0, horigin, fun j hj => ?_⟩
  obtain ⟨i, hdoor⟩ := h.entered j hj
  show door (if h : ∃ i, door i = some j then h.choose else 0) = some j
  rw [horigin i j hdoor, hdoor]

/-- The order of the calls behind the gate is their order in the gated pool. -/
theorem Behind.map_filter_log (h : Behind gate setup threshold door s t) {origin : Nat → Nat}
    (horigin : ∀ i j, door i = some j → origin j = i) (p : Exchange R → Bool) :
    ((t.log.filter fun e => p e.2).map Prod.fst).map origin =
      (s.log.filter fun e => e.2.inside.any p).map Prod.fst := by
  rw [h.log]
  have hcalled := h.called
  generalize s.log = log at hcalled ⊢
  induction log with
  | nil => rfl
  | cons e log ih =>
    obtain ⟨i, e⟩ := e
    obtain ⟨hhead, htail⟩ := List.forall_mem_cons.mp hcalled
    cases hinside : e.inside with
    | none => simp [through, hinside, ih htail]
    | some e' =>
      rw [hinside] at hhead
      obtain ⟨j, hdoor⟩ := Option.isSome_iff_exists.mp (hhead rfl)
      cases hp : p e' <;> simp [through, hinside, hdoor, hp, ih htail, horigin i j hdoor]

theorem mem_gateExchanges {log : List (Nat × Exchange (EitherReply R Q))} {d : D} {reply : Q d} :
    (⟨d, reply⟩ : Exchange Q) ∈ gateExchanges i log ↔ (i, ⟨.inr d, reply⟩) ∈ log := by
  unfold gateExchanges
  rw [List.mem_filterMap]
  constructor
  · rintro ⟨⟨c, reply'⟩, hmem, houtside⟩
    cases c with
    | inl c => cases houtside
    | inr d' =>
      cases houtside
      exact mem_exchanges.mp hmem
  · exact fun hmem => ⟨_, mem_exchanges.mpr hmem, rfl⟩

/-! ## Entering

A thread enters between two steps: when the gate has decided, the pool behind starts a thread for
it, and the gated pool does nothing. -/

theorem through_update {e : Nat × Exchange (EitherReply R Q)} {j : Nat} (hnew : door i = none)
    (hcalled : e.2.inside.isSome → (door e.1).isSome) :
    through (Function.update door i (some j)) e = through door e := by
  unfold through
  by_cases hi : e.1 = i
  · cases hinside : e.2.inside with
    | none => cases Function.update door i (some j) e.1 <;> cases door e.1 <;> rfl
    | some e' =>
      rw [hinside, hi, hnew] at hcalled
      exact absurd (hcalled rfl) (by decide)
  · rw [Function.update_of_ne hi]

/-- The thread at the threshold enters: the pool behind starts it. -/
theorem Behind.enter {request : κ} {r : ρ} (h : Behind gate setup (some i) door s t)
    (hdoor : door i = none)
    (hthread : s.threads[i]? = some
      ⟨request, ((setup.program r).map (gate.leave request)).inside⟩)
    (hfollows : (gate.pass request).Follows (gateExchanges i s.log) (.ret (.enters r))) :
    Behind gate setup none (Function.update door i (some t.threads.length)) s
      { t with threads := t.threads ++ [⟨r, setup.program r⟩] } := by
  have hlast : (t.threads ++ [⟨r, setup.program r⟩])[t.threads.length]? =
      some ⟨r, setup.program r⟩ := by simp
  have hold : ∀ (k : Nat) (inner : Thread R ρ α), t.threads[k]? = some inner →
      (t.threads ++ [⟨r, setup.program r⟩])[k]? = some inner := by
    intro k inner hinner
    rw [List.getElem?_append_left (List.getElem?_eq_some_iff.mp hinner).1, hinner]
  refine ⟨h.store, ?_, ?_, ?_, ?_, ?_, ?_⟩
  · show t.log = _
    rw [h.log]
    exact List.filterMap_congr fun e he => (through_update hdoor (h.called e he)).symm
  · intro e he hinside
    by_cases hi : e.1 = i
    · rw [hi, Function.update_self]
      rfl
    · rw [Function.update_of_ne hi]
      exact h.called e he hinside
  · -- the new thread of the pool behind is nobody else's
    intro k k' j hk hk'
    rw [Function.update_apply] at hk hk'
    split at hk <;> split at hk'
    · next hki hki' => rw [hki, hki']
    · cases hk
      exact absurd (h.bounded k' _ hk').2 (Nat.lt_irrefl _)
    · cases hk'
      exact absurd (h.bounded k _ hk).2 (Nat.lt_irrefl _)
    · exact h.injective k k' j hk hk'
  · intro k j hk
    rw [List.length_append, List.length_singleton]
    rw [Function.update_apply] at hk
    split at hk
    · next hki =>
      cases hk
      rw [hki]
      exact ⟨(List.getElem?_eq_some_iff.mp hthread).1, Nat.lt_succ_self _⟩
    · exact ⟨(h.bounded k j hk).1, Nat.lt_succ_of_lt (h.bounded k j hk).2⟩
  · intro j hj
    rw [List.length_append, List.length_singleton] at hj
    rcases Nat.lt_succ_iff_lt_or_eq.mp hj with hj | rfl
    · obtain ⟨k, hk⟩ := h.entered j hj
      have hki : k ≠ i := by
        intro hki
        rw [hki, hdoor] at hk
        cases hk
      exact ⟨k, by rw [Function.update_of_ne hki, hk]⟩
    · exact ⟨i, Function.update_self _ _ _⟩
  · intro k thread hk
    by_cases hki : k = i
    · subst hki
      rw [hthread] at hk
      cases hk
      rw [Function.update_self]
      exact .beyond request r _ _ hfollows hlast
    · rw [Function.update_of_ne hki]
      exact (h.stands k thread hk).mono (fun hi => absurd (Option.some.inj hi).symm hki)
        fun k' inner _ => hold k' inner

/-- Whoever is at the threshold enters. -/
theorem Behind.settle (h : Behind gate setup (some i) door s t) :
    ∃ inputs door' t', (machine setup).runFrom t inputs = some t' ∧
      Behind gate setup none door' s t' ∧ ∀ k j, door k = some j → door' k = some j := by
  by_cases hat : ∃ request r, door i = none ∧ s.threads[i]? = some
      ⟨request, ((setup.program r).map (gate.leave request)).inside⟩ ∧
      (gate.pass request).Follows (gateExchanges i s.log) (.ret (.enters r))
  · obtain ⟨request, r, hdoor, hthread, hfollows⟩ := hat
    refine ⟨[.start r], _, _, rfl, h.enter hdoor hthread hfollows, fun k j hk => ?_⟩
    have hki : k ≠ i := by
      intro hki
      rw [hki, hdoor] at hk
      cases hk
    rw [Function.update_of_ne hki, hk]
  · refine ⟨[], door, t, rfl, ⟨h.store, h.log, h.called, h.injective, h.bounded, h.entered, ?_⟩,
      fun k j hk => hk⟩
    intro k thread hk
    have hstands := h.stands k thread hk
    generalize hdoor : door k = j at hstands
    cases hstands with
    | before request p hfollows hout =>
      refine .before request p hfollows fun r hr => absurd ?_ hat
      cases hout r hr
      rw [hr] at hk hfollows
      exact ⟨request, r, hdoor, hk, hfollows⟩
    | beyond request r q j hfollows hthread => exact .beyond request r q j hfollows hthread

/-! ## Steps

A call of the gate is no step of the pool behind, and a call of a thread beyond the gate is the same
call there. -/

theorem gateExchanges_cons_ne {j : Nat} {e : Exchange (EitherReply R Q)}
    {log : List (Nat × Exchange (EitherReply R Q))} (h : j ≠ i) :
    gateExchanges i ((j, e) :: log) = gateExchanges i log := by
  unfold gateExchanges
  rw [exchanges_cons_ne h]

/-- A call at the gate is no step of the pool behind. -/
theorem Behind.outer {request : κ} {d : D} {k : Q d → Program Q (Passage β ρ)}
    (h : Behind gate setup none door s t) (hdoor : door i = none)
    (hthread : s.threads[i]? = some
      ⟨request, Gate.before gate setup.program request (.call d k)⟩)
    (hfollows : (gate.pass request).Follows (gateExchanges i s.log) (.call d k)) (q : Q d) :
    Behind gate setup (some i) door
      { s with
        threads := s.threads.set i ⟨request, Gate.before gate setup.program request (k q)⟩
        log := (i, ⟨.inr d, q⟩) :: s.log } t := by
  refine ⟨h.store, ?_, ?_, h.injective, ?_, h.entered, ?_⟩
  · rw [h.log, List.filterMap_cons_none]
    unfold through
    cases door i <;> rfl
  · exact List.forall_mem_cons.mpr ⟨fun hinside => (nomatch hinside), h.called⟩
  · intro i' j hj
    rw [List.length_set]
    exact h.bounded i' j hj
  · intro i' thread ht
    rcases Indexed.getElem?_set_cases ht with ⟨rfl, rfl⟩ | ⟨hne, ht⟩
    · rw [hdoor]
      refine .before request (k q) ?_ fun r _ => rfl
      unfold gateExchanges
      rw [exchanges_cons_self]
      exact .reply hfollows q
    · rw [gateExchanges_cons_ne (Ne.symm hne)]
      exact (h.stands i' thread ht).mono (fun hi => nomatch hi) fun _ _ _ h => h

/-- A call of a thread that has entered is the same call in the pool behind. -/
theorem Behind.inner {request : κ} {r : ρ} {c : C} {k : R c → Program R α} {j : Nat}
    (h : Behind gate setup none door s t) (hdoor : door i = some j)
    (hinner : t.threads[j]? = some ⟨r, .call c k⟩)
    (hfollows : (gate.pass request).Follows (gateExchanges i s.log) (.ret (.enters r)))
    (reply : R c) (store : σ) :
    Behind gate setup none door
      { store := store
        threads := s.threads.set i ⟨request, ((k reply).map (gate.leave request)).inside⟩
        log := (i, ⟨.inl c, reply⟩) :: s.log }
      { store := store
        threads := t.threads.set j ⟨r, k reply⟩
        log := (j, ⟨c, reply⟩) :: t.log } := by
  refine ⟨rfl, ?_, ?_, h.injective, ?_, ?_, ?_⟩
  · have hthrough : through door (i, (⟨.inl c, reply⟩ : Exchange (EitherReply R Q))) =
        some (j, ⟨c, reply⟩) := by
      unfold through
      rw [hdoor]
      rfl
    rw [List.filterMap_cons_some hthrough, h.log]
  · exact List.forall_mem_cons.mpr ⟨fun _ => by rw [hdoor]; rfl, h.called⟩
  · intro i' j' hj'
    rw [List.length_set, List.length_set]
    exact h.bounded i' j' hj'
  · intro j' hj'
    rw [List.length_set] at hj'
    exact h.entered j' hj'
  · intro i' thread ht
    rcases Indexed.getElem?_set_cases ht with ⟨rfl, rfl⟩ | ⟨hne, ht⟩
    · rw [hdoor]
      refine .beyond request r (k reply) j ?_ ?_
      · unfold gateExchanges
        rw [exchanges_cons_self]
        exact hfollows
      · rw [List.getElem?_set_self (List.getElem?_eq_some_iff.mp hinner).1]
    · rw [gateExchanges_cons_ne (Ne.symm hne)]
      refine (h.stands i' thread ht).mono (fun hi => nomatch hi) fun j' inner hj' hthread => ?_
      -- no other thread of the gated pool has moved with it
      have hjj : j ≠ j' := by
        intro hjj
        exact hne (h.injective i' i j' hj' (hjj ▸ hdoor))
      rw [List.getElem?_set_ne hjj, hthread]

/-- **The step lemma.** -/
theorem behind_step {input : PoolInput κ (ω × ω') δ} (hinv : Inv (Gate.setup gate setup) s)
    (h : Behind gate setup none door s t)
    (hstep : (machine (Gate.setup gate setup)).step s input = some s') :
    ∃ inputs door' t', (machine setup).runFrom t inputs = some t' ∧
      Behind gate setup none door' s' t' ∧ ∀ k j, door k = some j → door' k = some j := by
  cases step_steps hstep with
  -- a new thread stands before the gate, whose decision may need no call
  | start request =>
    have hnew : door s.threads.length = none := by
      cases hdoor : door s.threads.length with
      | none => rfl
      | some j => exact absurd (h.bounded _ j hdoor).1 (Nat.lt_irrefl _)
    refine Behind.settle (i := s.threads.length) ⟨h.store, h.log, h.called, h.injective, ?_,
      h.entered, ?_⟩
    · intro i j hj
      rw [List.length_append]
      exact ⟨Nat.lt_add_right _ (h.bounded i j hj).1, (h.bounded i j hj).2⟩
    · intro i thread ht
      rcases Indexed.getElem?_append_cases ht with ht | ⟨rfl, rfl⟩
      · exact (h.stands i thread ht).mono (fun hi => nomatch hi) fun _ _ _ h => h
      · rw [hnew]
        refine .before request (gate.pass request) ?_ fun _ _ => rfl
        unfold gateExchanges
        rw [exchanges_eq_nil hinv.bounded]
        exact .start
  | call i w request c k hthread =>
    have hstands := h.stands i _ hthread
    generalize hat : (⟨request, .call c k⟩ : Thread (EitherReply R Q) κ β) = thread at hstands
    generalize hdoor : door i = j at hstands
    cases hstands with
    | before request' p hfollows hout =>
      cases p with
      | ret passage =>
        cases passage with
        | ends b => cases hat
        | enters r => cases hout r rfl
      | call d k' =>
        rw [hat] at hthread
        cases hat
        exact Behind.settle (h.outer hdoor hthread hfollows _)
    | beyond request' r q j hfollows hinner =>
      cases q with
      | ret a => cases hat
      | call c' k' =>
        cases hat
        have hstore := h.store
        refine ⟨[.call j w.1], door, _, ?_, h.inner hdoor hinner hfollows
          (setup.handler w.1 c' s.store).1 (setup.handler w.1 c' s.store).2, fun _ _ h => h⟩
        refine Machine.runFrom_cons.mpr ⟨t, rfl, ?_⟩
        unfold machine step
        simp only [hinner, hstore]
  -- both stores are disturbed alike
  | disturb d =>
    refine ⟨[.disturb d], door, { t with store := setup.disturb d t.store }, rfl,
      ⟨congrArg (setup.disturb d) h.store, h.log, h.called, h.injective, h.bounded, h.entered, ?_⟩,
      fun _ _ h => h⟩
    intro i thread ht
    exact (h.stands i thread ht).mono id fun _ _ _ h => h

/-- **The run lemma.** Behind every run of the gated pool there is one of the pool. -/
theorem behind_run {inputs : List (PoolInput κ (ω × ω') δ)}
    (hreach : (machine (Gate.setup gate setup)).Reachable s)
    (h : Behind gate setup none door s t)
    (hrun : (machine (Gate.setup gate setup)).runFrom s inputs = some s') :
    ∃ inputs' door' t', (machine setup).runFrom t inputs' = some t' ∧
      Behind gate setup none door' s' t' ∧ ∀ k j, door k = some j → door' k = some j := by
  induction inputs generalizing s' with
  | nil =>
    cases hrun
    exact ⟨[], door, t, rfl, h, fun _ _ h => h⟩
  | cons input older ih =>
    obtain ⟨q, hq, hstep⟩ := Machine.runFrom_cons.mp hrun
    obtain ⟨before, door₁, t₁, hbefore, h₁, hdoor₁⟩ := ih hq
    obtain ⟨last, door₂, t₂, hlast, h₂, hdoor₂⟩ :=
      behind_step (reachable_inv (hreach.runFrom hq)) h₁ hstep
    exact ⟨last ++ before, door₂, t₂, Machine.runFrom_append.mpr ⟨t₁, hbefore, hlast⟩, h₂,
      fun k j hk => hdoor₂ k j (hdoor₁ k j hk)⟩

theorem reachable_behind (h : (machine (Gate.setup gate setup)).Reachable s) :
    ∃ door t, (machine setup).Reachable t ∧ Behind gate setup none door s t := by
  obtain ⟨inputs, hrun⟩ := h
  obtain ⟨inputs', door, t, hrun', hbehind, _⟩ :=
    behind_run Machine.reachable_init behind_init hrun
  exact ⟨door, t, ⟨inputs', hrun'⟩, hbehind⟩

end Pool
