/-!
# Programs that call out

A `Program` is a computation that calls operations of its surroundings and goes on with their
replies; `R c` is the type of the replies to the call `c`. What a call does is decided by who runs
the program: `eval` answers all calls at once from a state, and a machine that holds programs in
its state can answer them one at a time, with anything else in between.

* `Program.eval` — the result and the state after the last call.
* `Program.Follows` — the calls and replies that lead from a program to what is left of it.
* `Program.Obeys` — what a program promises of its calls and of its result, whatever the replies;
  `Follows.obeys` is what the promise says of the part that is left, and `Follows.called` what it
  says of every call that was made.
-/

variable {C : Type} {R : C → Type}

/-- A computation that calls operations `c` and goes on with their replies in `R c`. -/
inductive Program (R : C → Type) (α : Type) where
  | ret (a : α)
  | call (c : C) (k : R c → Program R α)

namespace Program

variable {α β σ : Type}

def bind : Program R α → (α → Program R β) → Program R β
  | ret a, f => f a
  | call c k, f => call c fun r => (k r).bind f

instance : Monad (Program R) where
  pure := ret
  bind := bind

/-- The program that returns `f` of what `p` returns. -/
def map (f : α → β) (p : Program R α) : Program R β :=
  p.bind fun a => ret (f a)

/-- The program that makes one call and returns its reply. -/
def perform (c : C) : Program R (R c) :=
  call c ret

/-- The program has returned. -/
def done : Program R α → Bool
  | ret _ => true
  | call _ _ => false

/-- The result of the program when `handler` answers its calls. -/
def eval (handler : (c : C) → σ → R c × σ) : Program R α → σ → α × σ
  | ret a, s => (a, s)
  | call c k, s => (k (handler c s).1).eval handler (handler c s).2

/-! ## Traces

A trace is the calls of a program with their replies, newest first. What a program promises is
stated of all traces, so it holds whoever answers. -/

/-- A call and its reply. -/
abbrev Exchange (R : C → Type) := (c : C) × R c

/-- After the calls and replies of `trace`, the newest at its head, `q` is left of `p`. -/
inductive Follows (p : Program R α) : List (Exchange R) → Program R α → Prop where
  | start : Follows p [] p
  | reply {trace : List (Exchange R)} {c : C} {k : R c → Program R α}
      (before : Follows p trace (call c k)) (r : R c) : Follows p (⟨c, r⟩ :: trace) (k r)

/-- From a program that has come as far as `trace`: whatever the replies, each call is one that
`calls` allows after the trace it is made at, and each result one that `results` allows. -/
def Obeys (calls : List (Exchange R) → C → Prop) (results : List (Exchange R) → α → Prop) :
    List (Exchange R) → Program R α → Prop
  | trace, ret a => results trace a
  | trace, call c k => calls trace c ∧ ∀ r, Obeys calls results (⟨c, r⟩ :: trace) (k r)

variable {calls : List (Exchange R) → C → Prop} {results : List (Exchange R) → α → Prop}
  {p q : Program R α} {trace newer older : List (Exchange R)} {e : Exchange R}

theorem obeys_ret_iff {a : α} : Obeys calls results trace (ret a) ↔ results trace a := Iff.rfl

theorem obeys_call_iff {c : C} {k : R c → Program R α} :
    Obeys calls results trace (call c k) ↔
      calls trace c ∧ ∀ r, Obeys calls results (⟨c, r⟩ :: trace) (k r) := Iff.rfl

theorem obeys_ret {a : α} (h : results trace a) : Obeys calls results trace (ret a) := h

theorem obeys_call {c : C} {k : R c → Program R α} (hc : calls trace c)
    (hk : ∀ r, Obeys calls results (⟨c, r⟩ :: trace) (k r)) :
    Obeys calls results trace (call c k) :=
  ⟨hc, hk⟩

/-- The promise of a program whose result is passed through `f`. -/
theorem Obeys.map {results' : List (Exchange R) → β → Prop} (f : α → β)
    (hp : Obeys calls (fun trace a => results' trace (f a)) trace p) :
    Obeys calls results' trace (p.map f) := by
  induction p generalizing trace with
  | ret a => exact hp
  | call c k ih => exact ⟨hp.1, fun r => ih r (hp.2 r)⟩

-- a promise is read through its rules: unfolding it would run the program
attribute [irreducible] Obeys

/-- What a program promises, the part that is left of it promises. -/
theorem Follows.obeys (h : Follows p trace q) (hp : Obeys calls results [] p) :
    Obeys calls results trace q := by
  induction h with
  | start => exact hp
  | reply before r ih => exact (obeys_call_iff.mp ih).2 r

/-- Every call of the trace was one that is allowed after the older part of the trace. -/
theorem Follows.called (h : Follows p trace q) (hp : Obeys calls results [] p)
    (htrace : trace = newer ++ e :: older) : calls older e.1 := by
  induction h generalizing newer with
  | start => simp at htrace
  | reply before r ih =>
    cases newer with
    | nil =>
      obtain ⟨rfl, rfl⟩ := List.cons.inj htrace
      exact (obeys_call_iff.mp (before.obeys hp)).1
    | cons e' newer => exact ih (List.cons.inj htrace).2

/-- A program that begins with a call has made it by the time it is elsewhere. -/
theorem Follows.first {c : C} {k : R c → Program R α} (h : Follows (call c k) trace q) :
    (trace = [] ∧ q = call c k) ∨ ∃ r, ⟨c, r⟩ ∈ trace := by
  induction h with
  | start => exact Or.inl ⟨rfl, rfl⟩
  | reply before r ih =>
    right
    rcases ih with ⟨htrace, hq⟩ | ⟨r', hmem⟩
    · cases hq
      exact ⟨r, List.mem_cons_self⟩
    · exact ⟨r', List.mem_cons_of_mem _ hmem⟩

theorem Follows.of_ret {a : α} (h : Follows (ret a) trace q) : trace = [] ∧ q = ret a := by
  induction h with
  | start => exact ⟨rfl, rfl⟩
  | reply before r ih => cases ih.2

end Program
