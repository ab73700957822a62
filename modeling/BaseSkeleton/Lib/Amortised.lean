import Mathlib.Algebra.BigOperators.Group.List.Basic
import Mathlib.Algebra.Order.BigOperators.Group.List
import Mathlib.Algebra.Order.Ring.Nat
import BaseSkeleton.Lib.Machine

/-!
# Amortised accounting along a run

A `rank` prices the states of a machine. If every step pays its `cost` out of the rank and the
`credit` it brings, then so does a whole run: what was spent on the way is at most the rank at the
start and the credit that came in. Used with a cost of one for each step that should not go on
forever, the rule bounds how often such steps happen before the step everybody waits for.

* `Machine.Along` — every step of a run meets a condition on the state it happens in.
* `Machine.spent` — what the steps of a run cost, each in the state it happens in.
* `Machine.Reachable.amortised` — the rule, with a way out: a run in which the accounting breaks
  passes through a step that serves.
* `Machine.Reachable.spent_le` / `Machine.Reachable.rank_le` — the rule without the way out, and
  for steps that cost nothing.
-/

namespace Machine

variable {σ ι : Type*} {M : Machine σ ι} {ok : σ → ι → Prop} {s t : σ} {inputs : List ι}

/-- Every step of the run `inputs` from `s` is `ok` in the state it happens in. -/
def Along (M : Machine σ ι) (ok : σ → ι → Prop) (s : σ) : List ι → Prop
  | [] => True
  | i :: older => M.Along ok s older ∧ ∀ r, M.runFrom s older = some r → ok r i

theorem along_append {newer older : List ι} :
    M.Along ok s (newer ++ older) ↔
      M.Along ok s older ∧ ∀ r, M.runFrom s older = some r → M.Along ok r newer := by
  induction newer with
  | nil => simp [Along]
  | cons i newer ih =>
    rw [List.cons_append, Along, ih]
    constructor
    · rintro ⟨⟨holder, hnewer⟩, hi⟩
      exact ⟨holder, fun r hr => ⟨hnewer r hr,
        fun q hq => hi q (runFrom_append.mpr ⟨r, hr, hq⟩)⟩⟩
    · rintro ⟨holder, hnewer⟩
      refine ⟨⟨holder, fun r hr => (hnewer r hr).1⟩, fun q hq => ?_⟩
      obtain ⟨r, hr, hrq⟩ := runFrom_append.mp hq
      exact (hnewer r hr).2 q hrq

/-- A condition on inputs alone holds along every run of such inputs. -/
theorem along_of_forall {p : ι → Prop} (h : ∀ i ∈ inputs, p i) :
    M.Along (fun _ i => p i) s inputs := by
  induction inputs with
  | nil => trivial
  | cons i older ih =>
    obtain ⟨hi, holder⟩ := List.forall_mem_cons.mp h
    exact ⟨ih holder, fun _ _ => hi⟩

/-- What the steps of the run `inputs` from `s` cost. -/
def spent (M : Machine σ ι) (cost : σ → ι → Nat) (s : σ) : List ι → Nat
  | [] => 0
  | i :: older => M.spent cost s older + (M.runFrom s older).elim 0 fun r => cost r i

/-- A cost that does not depend on the state. -/
theorem spent_eq_sum {cost : ι → Nat} (hrun : M.runFrom s inputs = some t) :
    M.spent (fun _ i => cost i) s inputs = (inputs.map cost).sum := by
  induction inputs generalizing t with
  | nil => rfl
  | cons i older ih =>
    obtain ⟨r, hr, _⟩ := runFrom_cons.mp hrun
    rw [spent, ih hr, hr, List.map_cons, List.sum_cons, Nat.add_comm]
    rfl

@[simp] theorem spent_zero : M.spent (fun _ _ => 0) s inputs = 0 := by
  induction inputs with
  | nil => rfl
  | cons i older ih =>
    rw [spent, ih]
    cases M.runFrom s older <;> rfl

/-- **The accounting rule.** While nothing serves, `waits` is kept and every step pays. -/
theorem Reachable.amortised {waits : σ → Prop} {serves : σ → ι → Prop} {rank : σ → Nat}
    {cost credit : σ → ι → Nat}
    (hstep : ∀ s i t, M.Reachable s → waits s → ok s i → M.step s i = some t →
      serves s i ∨ waits t ∧ cost s i + rank t ≤ rank s + credit s i)
    (h : M.Reachable s) (hs : waits s) (hok : M.Along ok s inputs)
    (hrun : M.runFrom s inputs = some t) :
    (∃ newer i older r, inputs = newer ++ i :: older ∧ M.runFrom s older = some r ∧ waits r ∧
        serves r i) ∨
      waits t ∧ M.spent cost s inputs + rank t ≤ rank s + M.spent credit s inputs := by
  induction inputs generalizing t with
  | nil =>
    cases hrun
    exact Or.inr ⟨hs, by simp [spent]⟩
  | cons i older ih =>
    obtain ⟨r, hr, hrt⟩ := runFrom_cons.mp hrun
    rcases ih hok.1 hr with ⟨newer, j, oldest, q, rfl, hq, hwaits, hserves⟩ | ⟨hwaits, hpaid⟩
    · exact Or.inl ⟨i :: newer, j, oldest, q, rfl, hq, hwaits, hserves⟩
    · rcases hstep r i t (h.runFrom hr) hwaits (hok.2 r hr) hrt with hserves | ⟨hwaits', hpays⟩
      · exact Or.inl ⟨[], i, older, r, rfl, hr, hwaits, hserves⟩
      · refine Or.inr ⟨hwaits', ?_⟩
        simp only [spent, hr, Option.elim_some]
        omega

/-- Steps that always pay out of the rank. -/
theorem Reachable.spent_le (cost : σ → ι → Nat) (rank : σ → Nat)
    (hstep : ∀ s i t, M.Reachable s → ok s i → M.step s i = some t → cost s i + rank t ≤ rank s)
    (h : M.Reachable s) (hok : M.Along ok s inputs) (hrun : M.runFrom s inputs = some t) :
    M.spent cost s inputs + rank t ≤ rank s := by
  have hpays : ∀ s i t, M.Reachable s → True → ok s i → M.step s i = some t →
      False ∨ True ∧ cost s i + rank t ≤ rank s + 0 :=
    fun s i t hs _ hi ht => Or.inr ⟨trivial, hstep s i t hs hi ht⟩
  rcases h.amortised hpays trivial hok hrun with ⟨_, _, _, _, _, _, _, hfalse⟩ | ⟨_, hpaid⟩
  · exact hfalse.elim
  · simpa using hpaid

/-- A rank that no step raises is not raised by a run. -/
theorem Reachable.rank_le (rank : σ → Nat)
    (hstep : ∀ s i t, M.Reachable s → ok s i → M.step s i = some t → rank t ≤ rank s)
    (h : M.Reachable s) (hok : M.Along ok s inputs) (hrun : M.runFrom s inputs = some t) :
    rank t ≤ rank s := by
  have hpaid := h.spent_le (fun _ _ => 0) rank
    (fun s i t hs hi ht => by simpa using hstep s i t hs hi ht) hok hrun
  simpa using hpaid

end Machine

/-! ## Weights of lists

The rank of a collection is the sum of the weights of its elements. -/

namespace Weighted

variable {α : Type*} {l : List α} {f : α → Nat} {g : α → α}

/-- Elements that get no heavier. -/
theorem sum_map_le (h : ∀ a ∈ l, f (g a) ≤ f a) : ((l.map g).map f).sum ≤ (l.map f).sum := by
  rw [List.map_map]
  exact List.sum_le_sum h

/-- One of them gets lighter. -/
theorem sum_map_lt (h : ∀ a ∈ l, f (g a) ≤ f a) {a : α} (ha : a ∈ l) (hlt : f (g a) < f a) :
    ((l.map g).map f).sum < (l.map f).sum := by
  rw [List.map_map]
  exact List.sum_lt_sum _ _ h ⟨a, ha, hlt⟩

theorem sum_filter_le (keep : α → Bool) : ((l.filter keep).map f).sum ≤ (l.map f).sum :=
  (List.Sublist.map f List.filter_sublist).sum_le_sum fun _ _ => Nat.zero_le _

theorem eq_zero_of_sum (h : (l.map f).sum = 0) {a : α} (ha : a ∈ l) : f a = 0 :=
  List.sum_eq_zero_iff.mp h (f a) (List.mem_map_of_mem ha)

end Weighted
