import Mathlib.Data.List.Sort
import Mathlib.Data.List.TakeWhile
import Mathlib.Data.Prod.Lex

/-!
# The first elements in an order

What `ORDER BY` with a `LIMIT` selects from a list: a prefix of the sorted list; the pages that
a `LIMIT` with an `OFFSET` cuts it into; and an element put in front of the first greater one.
-/

namespace List

variable {α : Type*} {r : α → α → Prop} [DecidableRel r] {l : List α} {n : Nat} {x y : α}

theorem mem_of_mem_take_insertionSort (hx : x ∈ (l.insertionSort r).take n) : x ∈ l :=
  (mem_insertionSort r).mp (mem_of_mem_take hx)

theorem mem_of_head?_insertionSort (hx : (l.insertionSort r).head? = some x) : x ∈ l :=
  (mem_insertionSort r).mp (mem_of_mem_head? hx)

variable [Std.Total r] [IsTrans α r]

/-- What is selected comes before what is not. -/
theorem rel_of_mem_take_insertionSort (hx : x ∈ (l.insertionSort r).take n) (hy : y ∈ l)
    (hleft : y ∉ (l.insertionSort r).take n) : r x y := by
  have hsorted : Pairwise r (l.insertionSort r) := pairwise_insertionSort r l
  rw [← take_append_drop n (l.insertionSort r), pairwise_append] at hsorted
  have hmem : y ∈ l.insertionSort r := (mem_insertionSort r).mpr hy
  rw [← take_append_drop n (l.insertionSort r), mem_append] at hmem
  exact hsorted.2.2 x hx y (hmem.resolve_left hleft)

/-- The first element comes before all of them. -/
theorem rel_of_head?_insertionSort (hx : (l.insertionSort r).head? = some x) (hy : y ∈ l) :
    r x y := by
  obtain ⟨rest, hrest⟩ := head?_eq_some_iff.mp hx
  have hsorted : Pairwise r (l.insertionSort r) := pairwise_insertionSort r l
  have hmem : y ∈ l.insertionSort r := (mem_insertionSort r).mpr hy
  rw [hrest] at hsorted hmem
  rcases mem_cons.mp hmem with rfl | hmem
  · exact (Std.Total.total y y).elim id id
  · exact (pairwise_cons.mp hsorted).1 y hmem

/-- The page that comes after the first `k`, of `q` elements. -/
def page (q k : Nat) (l : List α) : List α :=
  (l.drop (k * q)).take q

/-- A page continues the ones before it. -/
theorem take_append_page (q k : Nat) (l : List α) :
    l.take (k * q) ++ l.page q k = l.take ((k + 1) * q) := by
  rw [Nat.succ_mul, page, take_add]

/-! ## Numbers that keep a distance -/

/-- Descending numbers from `lo` on that keep a distance: the first one is far from `lo`. -/
theorem add_length_mul_le {lo distance n : Nat} {l : List Nat}
    (hl : (n :: l).Pairwise fun later earlier => earlier + distance ≤ later)
    (hlo : ∀ k ∈ n :: l, lo ≤ k) : lo + l.length * distance ≤ n := by
  induction l generalizing n with
  | nil => simpa using hlo n mem_cons_self
  | cons k l ih =>
    obtain ⟨hn, hrest⟩ := pairwise_cons.mp hl
    have hk := ih hrest (forall_mem_cons.mp hlo).2
    have hstep := hn k mem_cons_self
    rw [length_cons, Nat.succ_mul]
    omega

/-! ## Insertion

The element is put in front of the first one that is greater, or at the end.
`pairwise_insertAtFirst_iff` says when a sorted list stays sorted, if the elements are compared by
more than what is looked at. -/

section Insertion

/-- `x` in front of the first element that `p` holds of, or at the end. -/
def insertAtFirst (p : α → Bool) (x : α) (l : List α) : List α :=
  l.takeWhile (fun y => !p y) ++ x :: l.dropWhile (fun y => !p y)

variable {p : α → Bool}

theorem insertIdx_findIdx? :
    l.insertIdx ((l.findIdx? p).getD l.length) x = l.insertAtFirst p x := by
  induction l with
  | nil => rfl
  | cons y l ih =>
    cases hy : p y with
    | true => simp [findIdx?_cons, insertAtFirst, hy]
    | false =>
      have hshift : ((y :: l).findIdx? p).getD (y :: l).length =
          (l.findIdx? p).getD l.length + 1 := by
        cases hfind : l.findIdx? p <;> simp [findIdx?_cons, hy, hfind]
      rw [hshift, insertIdx_succ_cons, ih]
      simp [insertAtFirst, hy]

/-- The elements that `x` is put between. -/
theorem exists_insertAtFirst (p : α → Bool) (x : α) (l : List α) :
    ∃ front back, l = front ++ back ∧ l.insertAtFirst p x = front ++ x :: back :=
  ⟨_, _, takeWhile_append_dropWhile.symm, rfl⟩

theorem map_insertAtFirst {β : Type*} (f : α → β) (p : β → Bool) :
    (l.insertAtFirst (fun y => p (f y)) x).map f = (l.map f).insertAtFirst p (f x) := by
  rw [insertAtFirst, insertAtFirst, map_append, map_cons, takeWhile_map, dropWhile_map]
  rfl

variable {ν κ : Type*} [LinearOrder ν] [LinearOrder κ] {name : α → ν} {version : α → κ}

/-- In an order by names, the elements behind the first greater one are greater as well. -/
theorem lt_of_mem_dropWhile {n : ν}
    (hsorted : l.Pairwise fun y z => toLex (name y, version y) ≤ toLex (name z, version z))
    (hy : y ∈ l.dropWhile fun z => !decide (n < name z)) : n < name y := by
  induction l with
  | nil => cases hy
  | cons z l ih =>
    rw [pairwise_cons] at hsorted
    by_cases hz : n < name z
    · rw [dropWhile_cons_of_neg (by simpa using hz)] at hy
      rcases mem_cons.mp hy with rfl | hy
      · exact hz
      · rcases Prod.Lex.le_iff.mp (hsorted.1 y hy) with hlt | ⟨heq, _⟩
        · exact hz.trans hlt
        · exact hz.trans_eq heq
    · rw [dropWhile_cons_of_pos (by simpa using hz)] at hy
      exact ih hsorted.2 hy

theorem le_of_mem_takeWhile {n : ν} (hy : y ∈ l.takeWhile fun z => !decide (n < name z)) :
    name y ≤ n := by
  simpa using mem_takeWhile_imp hy

/-- **The order after an insertion.** Among the elements of its name, `x` comes last. -/
theorem pairwise_insertAtFirst_iff
    (hsorted : l.Pairwise fun y z => toLex (name y, version y) ≤ toLex (name z, version z)) :
    ((l.insertAtFirst (fun y => name x < name y) x).Pairwise fun y z =>
        toLex (name y, version y) ≤ toLex (name z, version z)) ↔
      ∀ y ∈ l, name y = name x → version y ≤ version x := by
  -- The list is cut where `x` goes: the names before the cut are at most the name of `x`, those
  -- behind it are greater.
  have hsplit : l.takeWhile (fun y => !decide (name x < name y)) ++
      l.dropWhile (fun y => !decide (name x < name y)) = l := takeWhile_append_dropWhile
  have hback : ∀ y ∈ l.dropWhile (fun y => !decide (name x < name y)), name x < name y := by
    intro y hy
    exact lt_of_mem_dropWhile hsorted hy
  rw [insertAtFirst, pairwise_append]
  constructor
  · intro h y hy hname
    rw [← hsplit] at hy
    rcases mem_append.mp hy with hy | hy
    · rcases Prod.Lex.le_iff.mp (h.2.2 y hy x mem_cons_self) with hlt | ⟨_, hle⟩
      · exact absurd hname hlt.ne
      · exact hle
    · exact absurd hname (hback y hy).ne'
  · intro h
    have hbefore : ∀ y ∈ l.takeWhile (fun y => !decide (name x < name y)),
        toLex (name y, version y) ≤ toLex (name x, version x) := by
      intro y hy
      rw [Prod.Lex.le_iff]
      rcases (le_of_mem_takeWhile hy).lt_or_eq with hlt | heq
      · exact Or.inl hlt
      · exact Or.inr ⟨heq, h y ((takeWhile_sublist _).mem hy) heq⟩
    have hafter : ∀ y ∈ l.dropWhile (fun y => !decide (name x < name y)),
        toLex (name x, version x) ≤ toLex (name y, version y) := by
      intro y hy
      exact Prod.Lex.le_iff.mpr (Or.inl (hback y hy))
    have hothers := hsorted
    rw [← hsplit, pairwise_append] at hothers
    refine ⟨hothers.1, pairwise_cons.mpr ⟨hafter, hothers.2.1⟩, ?_⟩
    intro y hy z hz
    rcases mem_cons.mp hz with rfl | hz
    · exact hbefore y hy
    · exact hothers.2.2 y hy z hz

end Insertion

end List
