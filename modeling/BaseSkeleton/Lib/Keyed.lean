import Mathlib.Data.List.Nodup

/-!
# Lists of records under a key

A table is a list of records whose keys are pairwise different. `Keyed.get` is the lookup by
key; the lemmas say what an update in place, a deletion and an insertion do to every lookup, so
that a statement over a whole table can be read off one key at a time.
-/

namespace Keyed

variable {α κ : Type*} {key : α → κ}

/-- Rewriting records in place leaves the list of keys alone. -/
theorem map_key {set : α → α} (hkey : ∀ r, key (set r) = key r) (rows : List α) :
    (rows.map set).map key = rows.map key := by
  rw [List.map_map]
  exact List.map_congr_left fun r _ => hkey r

theorem map_key_update {sel : α → Bool} {set : α → α} (hkey : ∀ r, key (set r) = key r)
    (rows : List α) :
    (rows.map fun r => if sel r then set r else r).map key = rows.map key := by
  refine map_key (fun r => ?_) rows
  split
  · exact hkey r
  · rfl

variable [DecidableEq κ]

/-- The records under the keys of some of them. -/
theorem filter_of_sublist {rows some : List α} (hnd : (rows.map key).Nodup)
    (h : some.Sublist rows) : (rows.filter fun r => decide (key r ∈ some.map key)) = some := by
  induction h with
  | slnil => rfl
  | @cons some rows r h ih =>
    rw [List.map_cons, List.nodup_cons] at hnd
    have hr : key r ∉ some.map key := fun hmem => hnd.1 ((h.map key).subset hmem)
    rw [List.filter_cons_of_neg (by simpa using hr), ih hnd.2]
  | @cons_cons some rows r h ih =>
    rw [List.map_cons, List.nodup_cons] at hnd
    rw [List.filter_cons_of_pos (by simp)]
    -- `r` is the only record under its key
    have hrest : ∀ s ∈ rows, decide (key s ∈ (r :: some).map key) =
        decide (key s ∈ some.map key) := by
      intro s hs
      have hne : key s ≠ key r := fun he => hnd.1 (he ▸ List.mem_map_of_mem hs)
      simp [hne]
    rw [List.filter_congr hrest, ih hnd.2]

/-- The record under `k`. -/
def get (key : α → κ) (k : κ) (rows : List α) : Option α :=
  rows.find? fun r => key r = k

@[simp] theorem get_nil (k : κ) : get key k [] = none := rfl

theorem get_cons (k : κ) (r : α) (rows : List α) :
    get key k (r :: rows) = if key r = k then some r else get key k rows := by
  by_cases h : key r = k <;> simp [get, h]

theorem key_of_get {k : κ} {rows : List α} {r : α} (h : get key k rows = some r) : key r = k := by
  have := List.find?_some h
  simpa using this

theorem mem_of_get {k : κ} {rows : List α} {r : α} (h : get key k rows = some r) : r ∈ rows :=
  List.mem_of_find?_eq_some h

theorem get_eq_none {k : κ} {rows : List α} :
    get key k rows = none ↔ ∀ r ∈ rows, key r ≠ k := by
  simp [get, List.find?_eq_none]

/-- With distinct keys the lookup finds exactly the record that is there. -/
theorem get_of_mem {rows : List α} (hnd : (rows.map key).Nodup) {r : α} (h : r ∈ rows) :
    get key (key r) rows = some r := by
  induction rows with
  | nil => simp at h
  | cons a rows ih =>
    rw [List.map_cons, List.nodup_cons] at hnd
    rw [get_cons]
    rcases List.mem_cons.mp h with rfl | hmem
    · simp
    · have hne : key a ≠ key r := fun he => hnd.1 (he ▸ List.mem_map_of_mem hmem)
      rw [if_neg hne]
      exact ih hnd.2 hmem

theorem get_eq_some {rows : List α} (hnd : (rows.map key).Nodup) {k : κ} {r : α} :
    get key k rows = some r ↔ r ∈ rows ∧ key r = k := by
  constructor
  · intro h
    exact ⟨mem_of_get h, key_of_get h⟩
  · rintro ⟨hmem, rfl⟩
    exact get_of_mem hnd hmem

/-! ## Update in place -/

theorem get_map {set : α → α} (hkey : ∀ r, key (set r) = key r) (k : κ) (rows : List α) :
    get key k (rows.map set) = (get key k rows).map set := by
  induction rows with
  | nil => rfl
  | cons a rows ih =>
    rw [List.map_cons, get_cons, get_cons, hkey, ih]
    by_cases h : key a = k <;> simp [h]

/-- A lookup after an update in place: the same record, rewritten if it was selected. -/
theorem get_update {sel : α → Bool} {set : α → α} (hkey : ∀ r, key (set r) = key r)
    (k : κ) (rows : List α) :
    get key k (rows.map fun r => if sel r then set r else r) =
      (get key k rows).map fun r => if sel r then set r else r := by
  refine get_map (fun r => ?_) k rows
  split
  · exact hkey r
  · rfl

/-! ## Deletion and insertion

A deletion keeps the rows of a filter. An insertion appends, and the appended row is found if its
key was free. -/

theorem get_filter {rows : List α} (hnd : (rows.map key).Nodup) (keep : α → Bool) (k : κ) :
    get key k (rows.filter keep) = (get key k rows).filter keep := by
  induction rows with
  | nil => rfl
  | cons a rows ih =>
    rw [List.map_cons, List.nodup_cons] at hnd
    rw [List.filter_cons, get_cons]
    by_cases hk : key a = k
    · -- the only record under `k` is `a`, so a deleted `a` leaves nothing there
      have hnone : get key k (rows.filter keep) = none := by
        rw [get_eq_none]
        intro r hr he
        exact hnd.1 (hk ▸ he ▸ List.mem_map_of_mem (List.mem_of_mem_filter hr))
      by_cases hkeep : keep a
      · simp [get_cons, hk, hkeep, Option.filter]
      · simp [hnone, hk, hkeep, Option.filter]
    · by_cases hkeep : keep a
      · simp [get_cons, hk, hkeep, ih hnd.2]
      · simp [hk, hkeep, ih hnd.2]

/-- A condition that fixes the key selects at most the record under that key. -/
theorem filter_of_key {rows : List α} (hnd : (rows.map key).Nodup) {k : κ} {sel : α → Bool}
    (hsel : ∀ r, sel r = true → key r = k) :
    rows.filter sel = ((get key k rows).filter sel).toList := by
  induction rows with
  | nil => rfl
  | cons a rows ih =>
    rw [List.map_cons, List.nodup_cons] at hnd
    rw [List.filter_cons, get_cons]
    by_cases hk : key a = k
    · have hrest : rows.filter sel = [] := by
        rw [List.filter_eq_nil_iff]
        intro r hr hs
        exact hnd.1 (hk ▸ hsel r hs ▸ List.mem_map_of_mem hr)
      rw [hrest, if_pos hk]
      by_cases hs : sel a <;> simp [hs, Option.filter]
    · have hs : sel a = false := by
        rw [Bool.eq_false_iff]
        exact fun hs => hk (hsel a hs)
      rw [hs, if_neg hk]
      exact ih hnd.2

theorem get_append_singleton (k : κ) (rows : List α) (r : α) :
    get key k (rows ++ [r]) =
      (get key k rows).or (if key r = k then some r else none) := by
  induction rows with
  | nil => simp [get_cons]
  | cons a rows ih =>
    rw [List.cons_append, get_cons, get_cons, ih]
    by_cases h : key a = k <;> simp [h]

end Keyed
