import Mathlib.Data.List.Nodup

/-!
# Directories

A directory is a list of entries under pairwise different names. The names are part of the type's
invariant, so that an entry is created only under a name that is free.

* `Directory.remove_create` — removing what was created gives the old directory back.
* `Directory.removeAll_append` — the same for everything a computation has created.
-/

/-- The entries of a directory, in the order they are listed in. -/
structure Directory (ν β : Type*) where
  entries : List (ν × β)
  nodup : (entries.map Prod.fst).Nodup

namespace Directory

variable {ν β : Type*}

theorem ext_entries {d d' : Directory ν β} (h : d.entries = d'.entries) : d = d' := by
  cases d
  cases d'
  cases h
  rfl

def names (d : Directory ν β) : List ν :=
  d.entries.map Prod.fst

theorem ne_of_mem_entries {d : Directory ν β} {name : ν} (hname : name ∉ d.names) {e : ν × β}
    (he : e ∈ d.entries) : e.1 ≠ name := by
  intro h
  exact hname (List.mem_map.mpr ⟨e, he, h⟩)

/-- A new entry. -/
def create (d : Directory ν β) (name : ν) (value : β) (hname : name ∉ d.names) :
    Directory ν β where
  entries := d.entries ++ [(name, value)]
  nodup := by
    rw [List.map_append, List.map_singleton, List.nodup_append]
    refine ⟨d.nodup, List.nodup_singleton name, ?_⟩
    intro other hother created hcreated heq
    rw [heq, List.mem_singleton.mp hcreated] at hother
    exact hname hother

variable [DecidableEq ν]

/-- The entry under `name`, if there is one, gets another value. -/
def set (d : Directory ν β) (name : ν) (value : β) : Directory ν β where
  entries := d.entries.map fun e => if e.1 = name then (name, value) else e
  nodup := by
    have hnames : (d.entries.map fun e => if e.1 = name then (name, value) else e).map Prod.fst =
        d.entries.map Prod.fst := by
      rw [List.map_map]
      refine List.map_congr_left fun e _ => ?_
      show (if e.1 = name then (name, value) else e).1 = e.1
      split
      · next h => exact h.symm
      · rfl
    rw [hnames]
    exact d.nodup

/-- The entry under `name` is gone. -/
def remove (d : Directory ν β) (name : ν) : Directory ν β where
  entries := d.entries.filter fun e => !decide (e.1 = name)
  nodup := (List.filter_sublist.map Prod.fst).nodup d.nodup

variable {d base : Directory ν β} {name : ν} {value value' : β}

/-- What is written to a new entry is all there is in it. -/
theorem set_create (hname : name ∉ d.names) :
    (d.create name value hname).set name value' = d.create name value' hname := by
  refine ext_entries ?_
  show (d.entries ++ [(name, value)]).map _ = d.entries ++ [(name, value')]
  rw [List.map_append, List.map_singleton, if_pos rfl]
  congr 1
  calc d.entries.map (fun e => if e.1 = name then (name, value') else e)
      = d.entries.map id :=
        List.map_congr_left fun e he => if_neg (ne_of_mem_entries hname he)
    _ = d.entries := List.map_id _

theorem remove_create (hname : name ∉ d.names) :
    (d.create name value hname).remove name = d := by
  refine ext_entries ?_
  show (d.entries ++ [(name, value)]).filter _ = d.entries
  rw [List.filter_append, List.filter_singleton, decide_eq_true rfl]
  show d.entries.filter _ ++ [] = d.entries
  rw [List.append_nil, List.filter_eq_self]
  intro e he
  simpa using ne_of_mem_entries hname he

/-! ## Everything that was created

A computation that cleans up removes the names it has created. What is left depends on them alone
and not on their order. -/

/-- Entries are removed one after the other. -/
def removeAll (d : Directory ν β) (names : List ν) : Directory ν β :=
  names.foldl remove d

theorem entries_removeAll (names : List ν) :
    (d.removeAll names).entries = d.entries.filter fun e => !decide (e.1 ∈ names) := by
  induction names generalizing d with
  | nil => simp [removeAll]
  | cons name names ih =>
    show ((d.remove name).removeAll names).entries = _
    rw [ih]
    show (d.entries.filter fun e => !decide (e.1 = name)).filter _ = _
    rw [List.filter_filter]
    refine List.filter_congr fun e _ => ?_
    by_cases hname : e.1 = name
    · simp [hname]
    · simp [hname]

/-- **What was created is removed**, in whatever order, and nothing else is. -/
theorem removeAll_append {new : List (ν × β)} (h : d.entries = base.entries ++ new) :
    d.removeAll (new.map Prod.fst) = base := by
  have hnodup := d.nodup
  rw [h, List.map_append, List.nodup_append] at hnodup
  refine ext_entries ?_
  rw [entries_removeAll, h, List.filter_append]
  have hkept : base.entries.filter (fun e => !decide (e.1 ∈ new.map Prod.fst)) = base.entries := by
    rw [List.filter_eq_self]
    intro e he
    have hout : e.1 ∉ new.map Prod.fst := fun hmem =>
      hnodup.2.2 e.1 (List.mem_map_of_mem he) e.1 hmem rfl
    simpa using hout
  have hgone : new.filter (fun e => !decide (e.1 ∈ new.map Prod.fst)) = [] := by
    rw [List.filter_eq_nil_iff]
    intro e he
    have hin : e.1 ∈ new.map Prod.fst := List.mem_map_of_mem he
    simpa using hin
  rw [hkept, hgone, List.append_nil]

end Directory
