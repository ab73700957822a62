import BaseSkeleton.Lib.Keyed
import BaseSkeleton.Job.Model

/-!
# The `background_jobs` table

`migrations/20260801000000_create_background_jobs.up.sql` (with the `trace_context` column of the
following migration) as a type whose values satisfy the schema: a `JobTable` carries the proof
that its primary key is unique and that every row passes every CHECK. A statement that would
break one of them has no result table, it fails with an `SqlError` and changes nothing; that is
what `ofRows` decides for UPDATE and INSERT.

* `JobRow.Checks` — the CHECK constraints and the range of the INTEGER columns.
* `JobTable.update` / `JobTable.insert` / `JobTable.delete` — the three kinds of write, each
  with the rows it affected (`RETURNING`, `rows_affected`).
* `update_spec` / `insert_spec` / `delete_spec` — each write read off one `id` at a time.
-/

namespace BaseSkeleton.Job

/-- The values `background_jobs_status_valid` admits for the `status` column. -/
inductive Status where
  | pending
  | running
  | completed
  | dead
deriving DecidableEq

structure JobRow where
  id : Uuid
  jobType : String
  payload : Value
  traceContext : Value
  status : Status
  attempts : Int
  maxAttempts : Int
  availableAt : Instant
  lockedAt : Option Instant
  lockedBy : Option String
  lastError : Option String
  createdAt : Instant
  updatedAt : Instant
  completedAt : Option Instant

/-- `BTRIM(s)`: spaces (and only spaces) are cut off both ends. -/
def btrim (s : String) : List Char :=
  ((s.toList.dropWhile (· = ' ')).reverse.dropWhile (· = ' ')).reverse

/-- The largest value of an INTEGER column, also `i32::MAX`. -/
def integerMax : Int := 2147483647

/-- The CHECK constraints of `background_jobs`, under their names, and the upper end of the
INTEGER range (its lower end follows from `attemptsNonnegative` and `maxAttemptsPositive`). -/
structure JobRow.Checks (r : JobRow) : Prop where
  typeValid : 1 ≤ (btrim r.jobType).length ∧ (btrim r.jobType).length ≤ 200
  attemptsNonnegative : 0 ≤ r.attempts
  maxAttemptsPositive : 0 < r.maxAttempts
  attemptsBounded : r.attempts ≤ r.maxAttempts
  lockConsistent :
    (r.status = .running ∧ r.lockedAt.isSome ∧ r.lockedBy.isSome) ∨
      (r.status ≠ .running ∧ r.lockedAt = none ∧ r.lockedBy = none)
  completionConsistent :
    (r.status = .completed ∧ r.completedAt.isSome) ∨
      (r.status ≠ .completed ∧ r.completedAt = none)
  integerColumns : r.attempts ≤ integerMax ∧ r.maxAttempts ≤ integerMax

instance (r : JobRow) : Decidable r.Checks :=
  decidable_of_iff
    ((1 ≤ (btrim r.jobType).length ∧ (btrim r.jobType).length ≤ 200) ∧ 0 ≤ r.attempts ∧
      0 < r.maxAttempts ∧ r.attempts ≤ r.maxAttempts ∧
      ((r.status = .running ∧ r.lockedAt.isSome ∧ r.lockedBy.isSome) ∨
        (r.status ≠ .running ∧ r.lockedAt.isNone ∧ r.lockedBy.isNone)) ∧
      ((r.status = .completed ∧ r.completedAt.isSome) ∨
        (r.status ≠ .completed ∧ r.completedAt.isNone)) ∧
      r.attempts ≤ integerMax ∧ r.maxAttempts ≤ integerMax)
    ⟨fun ⟨ht, hn, hp, hb, hl, hc, hi⟩ => ⟨ht, hn, hp, hb, by simpa using hl, by simpa using hc, hi⟩,
      fun ⟨ht, hn, hp, hb, hl, hc, hi⟩ => ⟨ht, hn, hp, hb, by simpa using hl, by simpa using hc, hi⟩⟩

/-- Why PostgreSQL rejects a statement; `refused` is a statement that was never sent. -/
inductive SqlError where
  | uniqueViolation
  | checkViolation
  /-- a parameter with U+0000 -/
  | invalidByteSequence
  /-- a time that is no timestamp -/
  | datetimeFieldOverflow
  | refused
deriving DecidableEq

/-- A table that satisfies its schema. -/
structure JobTable where
  rows : List JobRow
  keyed : (rows.map JobRow.id).Nodup
  checked : ∀ r ∈ rows, r.Checks

namespace JobTable

def empty : JobTable := ⟨[], List.nodup_nil, by simp⟩

/-- The row with primary key `id`. -/
def find (T : JobTable) (id : Uuid) : Option JobRow :=
  Keyed.get JobRow.id id T.rows

/-- A statement's new row list becomes the table if it satisfies the schema. -/
def ofRows (rows : List JobRow) : Except SqlError JobTable :=
  if hkeyed : (rows.map JobRow.id).Nodup then
    if hchecked : ∀ r ∈ rows, r.Checks then .ok ⟨rows, hkeyed, hchecked⟩
    else .error .checkViolation
  else .error .uniqueViolation

/-- `UPDATE .. SET set WHERE sel`, with the rows as they are after the update. -/
def update (T : JobTable) (sel : JobRow → Bool) (set : JobRow → JobRow) :
    Except SqlError (JobTable × List JobRow) :=
  match ofRows (T.rows.map fun r => if sel r then set r else r) with
  | .error e => .error e
  | .ok T' => .ok (T', (T.rows.filter sel).map set)

/-- `INSERT .. VALUES row`. -/
def insert (T : JobTable) (row : JobRow) : Except SqlError (JobTable × List JobRow) :=
  match ofRows (T.rows ++ [row]) with
  | .error e => .error e
  | .ok T' => .ok (T', [row])

/-- `DELETE .. WHERE sel`, with the deleted rows. -/
def delete (T : JobTable) (sel : JobRow → Bool) : JobTable × List JobRow :=
  (⟨T.rows.filter fun r => !sel r,
      T.keyed.sublist (List.filter_sublist.map JobRow.id),
      fun r hr => T.checked r (List.mem_of_mem_filter hr)⟩,
    T.rows.filter sel)

/-! ## Lookups

The primary key makes `find` a function of the rows: these are the lemmas of `Keyed` at `id`. -/

variable {T T' : JobTable} {rows : List JobRow} {id : Uuid} {r : JobRow}

theorem find_eq_some : T.find id = some r ↔ r ∈ T.rows ∧ r.id = id :=
  Keyed.get_eq_some T.keyed

theorem find_of_mem (h : r ∈ T.rows) : T.find r.id = some r :=
  Keyed.get_of_mem T.keyed h

theorem id_of_find (h : T.find id = some r) : r.id = id :=
  (find_eq_some.mp h).2

theorem checks_of_find (h : T.find id = some r) : r.Checks :=
  T.checked r (find_eq_some.mp h).1

theorem eq_of_id_eq {s : JobRow} (hr : r ∈ T.rows) (hs : s ∈ T.rows) (hid : r.id = s.id) :
    r = s :=
  List.inj_on_of_nodup_map T.keyed hr hs hid

/-! ## What a write does to one row

A write is read off one `id` at a time: the row before, the row after, and the row that was
reported. -/

theorem ofRows_eq_ok : ofRows rows = .ok T ↔ T.rows = rows := by
  unfold ofRows
  constructor
  · intro h
    -- only the branch in which both checks pass answers `ok`
    split at h
    · split at h
      · cases h
        rfl
      · cases h
    · cases h
  · rintro rfl
    rw [dif_pos T.keyed, dif_pos T.checked]

variable {sel : JobRow → Bool} {set : JobRow → JobRow}

theorem update_eq_ok :
    T.update sel set = .ok (T', rows) ↔
      T'.rows = T.rows.map (fun r => if sel r then set r else r) ∧
        rows = (T.rows.filter sel).map set := by
  unfold update
  constructor
  · intro h
    split at h
    · cases h
    · rename_i T'' hof
      cases h
      exact ⟨ofRows_eq_ok.mp hof, rfl⟩
  · rintro ⟨hrows, rfl⟩
    rw [ofRows_eq_ok.mpr hrows]

/-- `RETURNING` reports rows as they now stand in the table. -/
theorem mem_of_update (h : T.update sel set = .ok (T', rows)) (hr : r ∈ rows) : r ∈ T'.rows := by
  obtain ⟨hrows, rfl⟩ := update_eq_ok.mp h
  obtain ⟨r₀, hr₀, rfl⟩ := List.mem_map.mp hr
  rw [List.mem_filter] at hr₀
  rw [hrows, List.mem_map]
  exact ⟨r₀, hr₀.1, if_pos hr₀.2⟩

/-- An update whose new rows pass every CHECK goes through. -/
theorem update_succeeds (hkey : ∀ r, (set r).id = r.id)
    (hchecks : ∀ r ∈ T.rows, sel r → (set r).Checks) :
    ∃ T', T.update sel set = .ok (T', (T.rows.filter sel).map set) := by
  have hkeyed : ((T.rows.map fun r => if sel r then set r else r).map JobRow.id).Nodup := by
    rw [Keyed.map_key_update hkey]
    exact T.keyed
  have hall : ∀ r ∈ T.rows.map (fun r => if sel r then set r else r), r.Checks := by
    intro r' hr'
    obtain ⟨r, hr, rfl⟩ := List.mem_map.mp hr'
    split
    · next hsel => exact hchecks r hr hsel
    · exact T.checked r hr
  exact ⟨⟨_, hkeyed, hall⟩, update_eq_ok.mpr ⟨rfl, rfl⟩⟩

/-- An update that selects nothing leaves the table as it is. -/
theorem update_none (hsel : ∀ r ∈ T.rows, sel r = false) : T.update sel set = .ok (T, []) := by
  rw [update_eq_ok]
  constructor
  · have hid : ∀ r ∈ T.rows, (if sel r then set r else r) = r := fun r hr => by simp [hsel r hr]
    rw [List.map_congr_left hid, List.map_id']
  · have hnil : T.rows.filter sel = [] :=
      List.filter_eq_nil_iff.mpr fun r hr => by simp [hsel r hr]
    rw [hnil, List.map_nil]

/-- Every lookup after an update. -/
theorem find_update (hkey : ∀ r, (set r).id = r.id) (h : T.update sel set = .ok (T', rows))
    (id : Uuid) : T'.find id = (T.find id).map fun r => if sel r then set r else r := by
  unfold find
  rw [(update_eq_ok.mp h).1]
  exact Keyed.get_update hkey id T.rows

theorem update_spec (hkey : ∀ r, (set r).id = r.id) (h : T.update sel set = .ok (T', rows))
    (id : Uuid) :
    (∃ r, T.find id = some r ∧ sel r = true ∧ T'.find id = some (set r) ∧
        Keyed.get JobRow.id id rows = some (set r)) ∨
      (T'.find id = T.find id ∧ Keyed.get JobRow.id id rows = none) := by
  have hfind := find_update hkey h id
  obtain ⟨_, rfl⟩ := update_eq_ok.mp h
  have hget : Keyed.get JobRow.id id ((T.rows.filter sel).map set) =
      ((T.find id).filter sel).map set := by
    rw [Keyed.get_map hkey, Keyed.get_filter T.keyed]
    rfl
  -- the row is there and selected, or it is left alone
  cases hr : T.find id with
  | none =>
    right
    simp [hfind, hget, hr]
  | some r =>
    by_cases hsel : sel r
    · left
      exact ⟨r, rfl, hsel, by simp [hfind, hr, hsel], by simp [hget, hr, hsel, Option.filter]⟩
    · right
      simp [hfind, hget, hr, hsel, Option.filter]

theorem insert_eq_ok {row : JobRow} :
    T.insert row = .ok (T', rows) ↔ T'.rows = T.rows ++ [row] ∧ rows = [row] := by
  unfold insert
  constructor
  · intro h
    split at h
    · cases h
    · rename_i T'' hof
      cases h
      exact ⟨ofRows_eq_ok.mp hof, rfl⟩
  · rintro ⟨hrows, rfl⟩
    rw [ofRows_eq_ok.mpr hrows]

theorem insert_spec {row : JobRow} (h : T.insert row = .ok (T', rows)) :
    rows = [row] ∧ T.find row.id = none ∧ T'.find row.id = some row ∧
      ∀ id, id ≠ row.id → T'.find id = T.find id := by
  obtain ⟨hrows, rfl⟩ := insert_eq_ok.mp h
  -- the primary key rejects a second row with this id
  have hfresh : T.find row.id = none := by
    have hnd := T'.keyed
    rw [hrows, List.map_append, List.map_singleton, List.nodup_append] at hnd
    refine Keyed.get_eq_none.mpr fun r hr he => ?_
    exact hnd.2.2 r.id (List.mem_map_of_mem hr) row.id (by simp) he
  have hfind : ∀ id, T'.find id = (T.find id).or (if row.id = id then some row else none) := by
    intro id
    unfold find
    rw [hrows]
    exact Keyed.get_append_singleton id T.rows row
  refine ⟨rfl, hfresh, ?_, fun id hid => ?_⟩
  · simp [hfind, hfresh]
  · simp [hfind, Ne.symm hid]

theorem find_delete (id : Uuid) : (T.delete sel).1.find id = (T.find id).filter fun r => !sel r :=
  Keyed.get_filter T.keyed (fun r => !sel r) id

theorem get_deleted (id : Uuid) :
    Keyed.get JobRow.id id (T.delete sel).2 = (T.find id).filter sel :=
  Keyed.get_filter T.keyed sel id

theorem delete_spec (id : Uuid) :
    (∃ r, T.find id = some r ∧ sel r = true ∧ (T.delete sel).1.find id = none ∧
        Keyed.get JobRow.id id (T.delete sel).2 = some r) ∨
      ((T.delete sel).1.find id = T.find id ∧ Keyed.get JobRow.id id (T.delete sel).2 = none) := by
  rw [find_delete, get_deleted]
  cases hr : T.find id with
  | none => exact Or.inr ⟨rfl, rfl⟩
  | some r =>
    by_cases hsel : sel r
    · left
      simp [hsel, Option.filter]
    · right
      simp [hsel, Option.filter]

end JobTable

end BaseSkeleton.Job
