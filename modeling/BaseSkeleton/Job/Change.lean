import BaseSkeleton.Job.PostgresQueue

/-!
# What a statement does to one row

A statement works on the whole table, but the queue's guarantees are about one job at a time.
`Change now s before row after` says everything statement `s` can do to the row under one `id`:
the guard that held of the row `before`, the row as the statement reports it, and the row
`after`. `exec_change` is the inversion of `Statement.exec`: under each `id` it either makes a
`Change` or leaves the row alone. Every invariant of the queue is derived from it, without
unfolding a statement again.

`Fenced` names the three calls guarded by `id`, worker and attempt; as statements they differ in
their `SET` only (`exec_fenced`).
-/

namespace BaseSkeleton.Job

namespace JobRow

variable (now : Instant) (r : JobRow)

@[simp] theorem reaped_id : (r.reaped now).id = r.id := rfl

@[simp] theorem claimed_id (workerId : String) : (r.claimed now workerId).id = r.id := rfl

@[simp] theorem completed_id : (r.completed now).id = r.id := rfl

@[simp] theorem renewed_id : (r.renewed now).id = r.id := rfl

@[simp] theorem failed_id (error : String) (retryDelay : Duration) :
    (r.failed now error retryDelay).id = r.id := rfl

variable {now r} {lease : Duration} {jobId : Uuid} {workerId : String} {attempt : Nat}

theorem leaseExpired_iff :
    r.leaseExpired now lease = true ↔
      r.status = .running ∧ ∃ lockedAt, r.lockedAt = some lockedAt ∧ lockedAt < now - lease := by
  simp [leaseExpired, Option.any_eq_true]

theorem claimable_iff :
    r.claimable now = true ↔
      r.status = .pending ∧ r.availableAt ≤ now ∧ r.attempts < r.maxAttempts := by
  simp [claimable]

theorem ownedBy_iff :
    r.ownedBy jobId workerId attempt = true ↔
      r.id = jobId ∧ r.status = .running ∧ r.lockedBy = some workerId ∧ r.attempts = attempt := by
  simp [ownedBy]

theorem purgeable_iff {completedOlderThan deadOlderThan : Duration} :
    r.purgeable now completedOlderThan deadOlderThan = true ↔
      (r.status = .completed ∧
          ∃ completedAt, r.completedAt = some completedAt ∧ completedAt < now - completedOlderThan) ∨
        (r.status = .dead ∧ r.updatedAt < now - deadOlderThan) := by
  simp [purgeable, Option.any_eq_true]

end JobRow

/-! ## Selected rows satisfy the condition they were selected by

The statements select by `id` from a subquery. An `id` that is among the selected ones belongs to
the row it was selected for, because the table is keyed. -/

namespace JobTable

variable {T : JobTable} {skip : List Uuid} {now : Instant} {r : JobRow}

/-- A row the reap selects has an expired lease. -/
theorem leaseExpired_of_mem_expired {lease : Duration} (hr : r ∈ T.rows)
    (h : r.id ∈ (T.expired skip now lease).map JobRow.id) : r.leaseExpired now lease = true := by
  obtain ⟨s, hs, hid⟩ := List.mem_map.mp h
  have hmem := (List.mem_insertionSort _).mp (List.mem_of_mem_take hs)
  rw [List.mem_filter, Bool.and_eq_true] at hmem
  rw [T.eq_of_id_eq hr hmem.1 hid.symm]
  exact hmem.2.1

/-- The row the claim selects is due. -/
theorem claimable_of_candidate (hr : r ∈ T.rows)
    (h : (T.candidate skip now).map JobRow.id = some r.id) : r.claimable now = true := by
  obtain ⟨s, hs, hid⟩ := Option.map_eq_some_iff.mp h
  have hmem := (List.mem_insertionSort _).mp (List.mem_of_mem_head? hs)
  rw [List.mem_filter, Bool.and_eq_true] at hmem
  rw [T.eq_of_id_eq hr hmem.1 hid.symm]
  exact hmem.2.1

/-- A row the purge selects has outlived its retention. -/
theorem purgeable_of_mem_retired {completedOlderThan deadOlderThan : Duration} (hr : r ∈ T.rows)
    (h : r.id ∈ (T.retired skip now completedOlderThan deadOlderThan).map JobRow.id) :
    r.purgeable now completedOlderThan deadOlderThan = true := by
  obtain ⟨s, hs, hid⟩ := List.mem_map.mp h
  have hmem := List.mem_of_mem_take hs
  rw [List.mem_filter, Bool.and_eq_true] at hmem
  rw [T.eq_of_id_eq hr hmem.1 hid.symm]
  exact hmem.2.1

end JobTable

/-! ## The inversion lemma

One constructor for each statement that can affect a row, with the guard it found. All invariants of
rows are inductions over runs whose step is a case analysis of `Change`. -/

/-- The effect of a statement on the row under one `id`: `before` and `after` the statement, and
the `row` it reports as affected. -/
inductive Change (now : Instant) :
    Statement → Option JobRow → JobRow → Option JobRow → Prop where
  | insert (job : NewJob) (began : Instant) (maxAttempts : Int)
      (hvalid : validateMaxAttempts job.maxAttempts = some maxAttempts) :
      Change now (.insert job began) none (job.row maxAttempts began)
        (some (job.row maxAttempts began))
  | reap (lease : Duration) (r : JobRow) (hexpired : r.leaseExpired now lease = true) :
      Change now (.reap lease) (some r) (r.reaped now) (some (r.reaped now))
  | claim (workerId : String) (r : JobRow) (hclaimable : r.claimable now = true) :
      Change now (.claim workerId) (some r) (r.claimed now workerId)
        (some (r.claimed now workerId))
  | complete (jobId : Uuid) (workerId : String) (attempt : Nat) (r : JobRow)
      (howned : r.ownedBy jobId workerId attempt = true) :
      Change now (.complete jobId workerId attempt) (some r) (r.completed now)
        (some (r.completed now))
  | renew (jobId : Uuid) (workerId : String) (attempt : Nat) (r : JobRow)
      (howned : r.ownedBy jobId workerId attempt = true) :
      Change now (.renew jobId workerId attempt) (some r) (r.renewed now) (some (r.renewed now))
  | fail (jobId : Uuid) (workerId : String) (attempt : Nat) (error : String)
      (retryDelay : Duration) (r : JobRow) (howned : r.ownedBy jobId workerId attempt = true) :
      Change now (.fail jobId workerId attempt error retryDelay) (some r)
        (r.failed now error retryDelay) (some (r.failed now error retryDelay))
  | purge (completedOlderThan deadOlderThan : Duration) (r : JobRow)
      (hpurgeable : r.purgeable now completedOlderThan deadOlderThan = true) :
      Change now (.purge completedOlderThan deadOlderThan) (some r) r none

variable {s : Statement} {skip : List Uuid} {now : Instant} {T T' : JobTable} {rows : List JobRow}

/-- **Inversion of `Statement.exec`, one `id` at a time.** -/
theorem exec_change (h : s.exec skip now T = .ok (T', rows)) (id : Uuid) :
    (∃ row, Keyed.get JobRow.id id rows = some row ∧ Change now s (T.find id) row (T'.find id)) ∨
      (Keyed.get JobRow.id id rows = none ∧ T'.find id = T.find id) := by
  -- an UPDATE reports the rewritten row, which is also what the table then holds
  have hupdate : ∀ {sel : JobRow → Bool} {set : JobRow → JobRow},
      (∀ r, (set r).id = r.id) → T.update sel set = .ok (T', rows) →
      (∀ r ∈ T.rows, sel r = true → Change now s (some r) (set r) (some (set r))) →
      (∃ row, Keyed.get JobRow.id id rows = some row ∧
          Change now s (T.find id) row (T'.find id)) ∨
        (Keyed.get JobRow.id id rows = none ∧ T'.find id = T.find id) := by
    intro sel set hkey hup hchange
    rcases JobTable.update_spec hkey hup id with ⟨r, hr, hsel, hafter, hget⟩ | ⟨hsame, hget⟩
    · left
      refine ⟨set r, hget, ?_⟩
      rw [hr, hafter]
      exact hchange r (JobTable.find_eq_some.mp hr).1 hsel
    · exact Or.inr ⟨hget, hsame⟩
  cases s with
  | insert job began =>
    simp only [Statement.exec] at h
    split at h
    · cases h
    · rename_i maxAttempts hvalid
      obtain ⟨rfl, hfresh, hafter, hother⟩ := JobTable.insert_spec h
      by_cases hid : id = job.id
      · left
        subst hid
        refine ⟨job.row maxAttempts began, by simp [Keyed.get_cons, NewJob.row], ?_⟩
        have hbefore : T.find job.id = none := hfresh
        have hthere : T'.find job.id = some (job.row maxAttempts began) := hafter
        rw [hbefore, hthere]
        exact .insert job began maxAttempts hvalid
      · -- a row that was inserted elsewhere
        right
        have hne : (job.row maxAttempts began).id ≠ id := fun he => hid he.symm
        exact ⟨by simp [Keyed.get_cons, hne], hother id (Ne.symm hne)⟩
  | reap lease =>
    refine hupdate (JobRow.reaped_id now) h fun r hr hsel => ?_
    exact .reap lease r (T.leaseExpired_of_mem_expired hr (by simpa using hsel))
  -- only the candidate is selected, and it is claimable
  | claim workerId =>
    refine hupdate (fun r => JobRow.claimed_id now r workerId) h fun r hr hsel => ?_
    exact .claim workerId r (T.claimable_of_candidate hr (by simpa using hsel))
  | complete jobId workerId attempt =>
    exact hupdate (JobRow.completed_id now) h fun r _ hsel =>
      .complete jobId workerId attempt r hsel
  | renew jobId workerId attempt =>
    exact hupdate (JobRow.renewed_id now) h fun r _ hsel => .renew jobId workerId attempt r hsel
  | fail jobId workerId attempt error retryDelay =>
    exact hupdate (fun r => JobRow.failed_id now r error retryDelay) h fun r _ hsel =>
      .fail jobId workerId attempt error retryDelay r hsel
  | purge completedOlderThan deadOlderThan =>
    simp only [Statement.exec, Except.ok.injEq] at h
    -- the rows a DELETE reports are the ones it has taken out
    have hT' := congrArg Prod.fst h
    have hrows := congrArg Prod.snd h
    simp only at hT' hrows
    subst hT' hrows
    rcases T.delete_spec id with ⟨r, hr, hsel, hafter, hget⟩ | ⟨hsame, hget⟩
    · left
      refine ⟨r, hget, ?_⟩
      rw [hr, hafter]
      exact .purge completedOlderThan deadOlderThan r
        (T.purgeable_of_mem_retired (JobTable.find_eq_some.mp hr).1 (by simpa using hsel))
    · exact Or.inr ⟨hget, hsame⟩

/-- The first row a statement reports is one it has changed. -/
theorem exec_head {row : JobRow} (h : s.exec skip now T = .ok (T', row :: rows)) :
    Change now s (T.find row.id) row (T'.find row.id) := by
  have hget : Keyed.get JobRow.id row.id (row :: rows) = some row := by
    rw [Keyed.get_cons, if_pos rfl]
  rcases exec_change h row.id with ⟨row', hrow', hch⟩ | ⟨hnone, _⟩
  · rw [hget] at hrow'
    rwa [← Option.some.inj hrow'] at hch
  · rw [hget] at hnone
    cases hnone

/-- The statements that end an attempt without success. -/
def Statement.GivesUp (s : Statement) : Prop :=
  (∃ lease, s = .reap lease) ∨
    ∃ jobId workerId attempt error retryDelay, s = .fail jobId workerId attempt error retryDelay

/-- A job that is over. -/
def JobRow.Terminal (r : JobRow) : Prop :=
  r.status = .completed ∨ r.status = .dead

/-- Nothing but a purge whose retention has run out touches a terminal row. -/
theorem Change.of_terminal {r row : JobRow} {after : Option JobRow}
    (h : Change now s (some r) row after) (hterm : r.Terminal) :
    ∃ completedOlderThan deadOlderThan, s = .purge completedOlderThan deadOlderThan ∧ row = r ∧
      after = none ∧ r.purgeable now completedOlderThan deadOlderThan = true := by
  have hstatus : r.status ≠ .pending ∧ r.status ≠ .running := by
    rcases hterm with h | h <;> simp [h]
  cases h with
  | reap lease _ hexpired => exact absurd (JobRow.leaseExpired_iff.mp hexpired).1 hstatus.2
  | claim workerId _ hclaimable => exact absurd (JobRow.claimable_iff.mp hclaimable).1 hstatus.1
  | complete jobId workerId attempt _ howned =>
    exact absurd (JobRow.ownedBy_iff.mp howned).2.1 hstatus.2
  | renew jobId workerId attempt _ howned =>
    exact absurd (JobRow.ownedBy_iff.mp howned).2.1 hstatus.2
  | fail jobId workerId attempt error retryDelay _ howned =>
    exact absurd (JobRow.ownedBy_iff.mp howned).2.1 hstatus.2
  | purge completedOlderThan deadOlderThan _ hpurgeable =>
    exact ⟨completedOlderThan, deadOlderThan, rfl, rfl, rfl, hpurgeable⟩

/-- Nothing but a claim whose time has come touches a row that is up for one. -/
theorem Change.of_pending {r row : JobRow} {after : Option JobRow}
    (h : Change now s (some r) row after) (hpending : r.status = .pending) :
    ∃ workerId, s = .claim workerId ∧ r.claimable now = true := by
  have hstatus : r.status ≠ .running ∧ r.status ≠ .completed ∧ r.status ≠ .dead := by
    simp [hpending]
  cases h with
  | claim workerId _ hclaimable => exact ⟨workerId, rfl, hclaimable⟩
  | reap lease _ hexpired => exact absurd (JobRow.leaseExpired_iff.mp hexpired).1 hstatus.1
  | complete jobId workerId attempt _ howned =>
    exact absurd (JobRow.ownedBy_iff.mp howned).2.1 hstatus.1
  | renew jobId workerId attempt _ howned =>
    exact absurd (JobRow.ownedBy_iff.mp howned).2.1 hstatus.1
  | fail jobId workerId attempt error retryDelay _ howned =>
    exact absurd (JobRow.ownedBy_iff.mp howned).2.1 hstatus.1
  | purge completedOlderThan deadOlderThan _ hpurgeable =>
    rcases JobRow.purgeable_iff.mp hpurgeable with ⟨hcompleted, _⟩ | ⟨hdead, _⟩
    · exact absurd hcompleted hstatus.2.1
    · exact absurd hdead hstatus.2.2

/-- A row that is still there is there as it was reported. -/
theorem Change.reports_after {before : Option JobRow} {row r : JobRow}
    (h : Change now s before row (some r)) : row = r := by
  cases h <;> rfl

/-- Only terminal rows are deleted. -/
theorem Change.terminal_of_deleted {before : Option JobRow} {row : JobRow}
    (h : Change now s before row none) :
    ∃ completedOlderThan deadOlderThan, s = .purge completedOlderThan deadOlderThan ∧
      before = some row ∧ row.Terminal ∧
      row.purgeable now completedOlderThan deadOlderThan = true := by
  cases h with
  | purge completedOlderThan deadOlderThan _ hpurgeable =>
    refine ⟨completedOlderThan, deadOlderThan, rfl, rfl, ?_, hpurgeable⟩
    rcases JobRow.purgeable_iff.mp hpurgeable with ⟨hstatus, _⟩ | ⟨hstatus, _⟩
    · exact Or.inl hstatus
    · exact Or.inr hstatus

/-! ## The fenced calls

The three statements of a worker about its own attempt, as one: what is said of the guard is said
once. -/

/-- The calls a worker makes on a job it has claimed. -/
inductive Fenced where
  | complete
  | renew
  | fail (error : String) (retryDelay : Duration)

namespace Fenced

def statement (jobId : Uuid) (workerId : String) (attempt : Nat) : Fenced → Statement
  | complete => .complete jobId workerId attempt
  | renew => .renew jobId workerId attempt
  | fail error retryDelay => .fail jobId workerId attempt error retryDelay

def set (now : Instant) : Fenced → JobRow → JobRow
  | complete => JobRow.completed now
  | renew => JobRow.renewed now
  | fail error retryDelay => JobRow.failed now error retryDelay

/-- What the caller gets back; only `fail` answers with a disposition. -/
def answer (result : Except SqlError (JobTable × List JobRow)) :
    Fenced → Except JobQueueError (Option JobDisposition)
  | complete => (PostgresJobQueue.answer PostgresJobQueue.readLease result).map fun _ => none
  | renew => (PostgresJobQueue.answer PostgresJobQueue.readLease result).map fun _ => none
  | fail _ _ => (PostgresJobQueue.answer PostgresJobQueue.readFail result).map some

@[simp] theorem set_id (c : Fenced) (r : JobRow) : (c.set now r).id = r.id := by
  cases c <;> rfl

end Fenced

/-- The three fenced statements are one guarded UPDATE with different `SET` lists. -/
theorem exec_fenced (c : Fenced) (jobId : Uuid) (workerId : String) (attempt : Nat) :
    (c.statement jobId workerId attempt).exec skip now T =
      T.update (JobRow.ownedBy jobId workerId attempt) (c.set now) := by
  cases c <;> rfl

end BaseSkeleton.Job
