import BaseSkeleton.Job.History
import BaseSkeleton.Job.RowInvariant

/-!
# Attempt fencing

`complete`, `renew` and `fail` are guarded by `id`, worker and attempt. The guard looks at the
row, the guarantee is about the history: a call takes effect exactly when the latest claim of the
job returned this attempt to this worker and nothing has closed it since.

* `holder` — who that is, read off the log.
* `owned_iff_holder` — the row passes the guard for the holder and for nobody else.
* `exec_fenced_owned` / `exec_fenced_unowned` — the two outcomes of a fenced call that is executed.
* `accepted_iff` — which calls are executed.
* `fenced_calls_follow_holder` — the equivalence over every run, with its two consequences: an
  attempt is closed at most once, and an earlier attempt cannot touch a row that was claimed again.
-/

namespace BaseSkeleton.Job

/-- The worker and the attempt the latest claim of `id` went to, unless a reap, a complete or a
fail has taken effect on the row since. -/
def holder (id : Uuid) : List Entry → Option (String × Nat)
  | [] => none
  | e :: log =>
    match e.rowOf id, e.statement with
    | some row, .claim workerId => some (workerId, row.attempts.toNat)
    | some _, .reap _ => none
    | some _, .complete _ _ _ => none
    | some _, .fail _ _ _ _ _ => none
    | _, _ => holder id log

/-- The entry is a `complete` or `fail` of attempt `attempt` that took effect on job `id`. -/
def Entry.closes (id : Uuid) (attempt : Nat) (e : Entry) : Bool :=
  (e.rowOf id).isSome &&
    match e.statement with
    | .complete jobId _ k => jobId = id ∧ k = attempt
    | .fail jobId _ k _ _ => jobId = id ∧ k = attempt
    | _ => false

variable {db : Db} {id : Uuid} {workerId : String} {attempt : Nat}

/-- The holder in the log is the holder of the item. -/
theorem holder_eventsOf (id : Uuid) (log : List Entry) :
    WorkItem.holder (eventsOf id log) = holder id log := by
  induction log with
  | nil => rfl
  | cons e log ih =>
    obtain ⟨now, s, rows⟩ := e
    cases hrow : Entry.rowOf ⟨now, s, rows⟩ id with
    | none =>
      rw [eventsOf_cons_none log hrow, ih, holder, hrow]
    | some row =>
      rw [eventsOf_cons_some log hrow, holder, hrow]
      cases s with
      | claim workerId => rfl
      | reap lease => rfl
      | complete jobId workerId attempt => rfl
      | fail jobId workerId attempt error retryDelay => rfl
      | insert job began => exact ih
      | renew jobId workerId attempt => exact ih
      | purge completedOlderThan deadOlderThan => exact ih

/-- **The guard is the history.** The row of a job passes the fencing guard for exactly the
worker and attempt that hold the job. -/
theorem owned_iff_holder (h : queue.Reachable db) (hd : DistinctIds db.log) :
    (∃ r, db.table.find id = some r ∧ r.ownedBy id workerId attempt = true) ↔
      holder id db.log = some (workerId, attempt) := by
  obtain ⟨i, hlife, htracks⟩ := reachable_tracks h hd id
  rw [← holder_eventsOf, hlife.holder_eq]
  constructor
  · rintro ⟨r, hr, howned⟩
    obtain ⟨_, hrun, hby, hattempt⟩ := JobRow.ownedBy_iff.mp howned
    rw [hr] at htracks
    cases htracks with
    | @present _ it hshows _ =>
      -- the item is held by somebody, and its view says by whom
      obtain ⟨owner, hheld, howner⟩ := hshows.held hrun
      have hspent : it.spent = attempt := by
        have := hshows.attempts
        omega
      simp_all [WorkItem.Item.holder]
  · intro hholder
    obtain ⟨it, rfl, hit⟩ := Option.bind_eq_some_iff.mp hholder
    have hheld : it.stage = .held workerId ∧ it.spent = attempt := by
      unfold WorkItem.Item.holder at hit
      split at hit
      · next hs =>
        cases hit
        exact ⟨hs, rfl⟩
      · cases hit
    -- a held item has its row
    generalize hfind : db.table.find id = found at htracks
    cases htracks with
    | @present r _ hshows _ =>
      have hstage := hshows.stage
      rw [hheld.1] at hstage
      refine ⟨r, rfl, JobRow.ownedBy_iff.mpr ⟨JobTable.id_of_find hfind, hstage.1, hstage.2, ?_⟩⟩
      rw [hshows.attempts, hheld.2]
    | removed hremoved _ =>
      rw [hheld.1] at hremoved
      cases hremoved

/-! ## The two outcomes of a fenced call

The guard of the statement is on the row, and no two rows have the same `id`: the call affects one
row, or none. -/

variable {T : JobTable} {r : JobRow}

/-- A call whose guard holds affects this one row and is acknowledged. -/
theorem exec_fenced_owned (skip : List Uuid) (now : Instant) (c : Fenced)
    (hr : T.find id = some r) (howned : r.ownedBy id workerId attempt = true) :
    ∃ T', (c.statement id workerId attempt).exec skip now T = .ok (T', [c.set now r]) ∧
      T'.find id = some (c.set now r) ∧ (∀ other, other ≠ id → T'.find other = T.find other) ∧
      ∃ disposition,
        c.answer ((c.statement id workerId attempt).exec skip now T) = .ok disposition := by
  obtain ⟨T', hexec⟩ := fenced_succeeds T skip now c id workerId attempt
  -- the guard names the primary key, so it selects one row
  have hfilter : T.rows.filter (JobRow.ownedBy id workerId attempt) = [r] := by
    rw [Keyed.filter_of_key T.keyed fun r hr => (JobRow.ownedBy_iff.mp hr).1]
    show ((T.find id).filter _).toList = [r]
    simp [hr, howned, Option.filter]
  have hone := hexec
  rw [hfilter, List.map_singleton] at hone
  rw [exec_fenced] at hexec
  refine ⟨T', hone, ?_, fun other hother => ?_, ?_⟩
  · rcases JobTable.update_spec c.set_id hexec id with ⟨r', hr', _, hafter, _⟩ | ⟨_, hnone⟩
    · cases hr.symm.trans hr'
      exact hafter
    · rw [hfilter, List.map_singleton, Keyed.get_cons, c.set_id, JobTable.id_of_find hr] at hnone
      simp at hnone
  · rcases JobTable.update_spec c.set_id hexec other with ⟨r', hr', hsel, _, _⟩ | ⟨hsame, _⟩
    · have hid := (JobRow.ownedBy_iff.mp hsel).1
      exact absurd ((JobTable.id_of_find hr').symm.trans hid) hother
    · exact hsame
  · rw [hone]
    -- the status `fail` reads back is one its own CASE wrote
    cases c with
    | complete => exact ⟨none, rfl⟩
    | renew => exact ⟨none, rfl⟩
    | fail error retryDelay =>
      have hstatus : (r.failed now error retryDelay).status = r.releasedStatus := rfl
      simp only [Fenced.answer, Fenced.set, PostgresJobQueue.answer, PostgresJobQueue.readFail,
        hstatus, JobRow.releasedStatus]
      by_cases hbudget : r.attempts ≥ r.maxAttempts
      · exact ⟨some .deadLettered, by simp [hbudget, Except.map]⟩
      · exact ⟨some .retryScheduled, by simp [hbudget, Except.map]⟩

/-- A call whose guard fails changes nothing and reports the lost lease. -/
theorem exec_fenced_unowned (skip : List Uuid) (now : Instant) (c : Fenced)
    (hunowned : ¬ ∃ r, T.find id = some r ∧ r.ownedBy id workerId attempt = true) :
    (c.statement id workerId attempt).exec skip now T = .ok (T, []) ∧
      c.answer ((c.statement id workerId attempt).exec skip now T) = .error .leaseLost := by
  have hexec : (c.statement id workerId attempt).exec skip now T = .ok (T, []) := by
    rw [exec_fenced]
    refine JobTable.update_none fun r hr => Bool.eq_false_iff.mpr fun howned => hunowned ⟨r, ?_⟩
    have hid := (JobRow.ownedBy_iff.mp howned).1
    exact ⟨hid ▸ JobTable.find_of_mem hr, howned⟩
  refine ⟨hexec, ?_⟩
  rw [hexec]
  cases c <;> rfl

/-! ## An attempt is closed at most once

Closings are counted in the log. A `complete` or a `fail` of an attempt takes the row out of it, and
the next claim has a larger number. -/

/-- The closing entries of an attempt are among the closings of the job's history. -/
theorem countP_closes_le {log : List Entry}
    (hlog : ∀ e ∈ log, ∀ row, e.rowOf id = some row →
      ∃ before after, Change e.now e.statement before row after) :
    log.countP (Entry.closes id attempt) ≤
      (WorkItem.closings (eventsOf id log)).count attempt := by
  induction log with
  | nil => simp
  | cons e log ih =>
    have hprev := ih fun e he => hlog e (List.mem_cons_of_mem _ he)
    have hhead := hlog e List.mem_cons_self
    cases hrow : e.rowOf id with
    | none =>
      rw [eventsOf_cons_none log hrow, List.countP_cons_of_neg (by simp [Entry.closes, hrow])]
      exact hprev
    | some row =>
      obtain ⟨before, after, hch⟩ := hhead row hrow
      obtain ⟨now, s, rows⟩ := e
      rw [eventsOf_cons_some log hrow, List.countP_cons]
      cases hch with
      -- the attempt of the guard is the attempt of the row
      | complete jobId workerId k r howned =>
        have hattempts := (JobRow.ownedBy_iff.mp howned).2.2.2
        have hk : (r.completed now).attempts.toNat = k := by
          change r.attempts.toNat = k
          omega
        simp only [Statement.event, WorkItem.closings, List.count_cons, hk, Entry.closes]
        grind
      | fail jobId workerId k error retryDelay r howned =>
        have hattempts := (JobRow.ownedBy_iff.mp howned).2.2.2
        have hk : (r.failed now error retryDelay).attempts.toNat = k := by
          change r.attempts.toNat = k
          omega
        simp only [Statement.event, WorkItem.closings, List.count_cons, hk, Entry.closes]
        grind
      -- a reap closes the attempt in the history, but is no call on its behalf
      | reap lease r hexpired =>
        simp only [Statement.event, WorkItem.closings, List.count_cons, Entry.closes]
        grind
      | _ => simpa [Statement.event, WorkItem.closings, Entry.closes] using hprev

/-- A claim entry hands out an attempt of the job's history. -/
theorem mem_acquires_of_claim {log : List Entry} {e : Entry} {row : JobRow} (he : e ∈ log)
    (hclaim : e.statement = .claim workerId) (hrow : e.rowOf id = some row) :
    row.attempts.toNat ∈ WorkItem.acquires (eventsOf id log) := by
  induction log with
  | nil => cases he
  | cons e' log ih =>
    rcases List.mem_cons.mp he with rfl | hmem
    · rw [eventsOf_cons_some log hrow, hclaim]
      exact List.mem_cons_self
    · have hold := ih hmem
      cases hrow' : e'.rowOf id with
      | none => rwa [eventsOf_cons_none log hrow']
      | some row' =>
        rw [eventsOf_cons_some log hrow']
        cases e'.statement with
        | claim workerId' => exact List.mem_cons_of_mem _ hold
        | _ => exact hold

/-- No attempt handed out is newer than the one that holds the job. -/
theorem claimed_le_holder (h : queue.Reachable db) (hd : DistinctIds db.log) {e : Entry}
    {claimant : String} {row : JobRow} (he : e ∈ db.log) (hclaim : e.statement = .claim claimant)
    (hrow : e.rowOf id = some row) (hholder : holder id db.log = some (workerId, attempt)) :
    row.attempts.toNat ≤ attempt := by
  obtain ⟨i, hlife, _⟩ := reachable_tracks h hd id
  rw [← holder_eventsOf, hlife.holder_eq] at hholder
  obtain ⟨it, rfl, hit⟩ := Option.bind_eq_some_iff.mp hholder
  have hspent : it.spent = attempt := by
    unfold WorkItem.Item.holder at hit
    split at hit
    · cases hit
      rfl
    · cases hit
  -- the attempts handed out are 1, 2, .., up to the current one
  have hmem := mem_acquires_of_claim he hclaim hrow
  rw [← List.mem_reverse, hlife.acquires_reverse, List.mem_range'_1] at hmem
  omega

/-! ## The calls that are executed

PostgreSQL refuses a call for what is bound to it. A text with U+0000 is refused whoever sends it; a
delay that leads out of the timestamps is refused if it is computed, and the row of the call needs
it only if it is the holder's and has attempts left. -/

/-- PostgreSQL executes the call. -/
def Fenced.Accepted (early : Bool) (now : Instant) (T : JobTable) (id : Uuid) (workerId : String)
    (attempt : Nat) : Fenced → Prop
  | complete => IsText workerId
  | renew => IsText workerId
  | fail error retryDelay =>
    IsText workerId ∧ '\x00' ∉ error.toList.take 4000 ∧
      (early = true → isInterval retryDelay = true) ∧
      (futureInRange now retryDelay = true ∨
        ∀ r, T.find id = some r → r.ownedBy id workerId attempt = true → r.maxAttempts ≤ r.attempts)

/-- Of a message only its beginning is bound. -/
theorem isText_cutError {error : String} :
    IsText (cutError error) ↔ '\x00' ∉ error.toList.take 4000 := by
  rw [IsText, cutError, String.toList_ofList]

/-- The one row that can need the delay of a `fail`. -/
theorem any_ownedBy (T : JobTable) (id : Uuid) (workerId : String) (attempt : Nat) :
    (T.rows.any fun r =>
        r.ownedBy id workerId attempt && decide (r.attempts < r.maxAttempts)) = false ↔
      ∀ r, T.find id = some r → r.ownedBy id workerId attempt = true →
        r.maxAttempts ≤ r.attempts := by
  simp only [List.any_eq_false, Bool.and_eq_true, decide_eq_true_eq, not_and, Int.not_lt]
  constructor
  · intro h r hr
    exact h r (JobTable.find_eq_some.mp hr).1
  · intro h r hr howned
    have hid := (JobRow.ownedBy_iff.mp howned).1
    exact h r (hid ▸ JobTable.find_of_mem hr) howned

/-- **Which calls are executed.** -/
theorem accepted_iff {early : Bool} {skip : List Uuid} {now : Instant} {T : JobTable}
    (c : Fenced) :
    (c.statement id workerId attempt).Accepted early skip now T ↔
      c.Accepted early now T id workerId attempt := by
  cases c with
  | complete =>
    constructor
    · intro h
      exact h.texts workerId List.mem_cons_self
    · intro h
      exact ⟨List.forall_mem_singleton.mpr h, fun _ => rfl, rfl⟩
  | renew =>
    constructor
    · intro h
      exact h.texts workerId List.mem_cons_self
    · intro h
      exact ⟨List.forall_mem_singleton.mpr h, fun _ => rfl, rfl⟩
  | fail error retryDelay =>
    -- the delay is in range, or no row needs it
    have htime : ((Statement.fail id workerId attempt error retryDelay).overflows skip now T =
        false) ↔ futureInRange now retryDelay = true ∨ ∀ r, T.find id = some r →
          r.ownedBy id workerId attempt = true → r.maxAttempts ≤ r.attempts := by
      rw [Statement.overflows, Bool.and_eq_false_iff, any_ownedBy, Bool.not_eq_false']
    constructor
    · intro h
      obtain ⟨hby, hcut⟩ := List.forall_mem_cons.mp h.texts
      exact ⟨hby, isText_cutError.mp (hcut _ List.mem_cons_self), h.plan, htime.mp h.rows⟩
    · intro h
      obtain ⟨hby, hmessage, hplan, hdelay⟩ := h
      refine ⟨List.forall_mem_cons.mpr ⟨hby, ?_⟩, hplan, htime.mpr hdelay⟩
      exact List.forall_mem_singleton.mpr (isText_cutError.mpr hmessage)

/-! ## The theorem

`FollowsHolder` is the claim about one call: it takes effect for the holder, and answers `LeaseLost`
to everybody else. -/

/-- What a fenced call does if the history alone decides: it takes effect for the holder, and
otherwise reports `LeaseLost` and leaves the whole table alone. -/
structure FollowsHolder (db : Db) (early : Bool) (skip : List Uuid) (now : Instant) (id : Uuid)
    (workerId : String) (attempt : Nat) (c : Fenced) : Prop where
  effect : holder id db.log = some (workerId, attempt) →
    ∃ r T', db.table.find id = some r ∧
      (c.statement id workerId attempt).execBound early skip now db.table =
        .ok (T', [c.set now r]) ∧
      T'.find id = some (c.set now r) ∧
      (∀ other, other ≠ id → T'.find other = db.table.find other) ∧
      ∃ disposition, c.answer
        ((c.statement id workerId attempt).execBound early skip now db.table) = .ok disposition
  lost : holder id db.log ≠ some (workerId, attempt) →
    (c.statement id workerId attempt).execBound early skip now db.table = .ok (db.table, []) ∧
      c.answer ((c.statement id workerId attempt).execBound early skip now db.table) =
        .error .leaseLost

/-- A statement that fails is answered `Unavailable`. -/
theorem Fenced.answer_error (c : Fenced) (e : SqlError) :
    c.answer (.error e) = .error .unavailable := by
  cases c <;> rfl

/-- **Attempt fencing.** In every state of every run a fenced call on job `id` does what the history
of the job says (`FollowsHolder`) exactly if PostgreSQL executes it; a call that it refuses changes
nothing and answers `Unavailable`. Each attempt is closed by at most one `complete` or `fail`, and
once attempt `k` has been claimed a call for an earlier attempt changes nothing, whatever worker id
it carries and whatever is bound to it. -/
theorem fenced_calls_follow_holder (h : boundQueue.Reachable db) (hd : DistinctIds db.log)
    (id : Uuid) :
    (∀ (c : Fenced) (workerId : String) (attempt : Nat) (early : Bool) (skip : List Uuid)
      (now : Instant),
      (FollowsHolder db early skip now id workerId attempt c ↔
        c.Accepted early now db.table id workerId attempt) ∧
      (¬ c.Accepted early now db.table id workerId attempt →
        tableAfter db.table
            ((c.statement id workerId attempt).execBound early skip now db.table) = db.table ∧
          c.answer ((c.statement id workerId attempt).execBound early skip now db.table) =
            .error .unavailable)) ∧
    (∀ attempt, db.log.countP (Entry.closes id attempt) ≤ 1) ∧
    (∀ e ∈ db.log, ∀ claimant row, e.statement = .claim claimant → e.rowOf id = some row →
      ∀ (c : Fenced) (workerId : String) (attempt : Nat) (early : Bool) (skip : List Uuid)
        (now : Instant), attempt < row.attempts.toNat →
          tableAfter db.table
              ((c.statement id workerId attempt).execBound early skip now db.table) = db.table ∧
            ∀ disposition, c.answer
              ((c.statement id workerId attempt).execBound early skip now db.table) ≠
                .ok disposition) := by
  replace h := reachable_of_bound h
  have hguard : ∀ workerId attempt, holder id db.log ≠ some (workerId, attempt) →
      ¬ ∃ r, db.table.find id = some r ∧ r.ownedBy id workerId attempt = true :=
    fun _ _ hne howned => hne ((owned_iff_holder h hd).mp howned)
  refine ⟨fun c workerId attempt early skip now => ?_, fun attempt => ?_, ?_⟩
  · -- A statement is executed or refused, and a refused one leaves the table alone.
    have hrefuse : ¬ c.Accepted early now db.table id workerId attempt → ∃ e,
        (c.statement id workerId attempt).execBound early skip now db.table = .error e := by
      intro hrefused
      rcases (c.statement id workerId attempt).execBound_cases early skip now db.table with
        ⟨haccepted, _⟩ | ⟨_, herror⟩
      · exact absurd ((accepted_iff c).mp haccepted) hrefused
      · exact herror
    refine ⟨⟨fun hfollows => ?_, fun haccepted => ?_⟩, fun hrefused => ?_⟩
    · -- a call that is refused follows neither case of the history
      by_contra hrefused
      obtain ⟨e, herror⟩ := hrefuse hrefused
      by_cases hholder : holder id db.log = some (workerId, attempt)
      · obtain ⟨_, _, _, hok, _⟩ := hfollows.effect hholder
        cases herror.symm.trans hok
      · cases herror.symm.trans (hfollows.lost hholder).1
    · constructor
      · intro hholder
        obtain ⟨r, hr, howned⟩ := (owned_iff_holder h hd).mpr hholder
        rw [((accepted_iff c).mpr haccepted).execBound]
        obtain ⟨T', heffect⟩ := exec_fenced_owned skip now c hr howned
        exact ⟨r, T', hr, heffect⟩
      · intro hne
        rw [((accepted_iff c).mpr haccepted).execBound]
        exact exec_fenced_unowned skip now c (hguard workerId attempt hne)
    · obtain ⟨e, herror⟩ := hrefuse hrefused
      rw [herror]
      exact ⟨rfl, c.answer_error e⟩
  · obtain ⟨i, hlife, _⟩ := reachable_tracks h hd id
    -- An attempt is closed at most once in the life of the job.
    calc db.log.countP (Entry.closes id attempt)
        ≤ (WorkItem.closings (eventsOf id db.log)).count attempt :=
          countP_closes_le fun _ he _ hrow => reachable_reported h he hrow
      _ ≤ 1 := List.nodup_iff_count_le_one.mp hlife.closings_nodup attempt
  · intro e he claimant row hclaim hrow c workerId attempt early skip now hlt
    obtain ⟨hunowned, hanswer⟩ := exec_fenced_unowned skip now c
      (hguard workerId attempt fun hholder => by
        have := claimed_le_holder h hd he hclaim hrow hholder
        omega)
    rcases (c.statement id workerId attempt).execBound_cases early skip now db.table with
      ⟨_, hexec⟩ | ⟨_, e, herror⟩
    · rw [hexec]
      refine ⟨by rw [hunowned]; rfl, fun disposition hok => ?_⟩
      cases hanswer.symm.trans hok
    · rw [herror, c.answer_error]
      exact ⟨rfl, fun _ hok => by cases hok⟩

/-- A job that failed once and was claimed again, with statements that are sent to PostgreSQL. -/
def retriedBoundRun : List BoundRequest :=
  retriedRun.map fun q => ⟨q, true⟩

theorem fenced_calls_follow_holder_retried :
    let db := (boundQueue.run retriedBoundRun).get rfl
    holder 7 db.log = some ("worker", 2) ∧
      (Statement.complete 7 "worker" 1).execBound true [] 50 db.table = .ok (db.table, []) := by
  have haccepted : IsText "worker" := by
    decide
  refine ⟨by decide, ?_⟩
  exact ((((fenced_calls_follow_holder (Machine.reachable_get rfl) (by unfold DistinctIds; decide)
    7).1 .complete "worker" 1 true [] 50).1.mpr haccepted).lost (by decide)).1

/-- The holder reports a message with U+0000: the report has no effect, and no lease was lost. -/
theorem nul_report_refused :
    let db := (boundQueue.run retriedBoundRun).get rfl
    holder 7 db.log = some ("worker", 2) ∧
      ∀ early, (Statement.fail 7 "worker" 2 "bad input: \x00" 5).execBound early [] 50 db.table =
          .error .invalidByteSequence ∧
        (Fenced.fail "bad input: \x00" 5).answer ((Statement.fail 7 "worker" 2 "bad input: \x00"
          5).execBound early [] 50 db.table) = .error .unavailable := by
  refine ⟨by decide, fun early => ⟨rfl, rfl⟩⟩

end BaseSkeleton.Job
