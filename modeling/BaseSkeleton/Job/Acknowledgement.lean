import BaseSkeleton.Job.Delivery

/-!
# What a run was told stands

The other direction of `Delivery`: once `complete` or `fail` has answered a run, the table keeps
to the answer. The reply may arrive long after the statement took effect, and the statement may
have taken effect without a reply.

* `Recorded` — the statement is in the log of the database, with the status it left the row in.
* `Told` — everything a run was told is recorded; `reachable_told` over every world.
* `reported_terminal_stays` — a row that was once reported as over is still that row, or purged.
* `acknowledged_outcomes_durable` — the guarantee.
-/

namespace BaseSkeleton.Job

/-- The status a disposition reports. -/
def JobDisposition.status : JobDisposition → Status
  | .retryScheduled => .pending
  | .deadLettered => .dead

/-- Statement `s` took effect and left the row of `id` in `status`. -/
def Recorded (log : List Entry) (id : Uuid) (s : Statement) (status : Status) : Prop :=
  ∃ entry ∈ log, entry.statement = s ∧ ∃ row, entry.rowOf id = some row ∧ row.status = status

/-- The answer to an action is recorded in the database. -/
def Confirmed (log : List Entry) (w : JobWorker) (job : ClaimedJob) : Action → Prop
  | .completeAnswered (.ok ()) =>
    Recorded log job.id (.complete job.id w.config.workerId job.attempts) .completed
  | .failAnswered (.ok disposition) => ∃ message delay,
    Recorded log job.id (.fail job.id w.config.workerId job.attempts message delay)
      disposition.status
  | _ => True

/-- Everything the run was told is recorded. -/
def Told (log : List Entry) (e : Execution) : Prop :=
  ∀ t action, (t, action) ∈ e.run.log → ∀ job, claimedJob e.run.log = some job →
    Confirmed log e.worker job action

/-- The answer that is waiting for the run is recorded. -/
structure Heard (log : List Entry) (e : Execution) : Prop where
  complete : ∀ id workerId attempt,
    e.run.phase.statement e.worker = some (.complete id workerId attempt) →
      e.call = .answered (.lease (.ok ())) →
        Recorded log id (.complete id workerId attempt) .completed
  fail : ∀ id workerId attempt message delay disposition,
    e.run.phase.statement e.worker = some (.fail id workerId attempt message delay) →
      e.call = .answered (.fail (.ok disposition)) →
        Recorded log id (.fail id workerId attempt message delay) disposition.status

variable {lease : Duration} {W W' : World} {e e' : Execution} {i : Nat} {s : Statement}
  {job : ClaimedJob} {db db' : Db} {id : Uuid} {log log' : List Entry}

/-! ## The log only grows

Everything below is said of entries of the log, and so it is kept by every event. -/

/-- What is recorded stays recorded. -/
theorem Recorded.mono {status : Status} (h : Recorded log id s status) (hsub : log ⊆ log') :
    Recorded log' id s status := by
  obtain ⟨entry, hentry, hrest⟩ := h
  exact ⟨entry, hsub hentry, hrest⟩

/-- What was confirmed stays confirmed. -/
theorem Confirmed.mono {w : JobWorker} {action : Action} (h : Confirmed log w job action)
    (hsub : log ⊆ log') : Confirmed log' w job action := by
  cases action with
  | completeAnswered answer =>
    cases answer with
    | ok u => exact Recorded.mono h hsub
    | error error => trivial
  | failAnswered answer =>
    cases answer with
    | ok disposition =>
      obtain ⟨message, delay, hrecorded⟩ := h
      exact ⟨message, delay, hrecorded.mono hsub⟩
    | error error => trivial
  | _ => trivial

theorem Told.mono (h : Told log e) (hsub : log ⊆ log') : Told log' e :=
  fun t action hmem job hjob => (h t action hmem job hjob).mono hsub

theorem Heard.mono (h : Heard log e) (hsub : log ⊆ log') : Heard log' e where
  complete id workerId attempt hs hcall := (h.complete id workerId attempt hs hcall).mono hsub
  fail id workerId attempt message delay disposition hs hcall :=
    (h.fail id workerId attempt message delay disposition hs hcall).mono hsub

/-- A statement adds an entry, or none. -/
theorem log_subset_apply (db : Db) (q : Request) : db.log ⊆ (db.apply q).log := by
  rcases Db.apply_cases db q with hsame | ⟨rows, _, hlog⟩
  · rw [hsame]
    exact List.Subset.refl _
  · rw [hlog]
    exact List.subset_cons_self _ _

/-- An event adds an entry, or none. -/
theorem Effect.log_subset (h : Effect lease W W') : W.db.log ⊆ W'.db.log := by
  rcases h.applied with hdb | ⟨s, skip, _, hdb⟩
  · rw [hdb]
    exact List.Subset.refl _
  · rw [hdb]
    exact log_subset_apply _ _

/-! ## An answer comes from the statement

`complete` and `fail` answer with something else than an error only if their statement affected the
row, so the answer and the entry of the log come together. -/

section Answers

variable {skip : List Uuid} {now : Instant} {workerId message : String} {attempt : Nat}
  {delay : Duration}

/-- A fenced statement that went through is in the log with the rows it has changed. -/
theorem apply_fenced (db : Db) (skip : List Uuid) (now : Instant) (workerId : String)
    (attempt : Nat) (c : Fenced) (jobId : Uuid) :
    ∃ rows, (c.statement jobId workerId attempt).exec skip now db.table =
        .ok ((db.apply ⟨now, c.statement jobId workerId attempt, skip⟩).table, rows) ∧
      ⟨now, c.statement jobId workerId attempt, rows⟩ ∈
        (db.apply ⟨now, c.statement jobId workerId attempt, skip⟩).log ∧
      ∀ row ∈ rows, row.id = jobId ∧ ∃ r, row = c.set now r := by
  obtain ⟨T', hexec⟩ := fenced_succeeds db.table skip now c jobId workerId attempt
  have happly : db.apply ⟨now, c.statement jobId workerId attempt, skip⟩ =
      ⟨⟨now, c.statement jobId workerId attempt,
        (db.table.rows.filter (JobRow.ownedBy jobId workerId attempt)).map (c.set now)⟩ :: db.log,
        T'⟩ := by
    simp [Db.apply, hexec]
  rw [happly]
  refine ⟨_, hexec, List.mem_cons_self, fun row hrow => ?_⟩
  obtain ⟨r, hr, rfl⟩ := List.mem_map.mp hrow
  exact ⟨(c.set_id r).trans (JobRow.ownedBy_iff.mp (List.mem_filter.mp hr).2).1, r, rfl⟩

/-- A `complete` that answers `Ok` has completed the job. -/
theorem recorded_of_complete
    (h : PostgresJobQueue.answer PostgresJobQueue.readLease
      ((Statement.complete id workerId attempt).exec skip now db.table) = .ok ()) :
    Recorded (db.apply ⟨now, .complete id workerId attempt, skip⟩).log id
      (.complete id workerId attempt) .completed := by
  obtain ⟨rows, hexec, hmem, hrows⟩ := apply_fenced db skip now workerId attempt .complete id
  have hexec' : (Statement.complete id workerId attempt).exec skip now db.table = .ok (_, rows) :=
    hexec
  rw [hexec'] at h
  refine ⟨_, hmem, rfl, ?_⟩
  -- exactly one row was affected
  cases rows with
  | nil => cases h
  | cons row rows =>
    obtain ⟨hid, r, rfl⟩ := hrows row List.mem_cons_self
    refine ⟨Fenced.complete.set now r, ?_, rfl⟩
    rw [Entry.rowOf, Keyed.get_cons, if_pos hid]

/-- A `fail` that answers with a disposition has left the job in it. -/
theorem recorded_of_fail {disposition : JobDisposition}
    (h : PostgresJobQueue.answer PostgresJobQueue.readFail
      ((Statement.fail id workerId attempt message delay).exec skip now db.table) =
        .ok disposition) :
    Recorded (db.apply ⟨now, .fail id workerId attempt message delay, skip⟩).log id
      (.fail id workerId attempt message delay) disposition.status := by
  obtain ⟨rows, hexec, hmem, hrows⟩ := apply_fenced db skip now workerId attempt
    (.fail message delay) id
  have hexec' : (Statement.fail id workerId attempt message delay).exec skip now db.table =
      .ok (_, rows) := hexec
  rw [hexec'] at h
  refine ⟨_, hmem, rfl, ?_⟩
  cases rows with
  | nil => cases h
  | cons row rows =>
    obtain ⟨hid, _⟩ := hrows row List.mem_cons_self
    refine ⟨row, ?_, ?_⟩
    · rw [Entry.rowOf, Keyed.get_cons, if_pos hid]
    · have hread : PostgresJobQueue.readFail (row :: rows) = .ok disposition := h
      simp only [PostgresJobQueue.readFail] at hread
      split at hread <;> cases hread <;> assumption

end Answers

/-- The answer to the statement a run waits for is recorded when it is given. -/
theorem heard_executed {skip : List Uuid} {now : Instant} (hsound : CallSound e)
    (hcall : e.call = .sent s) :
    Heard (db.apply ⟨now, s, skip⟩).log
      { e with call := e.afterStatement s (s.exec skip now db.table) } := by
  rw [CallSound, hcall] at hsound
  have hstatement : ∀ t, e.run.phase.statement e.worker = some t →
      (∀ l, t ≠ .reap l) → s = t := by
    intro t ht hreap
    rcases hsound with hs | ⟨hphase, _⟩
    · exact Option.some.inj (hs.symm.trans ht)
    · rw [hphase] at ht
      exact absurd (Option.some.inj ht).symm (hreap _)
  constructor
  · intro id workerId attempt hs hanswer
    obtain rfl := hstatement _ hs fun l h => by cases h
    exact recorded_of_complete (Reply.lease.inj (Call.answered.inj hanswer))
  · intro id workerId attempt message delay disposition hs hanswer
    obtain rfl := hstatement _ hs fun l h => by cases h
    exact recorded_of_fail (Reply.fail.inj (Call.answered.inj hanswer))

/-! ## One turn of a run

Between the answer and the run there is one poll. What the run then logs is what the call had
answered. -/

/-- A poll waits for the answer it is about to hear, or sends another statement. -/
theorem heard_polled {run' : RunOnce} {p : Poll} {action : Option Action}
    (h : Polled lease W.now e run' p action) (hheard : Heard log e) :
    Heard log (e.resume run') := by
  -- an answer that still waits is the answer to the same statement
  have hold : ∀ t reply, run'.phase.statement e.worker = some t →
      (e.resume run').call = .answered reply →
        e.run.phase.statement e.worker = some t ∧ e.call = .answered reply := by
    intro t reply ht hcall
    rcases resume_call e run' with ⟨t', hsent, _⟩ | ⟨hidle, _⟩ | ⟨hkept, hsame⟩
    · cases hcall.symm.trans hsent
    · cases hcall.symm.trans hidle
    · rw [ht] at hsame
      obtain ⟨t', ht'⟩ := Option.isSome_iff_exists.mp hsame.symm
      rcases move_statement h.move ht' with hnone | ⟨hsame', _⟩
      · cases ht.symm.trans hnone
      · exact ⟨ht'.trans (hsame'.symm.trans ht), hkept.symm.trans hcall⟩
  constructor
  · intro id workerId attempt hs hcall
    rw [resume_run, resume_worker] at hs
    obtain ⟨hs', hcall'⟩ := hold _ _ hs hcall
    exact hheard.complete id workerId attempt hs' hcall'
  · intro id workerId attempt message delay disposition hs hcall
    rw [resume_run, resume_worker] at hs
    obtain ⟨hs', hcall'⟩ := hold _ _ hs hcall
    exact hheard.fail id workerId attempt message delay disposition hs' hcall'

/-- A run is told what was waiting for it. -/
theorem told_polled {run' : RunOnce} {arrived renewalTimer deadlineTimer : Bool}
    {handler : Option HandlerResult} (hrun : Running lease W.now e)
    (hpoll : e.worker.poll e.run (e.pollAt W.now arrived renewalTimer deadlineTimer handler) =
      some run') (hheard : Heard log e) (htold : Told log e) : Told log (e.resume run') := by
  obtain ⟨action, _, hpolled⟩ := polled_of_poll hrun hpoll
  intro t a hmem job hjob
  rw [resume_run] at hmem hjob
  rw [resume_worker]
  have hsuspended := hrun.suspended
  have hmove := hpolled.move
  rw [hpolled.log] at hmem
  -- the answer is the one this poll was told, or it was told before
  rcases List.mem_append.mp hmem with hnew | hold
  · obtain ⟨rfl, rfl⟩ : action = some a ∧ W.now = t := by
      cases action with
      | none => cases hnew
      | some a' =>
        obtain ⟨rfl, rfl⟩ := Prod.mk.inj (List.mem_singleton.mp hnew)
        exact ⟨rfl, rfl⟩
    generalize hphase : e.run.phase = phase at hmove hsuspended
    generalize run'.phase = phase' at hmove
    have hquiet : a.isHandlerPoll = true → Confirmed log e.worker job a := by
      intro hkind
      cases a <;> trivial
    cases hmove with
    | completeAnswered job' deadline answer hanswer =>
      cases answer with
      | error error => trivial
      | ok u =>
        have hsame : claimedJob e.run.log = some job := by
          rw [← hpolled.claimedJob_eq nofun]
          exact hjob
        cases hsame.symm.trans hsuspended.1
        refine hheard.complete _ _ _ ?_ (leaseAnswer_eq_some (of_ite_some hanswer))
        rw [hphase]
        rfl
    | failAnswered job' message delay deadline answer hanswer =>
      cases answer with
      | error error => trivial
      | ok disposition =>
        have hsame : claimedJob e.run.log = some job := by
          rw [← hpolled.claimedJob_eq nofun]
          exact hjob
        cases hsame.symm.trans hsuspended.1
        refine ⟨message, delay, hheard.fail _ _ _ _ _ _ ?_ ?_⟩
        · rw [hphase]
          rfl
        · have hcall := of_ite_some hanswer
          unfold Call.failAnswer at hcall
          split at hcall <;> cases hcall
          assumption
    | handled _ _ _ _ result hpoll' => exact hquiet (isHandlerPoll_of_pollHandler hpoll')
    | handlerPending _ _ _ _ hpoll' => exact hquiet (isHandlerPoll_of_pollHandler hpoll')
    | handlerTimedOut _ _ _ _ hpoll' _ => exact hquiet (isHandlerPoll_of_pollHandler hpoll')
    | renewPendingHandled _ _ _ _ result _ hpoll' =>
      exact hquiet (isHandlerPoll_of_pollHandler hpoll')
    | _ => trivial
  · -- the job of an older answer was claimed before it
    refine htold t a hold job ?_
    by_cases hclaimed : ∃ job', action = some (.claimed job')
    · obtain ⟨job', rfl⟩ := hclaimed
      rw [hpolled.of_claimed.2.1] at hold
      cases hold
    · rw [← hpolled.claimedJob_eq fun job' ha => hclaimed ⟨job', ha⟩]
      exact hjob

/-! ## Every world -/

/-- What every run was told, or is about to be, is recorded. -/
def AllTold (W : World) : Prop :=
  ∀ e ∈ W.executions, Told W.db.log e ∧ Heard W.db.log e

/-- **The step lemma.** -/
theorem told_step (h : Effect lease W W') (hrunning : ∀ e ∈ W.executions, Running lease W.now e)
    (htold : AllTold W) : AllTold W' := by
  have hsub := h.log_subset
  intro e' he'
  rcases h.turned e' he' with ⟨e, he, hturn⟩ | ⟨worker, rfl⟩
  · have hrun := hrunning e he
    obtain ⟨htold₀, hheard₀⟩ := htold e he
    cases hturn with
    | same => exact ⟨(htold e' he).1.mono hsub, (htold e' he).2.mono hsub⟩
    | executed s skip hcall hdb =>
      rw [hdb] at hsub ⊢
      exact ⟨htold₀.mono hsub, heard_executed hrun.call hcall⟩
    | disconnected reply hfailed =>
      refine ⟨htold₀.mono hsub, ?_, ?_⟩
      · intro id workerId attempt _ hcall
        cases Call.answered.inj hcall
        cases hfailed
      · intro id workerId attempt message delay disposition _ hcall
        cases Call.answered.inj hcall
        cases hfailed
    | polled run' arrived renewalTimer deadlineTimer handler hpoll =>
      obtain ⟨_, _, hpolled⟩ := polled_of_poll hrun hpoll
      exact ⟨(told_polled hrun hpoll hheard₀ htold₀).mono hsub,
        (heard_polled hpolled hheard₀).mono hsub⟩
  · refine ⟨fun t action hmem => ?_, ?_, ?_⟩
    · cases hmem
    · intro id workerId attempt hs
      cases hs
    · intro id workerId attempt message delay disposition hs
      cases hs

/-- **The run lemma.** -/
theorem reachable_told (h : (world lease).Reachable W) (hd : DistinctIds W.db.log) :
    AllTold W := by
  revert hd
  refine Machine.Reachable.invariant (P := fun W => DistinctIds W.db.log → AllTold W) ?_ ?_ h
  · intro _ e he
    cases he
  · intro W event W' hreach ih hstep hd
    have hhappens := step_happens hstep
    have hd₀ := distinctIds_of_happens hhappens hd
    exact told_step (happens_effect hhappens) (reachable_inv hreach hd₀).running (ih hd₀)

/-! ## A job that is over stays over

An entry that reported a row as completed or dead is the last one that can have changed it: nothing
but a purge touches such a row, and a job id is not used again. -/

/-- A job whose row was reported was inserted. -/
theorem inserted_of_reported (h : queue.Reachable db) (hd : DistinctIds db.log) {entry : Entry}
    (hentry : entry ∈ db.log) {row : JobRow} (hrow : entry.rowOf id = some row) :
    ∃ new ∈ insertedJobs db.log, new.id = id := by
  obtain ⟨item, hlife, htracks⟩ := reachable_tracks h hd id
  cases item with
  | none =>
    have hevent : entry.statement.event entry.now row ∈ eventsOf id db.log :=
      List.mem_filterMap.mpr ⟨entry, hentry, by simp [Entry.event, hrow]⟩
    rw [hlife.nil_of_none] at hevent
    cases hevent
  | some it =>
    have hsubmit := (hlife.submitted it.cargo it.budget).mpr ⟨rfl, rfl⟩
    exact ⟨it.cargo, mem_insertedJobs_of_submit hsubmit, htracks.cargo_id⟩

/-- **A row that was once reported as over is still that row, or was purged.** -/
theorem reported_terminal_stays (h : queue.Reachable db) (hd : DistinctIds db.log) {entry : Entry}
    (hentry : entry ∈ db.log) {row : JobRow} (hrow : entry.rowOf id = some row)
    (hterm : row.Terminal) : db.table.find id = some row ∨ db.table.find id = none := by
  revert hd hentry
  refine Machine.Reachable.invariant (P := fun db => DistinctIds db.log → entry ∈ db.log →
    db.table.find id = some row ∨ db.table.find id = none) ?_ ?_ h
  · intro _ hentry
    cases hentry
  · intro db q db' hreach ih hstep hd hentry
    rcases step_cases hstep with rfl | ⟨rows, hexec, hlog⟩
    · exact ih hd hentry
    · rw [hlog] at hd hentry
      rcases exec_change hexec id with ⟨row', hrow', hch⟩ | ⟨hnone, hsame⟩
      · rcases List.mem_cons.mp hentry with rfl | hold
        · -- the statement that reports the row leaves it so, or deletes it
          cases hrow'.symm.trans hrow
          cases hafter : db'.table.find id with
          | none => exact Or.inr rfl
          | some r =>
            rw [hafter] at hch
            exact Or.inl (congrArg some hch.reports_after.symm)
        · rcases ih hd.tail hold with hthere | hgone
          · rw [hthere] at hch
            obtain ⟨_, _, _, _, hafter, _⟩ := hch.of_terminal hterm
            exact Or.inr hafter
          · -- only an insert finds no row, and the id has been used
            obtain ⟨new, hnew, hid⟩ := inserted_of_reported hreach hd.tail hold hrow
            have hrowid : row'.id = id := Keyed.key_of_get hrow'
            rw [hgone] at hch
            generalize hs : q.statement = s at hch
            generalize db'.table.find id = after at hch
            cases hch with
            | insert job began maxAttempts hvalid =>
              rw [hs] at hd
              have hjob : job.id ∈ insertedIds db.log :=
                List.mem_map.mpr ⟨new, hnew, hid.trans hrowid.symm⟩
              exact absurd hjob (List.nodup_cons.mp hd).1
      · rw [hsame]
        rcases List.mem_cons.mp hentry with rfl | hold
        · cases hnone.symm.trans hrow
        · exact ih hd.tail hold

/-- The statement is no purge. -/
def Statement.Keeps (s : Statement) : Prop :=
  ∀ completedOlderThan deadOlderThan, s ≠ .purge completedOlderThan deadOlderThan

/-- Nothing but a purge reports a job again that was reported as over. -/
theorem Change.not_over_again {now : Instant} {before after : Option JobRow} {r row : JobRow}
    (h : Change now s before row after) (hbefore : before = some r ∧ r.Terminal ∨ before = none)
    (hkeeps : s.Keeps) (hterm : row.Terminal) : False := by
  rcases hbefore with ⟨rfl, hr⟩ | rfl
  · obtain ⟨completedOlderThan, deadOlderThan, hpurge, _⟩ := h.of_terminal hr
    exact hkeeps _ _ hpurge
  · cases h with
    | insert job began maxAttempts hvalid => rcases hterm with h | h <;> cases h

/-- **A job is reported as over once.** -/
theorem terminal_report_unique (h : queue.Reachable db) (hd : DistinctIds db.log)
    {entry entry' : Entry} {row row' : JobRow} (hentry : entry ∈ db.log) (hentry' : entry' ∈ db.log)
    (hrow : entry.rowOf id = some row) (hrow' : entry'.rowOf id = some row')
    (hterm : row.Terminal) (hterm' : row'.Terminal) (hkeeps : entry.statement.Keeps)
    (hkeeps' : entry'.statement.Keeps) : entry = entry' := by
  revert hd hentry hentry'
  refine Machine.Reachable.invariant (P := fun db => DistinctIds db.log → entry ∈ db.log →
    entry' ∈ db.log → entry = entry') ?_ ?_ h
  · intro _ hentry
    cases hentry
  · intro db q db' hreach ih hstep hd hentry hentry'
    rcases step_cases hstep with rfl | ⟨rows, hexec, hlog⟩
    · exact ih hd hentry hentry'
    · rw [hlog] at hd hentry hentry'
      -- the newer one of two reports would find the job over already
      have hnewer : ∀ {old : Entry} {oldRow newRow : JobRow}, old ∈ db.log →
          old.rowOf id = some oldRow → oldRow.Terminal → q.statement.Keeps →
          Entry.rowOf ⟨q.now, q.statement, rows⟩ id = some newRow → ¬ newRow.Terminal := by
        intro old oldRow newRow hold holdRow holdTerm hk hnew hnewTerm
        rcases exec_change hexec id with ⟨row'', hrow'', hch⟩ | ⟨hnone, _⟩
        · cases hrow''.symm.trans hnew
          refine hch.not_over_again (r := oldRow) ?_ hk hnewTerm
          rcases reported_terminal_stays hreach hd.tail hold holdRow holdTerm with hr | hr
          · exact Or.inl ⟨hr, holdTerm⟩
          · exact Or.inr hr
        · cases hnone.symm.trans hnew
      rcases List.mem_cons.mp hentry with rfl | hold
      · rcases List.mem_cons.mp hentry' with rfl | hold'
        · rfl
        · exact absurd hterm (hnewer hold' hrow' hterm' hkeeps hrow)
      · rcases List.mem_cons.mp hentry' with rfl | hold'
        · exact absurd hterm' (hnewer hold hrow hterm hkeeps' hrow')
        · exact ih hd.tail hold hold'

/-! ## The theorem

A run that was told its job is over finds the row in the state it was told, or purged after its
retention; two runs cannot be told so of one job, because the entries would be the same. -/

/-- The job is over in this attempt, and its row says so until it is purged. -/
def OverAs (db : Db) (job : ClaimedJob) (status : Status) : Prop :=
  (∃ r, db.table.find job.id = some r ∧ r.status = status ∧ r.attempts = job.attempts) ∨
    (db.table.find job.id = none ∧ PurgedAfterRetention job.id db.log)

/-- The run was told that its job is over. -/
def Execution.ToldOver (e : Execution) : Prop :=
  ∃ t, (t, .completeAnswered (.ok ())) ∈ e.run.log ∨
    (t, .failAnswered (.ok .deadLettered)) ∈ e.run.log

/-- A recorded terminal write of an attempt: its entry, with the row it left. -/
structure Closed (db : Db) (w : JobWorker) (job : ClaimedJob) (status : Status) (entry : Entry)
    (row : JobRow) : Prop where
  mem : entry ∈ db.log
  closes : entry.statement.Closes job.id w.config.workerId job.attempts
  rowOf : entry.rowOf job.id = some row
  status_eq : row.status = status

/-- A statement that closes an attempt leaves a row. -/
theorem Statement.Closes.keeps {workerId : String} {attempt : Nat}
    (h : s.Closes id workerId attempt) : s.Keeps := by
  rcases h with rfl | ⟨error, retryDelay, rfl⟩ <;> exact nofun

/-- The row a terminal write reports counts the attempt it closes. -/
theorem Change.closes_attempts {now : Instant} {before after : Option JobRow} {row : JobRow}
    {workerId : String} {attempt : Nat} (h : Change now s before row after)
    (hcloses : s.Closes id workerId attempt) : row.attempts = attempt := by
  rcases hcloses with rfl | ⟨error, retryDelay, rfl⟩
  · cases h with
    | complete _ _ _ r howned => exact (JobRow.ownedBy_iff.mp howned).2.2.2
  · cases h with
    | fail _ _ _ _ _ r howned => exact (JobRow.ownedBy_iff.mp howned).2.2.2

/-- A row that was closed as completed or dead stays so until it is purged. -/
theorem Closed.overAs {w : JobWorker} {status : Status} {entry : Entry} {row : JobRow}
    (h : Closed db w job status entry row) (hqueue : queue.Reachable db)
    (hd : DistinctIds db.log) (hterm : status = .completed ∨ status = .dead) :
    OverAs db job status := by
  have hover : row.Terminal := by
    rw [JobRow.Terminal, h.status_eq]
    exact hterm
  rcases reported_terminal_stays hqueue hd h.mem h.rowOf hover with hr | hr
  · obtain ⟨_, _, hch⟩ := reachable_reported hqueue h.mem h.rowOf
    exact Or.inl ⟨row, hr, h.status_eq, hch.closes_attempts h.closes⟩
  · obtain ⟨new, hnew, hid⟩ := inserted_of_reported hqueue hd h.mem h.rowOf
    refine Or.inr ⟨hr, ?_⟩
    rw [← hid] at hr ⊢
    exact purged_of_find_none hqueue hd hnew hr

/-- What a run was told about its terminal write has its entry. -/
theorem AllTold.closed (h : AllTold W) (he : e ∈ W.executions)
    (hjob : claimedJob e.run.log = some job) :
    (∀ t, (t, .completeAnswered (.ok ())) ∈ e.run.log →
      ∃ entry row, Closed W.db e.worker job .completed entry row) ∧
    (∀ t disposition, (t, .failAnswered (.ok disposition)) ∈ e.run.log →
      ∃ entry row, Closed W.db e.worker job disposition.status entry row) := by
  obtain ⟨htold, _⟩ := h e he
  constructor
  · intro t hmem
    obtain ⟨entry, hentry, hs, row, hrow, hstatus⟩ := htold t _ hmem job hjob
    exact ⟨entry, row, hentry, Or.inl hs, hrow, hstatus⟩
  · intro t disposition hmem
    obtain ⟨message, delay, entry, hentry, hs, row, hrow, hstatus⟩ := htold t _ hmem job hjob
    exact ⟨entry, row, hentry, Or.inr ⟨message, delay, hs⟩, hrow, hstatus⟩

/-- Being told that a job is over has its entry too. -/
theorem AllTold.over (h : AllTold W) (he : e ∈ W.executions)
    (hjob : claimedJob e.run.log = some job) (hover : e.ToldOver) :
    ∃ entry row status, Closed W.db e.worker job status entry row ∧ row.Terminal := by
  obtain ⟨hcomplete, hfail⟩ := h.closed he hjob
  obtain ⟨t, hmem | hmem⟩ := hover
  · obtain ⟨entry, row, hclosed⟩ := hcomplete t hmem
    exact ⟨entry, row, _, hclosed, Or.inl hclosed.status_eq⟩
  · obtain ⟨entry, row, hclosed⟩ := hfail t _ hmem
    exact ⟨entry, row, _, hclosed, Or.inr hclosed.status_eq⟩

/-- **Acknowledged outcomes are durable, and given once.** In every interleaving of any number of
runs with distinct job ids: once `complete` or `fail` has told a run that its job is completed or
dead-lettered, the row says so, for the attempt of that run, until a purge removes it after its
retention; and of all the runs of one job at most one is ever told that it is over. -/
theorem acknowledged_outcomes_durable (h : (world lease).Reachable W)
    (hd : DistinctIds W.db.log) :
    (∀ e ∈ W.executions, ∀ job, claimedJob e.run.log = some job →
      (∀ t, (t, .completeAnswered (.ok ())) ∈ e.run.log → OverAs W.db job .completed) ∧
      (∀ t, (t, .failAnswered (.ok .deadLettered)) ∈ e.run.log → OverAs W.db job .dead)) ∧
    (∀ (i j : Nat) (e f : Execution) (job job' : ClaimedJob),
      W.executions[i]? = some e → W.executions[j]? = some f →
      claimedJob e.run.log = some job → claimedJob f.run.log = some job' → job.id = job'.id →
      e.ToldOver → f.ToldOver → i = j) := by
  have hqueue := world_queue h
  have hinv := reachable_inv h hd
  have htold := reachable_told h hd
  refine ⟨?_, ?_⟩
  · intro e he job hjob
    obtain ⟨hcomplete, hfail⟩ := htold.closed he hjob
    refine ⟨fun t hmem => ?_, fun t hmem => ?_⟩
    · obtain ⟨entry, row, hclosed⟩ := hcomplete t hmem
      exact hclosed.overAs hqueue hd (Or.inl rfl)
    · obtain ⟨entry, row, hclosed⟩ := hfail t _ hmem
      exact hclosed.overAs hqueue hd (Or.inr rfl)
  · intro i j e f job job' hi hj hejob hfjob hid heover hfover
    have he := List.mem_of_getElem? hi
    have hf := List.mem_of_getElem? hj
    obtain ⟨entry, row, _, hclosed, hterm⟩ := htold.over he hejob heover
    obtain ⟨entry', row', _, hclosed', hterm'⟩ := htold.over hf hfjob hfover
    -- both were told by the same statement, so both hold the same attempt
    have hrow' : entry'.rowOf job.id = some row' := by
      rw [hid]
      exact hclosed'.rowOf
    have hsame := terminal_report_unique hqueue hd hclosed.mem hclosed'.mem hclosed.rowOf hrow'
      hterm hterm' hclosed.closes.keeps hclosed'.closes.keeps
    subst hsame
    cases hclosed.rowOf.symm.trans hrow'
    obtain ⟨_, _, hch⟩ := reachable_reported hqueue hclosed.mem hclosed.rowOf
    have hattempts := (hch.closes_attempts hclosed.closes).symm.trans
      (hch.closes_attempts hclosed'.closes)
    exact hinv.distinct i j e f job job' hi hj ((hinv.running e he).job_of_claimed hejob)
      ((hinv.running f hf).job_of_claimed hfjob) hid (Int.natCast_inj.mp hattempts)

/-- The run of `deliveredWorld`. -/
def deliveredFirst : Execution :=
  deliveredWorld.executions[0]?.get (by decide)

theorem acknowledged_outcomes_durable_delivered :
    OverAs deliveredWorld.db ((claimedJob deliveredFirst.run.log).get (by decide)) .completed :=
  ((acknowledged_outcomes_durable deliveredWorld_reachable deliveredWorld_distinctIds).1
    deliveredFirst (List.mem_of_getElem? (Option.some_get _).symm) _ (Option.some_get _).symm).1
    0 List.mem_cons_self

end BaseSkeleton.Job
