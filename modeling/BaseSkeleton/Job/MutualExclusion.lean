import BaseSkeleton.Job.LeasePolls

/-!
# Lease mutual exclusion

* `inv_step`, `reachable_inv` — every world keeps the invariant: the step lemma and the run lemma.
* `lease_mutual_exclusion` — the guarantee.

A run whose own `fail` has taken effect has given the job up, and its deadline may still lie ahead
when the job is claimed again (`released_lease_overlaps`).
-/

namespace BaseSkeleton.Job

variable {lease : Duration} {now : Instant} {e e' : Execution} {W : World} {i : Nat}
  {s : Statement}

/-! ## Every world

The invariant of `LeaseInvariant` holds in every world whose jobs have distinct ids. -/

theorem inv_init : Inv lease (world lease).init := by
  have hnone : ∀ e, e ∉ (world lease).init.executions := fun _ => List.not_mem_nil
  refine ⟨?_, ?_, ?_, ?_, ?_, ?_, ?_⟩
  · exact fun e he => absurd he (hnone e)
  · intro s hs
    cases hs
  · exact fun e he => absurd he (hnone e)
  · intro entry hentry
    cases hentry
  · exact fun e he => absurd he (hnone e)
  · intro i j e f job job' hi
    cases hi
  · exact fun e he => absurd he (hnone e)

/-- **The step lemma.** -/
theorem inv_step {W' : World} (hinv : Inv lease W) (hqueue : queue.Reachable W.db)
    (h : Happens lease W W') (hd : DistinctIds W'.db.log) : Inv lease W' := by
  cases h with
  | tick elapsed => exact inv_tick hinv elapsed
  | start worker hlease => exact inv_start hinv hlease
  | outside s skip hs =>
    refine inv_apply hinv hqueue skip ?_ hd
    rcases hs with ⟨job, began, rfl⟩ | ⟨completedOlderThan, deadOlderThan, rfl⟩
    · trivial
    · trivial
  | execute i skip e s he hcall => exact inv_execute hinv hqueue he hcall skip hd
  | executeOrphan i skip s hs =>
    have happly := inv_apply hinv hqueue skip (hinv.orphans s (List.mem_of_getElem? hs)) hd
    exact { happly with
      orphans := fun t ht => happly.orphans t (List.mem_of_mem_eraseIdx ht) }
  | disconnectSent i e s he hcall =>
    have hanswered := inv_answered hinv he hcall (.error .refused) (s :: W.orphans)
      (fun t ht => (List.mem_cons.mp ht).symm) nofun nofun
    have hreply : e.afterStatement s (.error .refused) =
        .answered (s.reply (.error .refused)) := by
      cases s <;> rfl
    rw [hreply] at hanswered
    exact hanswered
  | disconnectAnswered i e reply he hcall => exact inv_disconnected hinv he hcall
  | poll i e run' arrived renewalTimer deadlineTimer handler he hpoll =>
    exact inv_poll hinv he hpoll

/-- The log of the database only grows, so ids that are distinct at the end always were. -/
theorem distinctIds_of_happens {W' : World} (h : Happens lease W W')
    (hd : DistinctIds W'.db.log) : DistinctIds W.db.log := by
  have happly : ∀ q, DistinctIds (W.db.apply q).log → DistinctIds W.db.log := by
    intro q hq
    rcases Db.apply_cases W.db q with hsame | ⟨rows, _, hlog⟩
    · rwa [hsame] at hq
    · exact (hlog ▸ hq).tail
  cases h with
  | outside s skip hs => exact happly _ hd
  | execute i skip e s he hcall => exact happly _ hd
  | executeOrphan i skip s hs => exact happly _ hd
  | _ => exact hd

/-- **The run lemma.** -/
theorem reachable_inv (h : (world lease).Reachable W) (hd : DistinctIds W.db.log) :
    Inv lease W := by
  revert hd
  refine Machine.Reachable.invariant (P := fun W => DistinctIds W.db.log → Inv lease W) ?_ ?_ h
  · exact fun _ => inv_init
  · intro W event W' hreach ih hstep hd
    have hhappens := step_happens hstep
    exact inv_step (ih (distinctIds_of_happens hhappens hd)) (world_queue hreach) hhappens hd

/-! ## The theorem

Two executions that both own a job at one instant are one. The exception is an execution that has
given the job back. -/

/-- The statement closes this attempt of this job under this worker id. -/
def Statement.Closes (id : Uuid) (workerId : String) (attempt : Nat) (s : Statement) : Prop :=
  s = .complete id workerId attempt ∨
    ∃ error retryDelay, s = .fail id workerId attempt error retryDelay

/-- One attempt of a job belongs to one run. -/
theorem Inv.claimed_unique (hinv : Inv lease W) {id : Uuid} {workerId : String} {attempt j : Nat}
    {f : Execution} (hi : W.executions[i]? = some e) (hj : W.executions[j]? = some f)
    (he : e.Claimed id workerId attempt) (hf : f.Claimed id workerId attempt) : i = j := by
  obtain ⟨_, job, hjob, hid, hattempts⟩ := he
  obtain ⟨_, job', hjob', hid', hattempts'⟩ := hf
  exact hinv.distinct i j e f job job' hi hj
    ((hinv.running e (List.mem_of_getElem? hi)).job_of_claimed hjob)
    ((hinv.running f (List.mem_of_getElem? hj)).job_of_claimed hjob') (hid.trans hid'.symm)
    (hattempts.trans hattempts'.symm)

/-- Nobody closes the attempt of a run that has not written. -/
theorem Inv.not_closes_of_unwritten (hinv : Inv lease W) (he : e ∈ W.executions)
    {id : Uuid} {workerId : String} {attempt : Nat} (hclaimed : e.Claimed id workerId attempt)
    (hunwritten : ¬ e.Written) (hbacked : Backed lease W.executions s) :
    ¬ s.Closes id workerId attempt := by
  intro hcloses
  have howner : ∃ f ∈ W.executions, f.Claimed id workerId attempt ∧ f.Written := by
    rcases hcloses with hcomplete | ⟨error, retryDelay, hfail⟩
    · rw [hcomplete] at hbacked
      exact hbacked
    · rw [hfail] at hbacked
      exact hbacked
  obtain ⟨f, hf, hclaimed', hwritten⟩ := howner
  obtain ⟨i, hi⟩ := List.mem_iff_getElem?.mp he
  obtain ⟨j, hj⟩ := List.mem_iff_getElem?.mp hf
  have hij := hinv.claimed_unique hi hj hclaimed hclaimed'
  subst hij
  obtain rfl : e = f := Option.some.inj (hi.symm.trans hj)
  exact hunwritten hwritten

/-- Until its deadline the row is its own, if its attempt has not been closed. -/
theorem Inv.owned (hinv : Inv lease W) (he : e ∈ W.executions) {job : ClaimedJob}
    (hjob : claimedJob e.run.log = some job) (hdeadline : W.now < e.localDeadline lease)
    (hopen : ∀ entry ∈ W.db.log,
      ¬ entry.statement.Closes job.id e.worker.config.workerId job.attempts) :
    ∃ r, W.db.table.find job.id = some r ∧
      r.ownedBy job.id e.worker.config.workerId job.attempts = true := by
  obtain ⟨⟨_, hpassed | hstanding⟩, _⟩ :=
    hinv.held e he job ((hinv.running e he).job_of_claimed hjob)
  · exact absurd hdeadline (Nat.lt_asymm hpassed)
  · cases hstanding with
    | running r lockedAt hr hrun hby hattempts hat hlease =>
      exact ⟨r, hr, JobRow.ownedBy_iff.mpr ⟨JobTable.id_of_find hr, hrun, hby, hattempts⟩⟩
    | completed hsettled hlatest hcomplete =>
      obtain ⟨entry, hentry, hstatement⟩ := hcomplete
      exact absurd (Or.inl hstatement) (hopen entry hentry)
    | released hfail =>
      obtain ⟨entry, hentry, _, hstatement⟩ := hfail
      exact absurd (Or.inr hstatement) (hopen entry hentry)

/-- **Lease mutual exclusion.** In every reachable world with distinct job ids, no two runs that
have claimed the same job, whose own `fail` has not taken effect, have deadlines that have not
passed; and as long as a run has not sent its own `complete` or `fail` and its deadline has not
passed, the row is `running` under its worker id and attempt. -/
theorem lease_mutual_exclusion (h : (world lease).Reachable W) (hd : DistinctIds W.db.log) :
    (∀ (i j : Nat) (e f : Execution) (job job' : ClaimedJob),
      W.executions[i]? = some e → W.executions[j]? = some f →
      claimedJob e.run.log = some job → claimedJob f.run.log = some job' → job.id = job'.id →
      ¬ Released job.id e.worker.config.workerId job.attempts W.db.log →
      ¬ Released job'.id f.worker.config.workerId job'.attempts W.db.log →
      W.now < e.localDeadline lease → W.now < f.localDeadline lease → i = j) ∧
    (∀ e ∈ W.executions, ∀ job, claimedJob e.run.log = some job → ¬ e.Written →
      W.now < e.localDeadline lease →
        ∃ r, W.db.table.find job.id = some r ∧ r.status = .running ∧
          r.lockedBy = some e.worker.config.workerId ∧ r.attempts = job.attempts) := by
  have hinv := reachable_inv h hd
  have hstanding : ∀ e ∈ W.executions, ∀ job, claimedJob e.run.log = some job →
      W.now < e.localDeadline lease → Standing lease W.db job.id e.worker.config.workerId
        job.attempts (e.localDeadline lease) := by
    intro e he job hjob hdeadline
    obtain ⟨⟨_, hpassed | hstanding⟩, _⟩ :=
      hinv.held e he job ((hinv.running e he).job_of_claimed hjob)
    · exact absurd hdeadline (Nat.lt_asymm hpassed)
    · exact hstanding
  refine ⟨?_, ?_⟩
  · intro i j e f job job' hi hj hejob hfjob hid he_released hf_released hedeadline hfdeadline
    have he := List.mem_of_getElem? hi
    have hf := List.mem_of_getElem? hj
    -- both attempts are the latest one of the job
    have helatest := (hstanding e he job hejob hedeadline).latest (world_queue h) hd he_released
    have hflatest := (hstanding f hf job' hfjob hfdeadline).latest (world_queue h) hd hf_released
    rw [hid] at helatest
    exact hinv.distinct i j e f job job' hi hj ((hinv.running e he).job_of_claimed hejob)
      ((hinv.running f hf).job_of_claimed hfjob) hid (helatest.symm.trans hflatest)
  · intro e he job hjob hwritten hdeadline
    obtain ⟨r, hr, howned⟩ := hinv.owned he hjob hdeadline fun entry hentry =>
      hinv.not_closes_of_unwritten he ⟨rfl, job, hjob, rfl, rfl⟩ hwritten
        (hinv.executed entry hentry)
    obtain ⟨_, hrun, hby, hattempts⟩ := JobRow.ownedBy_iff.mp howned
    exact ⟨r, hr, hrun, hby, hattempts⟩

/-- A job that fails at once and is claimed again after its backoff, while the first run waits for
the reply to its `fail`. -/
def overlappingRun : List Event :=
  [.poll 1 true false false none, .execute 1 [], .execute 1 [], .start userWorker, .tick 5,
    .execute 0 [], .poll 0 false false false none,
    .poll 0 false false false (some (.error ⟨"boom"⟩)), .poll 0 false false false none,
    .poll 0 true false false none, .execute 0 [], .execute 0 [], .start userWorker,
    .outside (.insert ⟨7, "user.created", .null, .null, 3⟩ 0) []]

def overlappingWorld : World :=
  ((world 30).run overlappingRun).get (by decide)

theorem overlappingWorld_reachable : (world 30).Reachable overlappingWorld :=
  Machine.reachable_get (by decide)

theorem overlappingWorld_distinctIds : DistinctIds overlappingWorld.db.log := by
  unfold DistinctIds
  decide

/-- The run that waits for the reply to its `fail`. -/
def overlappingFirst : Execution :=
  overlappingWorld.executions[0]?.get (by decide)

/-- The run that has claimed the job again. -/
def overlappingSecond : Execution :=
  overlappingWorld.executions[1]?.get (by decide)

/-- Without the exception for runs whose `fail` has taken effect, two runs of one job can have
deadlines ahead of them. -/
theorem released_lease_overlaps :
    ¬ ∀ (lease : Duration) (W : World), (world lease).Reachable W → DistinctIds W.db.log →
      ∀ (i j : Nat) (e f : Execution) (job job' : ClaimedJob),
        W.executions[i]? = some e → W.executions[j]? = some f →
        claimedJob e.run.log = some job → claimedJob f.run.log = some job' → job.id = job'.id →
        W.now < e.localDeadline lease → W.now < f.localDeadline lease → i = j := by
  intro h
  have hsame : 0 = 1 := h 30 overlappingWorld overlappingWorld_reachable
    overlappingWorld_distinctIds 0 1 overlappingFirst overlappingSecond
    ((claimedJob overlappingFirst.run.log).get (by decide))
    ((claimedJob overlappingSecond.run.log).get (by decide))
    (Option.some_get _).symm (Option.some_get _).symm (Option.some_get _).symm
    (Option.some_get _).symm (by decide) (by decide) (by decide)
  omega

/-- It is the second run that has the row. -/
theorem lease_mutual_exclusion_overlapping :
    ∃ r, overlappingWorld.db.table.find 7 = some r ∧ r.status = .running ∧
      r.lockedBy = some "worker" ∧ r.attempts = 2 := by
  have hmem : overlappingSecond ∈ overlappingWorld.executions :=
    List.mem_of_getElem? (Option.some_get _).symm
  refine (lease_mutual_exclusion overlappingWorld_reachable overlappingWorld_distinctIds).2
    overlappingSecond hmem ((claimedJob overlappingSecond.run.log).get (by decide))
    (Option.some_get _).symm ?_ (by decide)
  unfold Execution.Written Happened
  decide

end BaseSkeleton.Job
