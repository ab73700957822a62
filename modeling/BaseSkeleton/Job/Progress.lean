import BaseSkeleton.Lib.Amortised
import BaseSkeleton.Job.ClaimFrame

/-!
# The queue makes progress

Two bounds on how long a job can be around, whatever else the queue is asked to do meanwhile.

* `JobRow.potential` — the claims and closings a row has left. Nothing but an insert adds to the
  sum over the table (`exec_potential_le`), and a claim cycle that finds something to do takes
  from it (`cycle_lowers`), also if no worker ever reports back: `backlog_drains`.
* `JobRow.ahead` — the rows the claim statement prefers to a waiting one. Released rows queue up
  behind it, so that only an insert adds to their number: `no_starvation`.
-/

namespace BaseSkeleton.Job

variable {T T' : JobTable} {rows : List JobRow} {skip : List Uuid} {now now' : Instant}
  {s : Statement} {db db' : Db} {r : JobRow} {id : Uuid} {lease : Duration}

/-! ## What a statement does to the rows of the table

Every statement rewrites each row by itself, or adds one, or removes some. So a sum over the rows is
bounded by what becomes of each row. -/

/-- The rows of the table before and after a statement, in order. -/
inductive Rewrites (now : Instant) (s : Statement) (rows : List JobRow) : List JobRow → Prop where
  | insert (job : NewJob) (began : Instant) (maxAttempts : Int) (hs : s = .insert job began) :
      Rewrites now s rows (rows ++ [job.row maxAttempts began])
  | update (sel : JobRow → Bool) (set : JobRow → JobRow)
      (hchange : ∀ r ∈ rows, sel r = true → Change now s (some r) (set r) (some (set r))) :
      Rewrites now s rows (rows.map fun r => if sel r then set r else r)
  | delete (keep : JobRow → Bool) : Rewrites now s rows (rows.filter keep)

theorem exec_rewrites (h : s.exec skip now T = .ok (T', rows)) :
    Rewrites now s T.rows T'.rows := by
  have hupdate : ∀ {sel : JobRow → Bool} {set : JobRow → JobRow},
      T.update sel set = .ok (T', rows) →
      (∀ r ∈ T.rows, sel r = true → Change now s (some r) (set r) (some (set r))) →
      Rewrites now s T.rows T'.rows := by
    intro sel set hup hchange
    rw [(JobTable.update_eq_ok.mp hup).1]
    exact .update sel set hchange
  -- Every UPDATE is a selection and what it sets; the statements differ in these only.
  cases s with
  | insert job began =>
    simp only [Statement.exec] at h
    split at h
    · cases h
    · next maxAttempts _ =>
      rw [(JobTable.insert_eq_ok.mp h).1]
      exact .insert job began maxAttempts rfl
  | reap lease =>
    refine hupdate h fun r hr hsel => ?_
    exact .reap lease r (T.leaseExpired_of_mem_expired hr (by simpa using hsel))
  | claim workerId =>
    refine hupdate h fun r hr hsel => ?_
    exact .claim workerId r (T.claimable_of_candidate hr (by simpa using hsel))
  | complete jobId workerId attempt =>
    exact hupdate h fun r _ hsel => .complete jobId workerId attempt r hsel
  | renew jobId workerId attempt =>
    exact hupdate h fun r _ hsel => .renew jobId workerId attempt r hsel
  | fail jobId workerId attempt error retryDelay =>
    exact hupdate h fun r _ hsel => .fail jobId workerId attempt error retryDelay r hsel
  | purge completedOlderThan deadOlderThan =>
    simp only [Statement.exec, Except.ok.injEq] at h
    obtain rfl := congrArg Prod.fst h
    exact .delete _

/-- The sum of the weights of the rows. -/
def JobTable.weight (f : JobRow → Nat) (T : JobTable) : Nat :=
  (T.rows.map f).sum

/-- A weight that no change of a row raises grows by inserts only. -/
theorem exec_weight_le {f : JobRow → Nat} (credit : Nat) (h : s.exec skip now T = .ok (T', rows))
    (hchange : ∀ r ∈ T.rows, ∀ r', Change now s (some r) r' (some r') → f r' ≤ f r)
    (hinsert : ∀ job began maxAttempts, s = .insert job began →
      f (job.row maxAttempts began) ≤ credit) :
    T'.weight f ≤ T.weight f + credit := by
  have hrows := exec_rewrites h
  unfold JobTable.weight
  generalize T'.rows = rows' at hrows
  cases hrows with
  | insert job began maxAttempts hs =>
    have hcredit := hinsert job began maxAttempts hs
    simpa using hcredit
  | update sel set hset =>
    refine Nat.le_add_right_of_le (Weighted.sum_map_le fun r hr => ?_)
    split
    · next hsel => exact hchange r hr _ (hset r hr hsel)
    · exact Nat.le_refl _
  | delete keep => exact Nat.le_add_right_of_le (Weighted.sum_filter_le keep)

/-- If besides a row that was affected gets lighter, so does the table. -/
theorem update_weight_lt {f : JobRow → Nat} {sel : JobRow → Bool} {set : JobRow → JobRow}
    (h : T.update sel set = .ok (T', rows)) (hle : ∀ r ∈ T.rows, sel r = true → f (set r) ≤ f r)
    (hr : r ∈ T.rows) (hsel : sel r = true) (hlt : f (set r) < f r) :
    T'.weight f < T.weight f := by
  unfold JobTable.weight
  rw [(JobTable.update_eq_ok.mp h).1]
  refine Weighted.sum_map_lt (fun r hr => ?_) hr ?_
  · split
    · next hsel => exact hle r hr hsel
    · exact Nat.le_refl _
  · rw [if_pos hsel]
    exact hlt

/-! ## The backlog drains

Each attempt that is left counts for two, its claim and its closing, and the closing of a running
row is still to come. The sum falls with every cycle that finds something to do, and is zero once
every job is over. -/

/-- The claims and closings a row has left. -/
def JobRow.potential (r : JobRow) : Nat :=
  match r.status with
  | .pending => 2 * (r.maxAttempts - r.attempts).toNat
  | .running => 2 * (r.maxAttempts - r.attempts).toNat + 1
  | _ => 0

theorem JobRow.potential_claimed (workerId : String) (h : r.claimable now = true) :
    (r.claimed now workerId).potential < r.potential := by
  obtain ⟨hpending, _, hbudget⟩ := JobRow.claimable_iff.mp h
  simp only [JobRow.potential, JobRow.claimed, hpending]
  omega

/-- Whatever releases a running row closes its attempt. -/
theorem potential_released (r' : JobRow) (hrun : r.status = .running)
    (hstatus : r'.status = r.releasedStatus) (hattempts : r'.attempts = r.attempts)
    (hmax : r'.maxAttempts = r.maxAttempts) : r'.potential < r.potential := by
  rw [JobRow.releasedStatus] at hstatus
  by_cases hbudget : r.attempts ≥ r.maxAttempts
  · rw [if_pos hbudget] at hstatus
    simp [JobRow.potential, hstatus, hrun]
  · rw [if_neg hbudget] at hstatus
    simp [JobRow.potential, hstatus, hrun, hattempts, hmax]

/-- No change of a row raises its potential. -/
theorem Change.potential_le {r' : JobRow} (h : Change now s (some r) r' (some r')) :
    r'.potential ≤ r.potential := by
  generalize hbefore : some r = before at h
  generalize hafter : some r' = after at h
  cases h with
  | insert job began maxAttempts hvalid => cases hbefore
  | reap lease r₀ hexpired =>
    cases hbefore
    cases hafter
    exact (potential_released (r.reaped now) (JobRow.leaseExpired_iff.mp hexpired).1 rfl rfl rfl).le
  | claim workerId r₀ hclaimable =>
    cases hbefore
    cases hafter
    exact (JobRow.potential_claimed workerId hclaimable).le
  | complete jobId workerId attempt r₀ howned =>
    cases hafter
    exact Nat.zero_le _
  | renew jobId workerId attempt r₀ howned =>
    cases hbefore
    cases hafter
    exact Nat.le_refl _
  | fail jobId workerId attempt error retryDelay r₀ howned =>
    cases hbefore
    cases hafter
    exact (potential_released (r.failed now error retryDelay)
      (JobRow.ownedBy_iff.mp howned).2.1 rfl rfl rfl).le
  | purge completedOlderThan deadOlderThan _ hpurgeable => cases hafter

/-- Nothing but an insert raises the potential of the table. -/
theorem apply_potential_le (db : Db) (q : Request)
    (hinsert : ∀ job began, q.statement ≠ .insert job began) :
    (db.apply q).table.weight JobRow.potential ≤ db.table.weight JobRow.potential := by
  rcases Db.apply_cases db q with hsame | ⟨rows, hexec, _⟩
  · rw [hsame]
  · exact exec_weight_le 0 hexec (fun r _ r' hch => hch.potential_le)
      fun job began _ hs => absurd hs (hinsert job began)

/-- A reap that finds an expired lease takes from the potential. -/
theorem reap_lowers (hr : r ∈ db.table.rows) (hexpired : r.leaseExpired now lease = true) :
    (db.apply ⟨now, .reap lease, []⟩).table.weight JobRow.potential <
      db.table.weight JobRow.potential := by
  obtain ⟨T₁, rows, hexec, hreaps⟩ := reap_reaps db.table now lease
  have happly : (db.apply ⟨now, .reap lease, []⟩).table = T₁ := by
    simp [Db.apply, hexec]
  -- the batch holds at least one row
  have hpos : 0 < (db.table.expired [] now lease).length := by
    rw [hreaps.count]
    have := List.length_pos_of_mem (List.mem_filter.mpr ⟨hr, hexpired⟩)
    omega
  obtain ⟨r₁, hr₁⟩ := List.exists_mem_of_length_pos hpos
  obtain ⟨hmem₁, hexpired₁⟩ := hreaps.expired r₁ hr₁
  rw [happly]
  refine update_weight_lt (r := r₁) hexec ?_ hmem₁ (decide_eq_true (List.mem_map_of_mem hr₁)) ?_
  · intro r hr hsel
    have hch := Change.reap lease r
      (db.table.leaseExpired_of_mem_expired hr (of_decide_eq_true hsel))
    exact hch.potential_le
  · exact potential_released _ (JobRow.leaseExpired_iff.mp hexpired₁).1 rfl rfl rfl

/-- A claim that finds a due row takes from the potential. -/
theorem claim_lowers (workerId : String) (hr : r ∈ db.table.rows) (hdue : r.claimable now = true) :
    (db.apply ⟨now, .claim workerId, []⟩).table.weight JobRow.potential <
      db.table.weight JobRow.potential := by
  obtain ⟨T₂, rows, found, hexec, _, houtcome⟩ := claim_outcome db.table now workerId
  have happly : (db.apply ⟨now, .claim workerId, []⟩).table = T₂ := by
    simp [Db.apply, hexec]
  rw [happly]
  cases houtcome with
  | idle hidle hsame =>
    rw [hidle r hr] at hdue
    cases hdue
  | claimed r₁ job hr₁ hdue₁ hfirst hjob hafter hframe =>
    refine update_weight_lt hexec ?_ hr₁ ?_ (JobRow.potential_claimed workerId hdue₁)
    · intro r hr hsel
      exact (JobRow.potential_claimed workerId
        (db.table.claimable_of_candidate hr (of_decide_eq_true hsel))).le
    · -- a row that was not selected would still be pending
      by_contra hsel
      rw [JobTable.find_update (fun r => JobRow.claimed_id now r workerId) hexec,
        JobTable.find_of_mem hr₁, Option.map_some, if_neg hsel] at hafter
      have hstatus := congrArg JobRow.status (Option.some.inj hafter)
      rw [(JobRow.claimable_iff.mp hdue₁).1] at hstatus
      cases hstatus

/-- A claim cycle of a worker: the two statements of `claim`, with no statement beside them. -/
def Db.cycle (lease : Duration) (workerId : String) (now now' : Instant) (db : Db) : Db :=
  (db.apply ⟨now, .reap lease, []⟩).apply ⟨now', .claim workerId, []⟩

/-- What goes on at the queue: statements one by one, in any order, and whole claim cycles. -/
inductive Work where
  | statement (q : Request)
  | cycle (workerId : String) (now now' : Instant)

/-- The queue under work, from an empty table. -/
def workload (lease : Duration) : Machine Db Work where
  init := queue.init
  step db
    | .statement q => some (db.apply q)
    | .cycle workerId now now' => some (db.cycle lease workerId now now')

theorem reachable_apply (h : queue.Reachable db) (q : Request) : queue.Reachable (db.apply q) :=
  h.next rfl

theorem workload_queue (h : (workload lease).Reachable db) : queue.Reachable db := by
  refine Machine.Reachable.invariant (M := workload lease) (P := queue.Reachable)
    Machine.reachable_init ?_ h
  intro db work db' _ hdb hstep
  cases work with
  | statement q =>
    cases hstep
    exact reachable_apply hdb q
  | cycle workerId now now' =>
    cases hstep
    exact reachable_apply (reachable_apply hdb _) _

/-- Every row of the table is over. -/
def AllOver (T : JobTable) : Prop :=
  ∀ r ∈ T.rows, r.Terminal

/-- There is something for a claim cycle to do: a lease that has run out, or a job that is due. -/
def Overdue (lease : Duration) (now now' : Instant) (T : JobTable) : Prop :=
  ∃ r ∈ T.rows, r.leaseExpired now lease = true ∨ r.status = .pending ∧ r.availableAt ≤ now'

/-- Nothing is enqueued, and a claim cycle is made when there is something to do, if anything is
left at all. -/
def Work.Drains (lease : Duration) (db : Db) : Work → Prop
  | .statement q => ∀ job began, q.statement ≠ .insert job began
  | .cycle _ now now' => ¬ AllOver db.table → Overdue lease now now' db.table

/-- How many claim cycles were made. -/
def Work.cycles : Work → Nat
  | .statement _ => 0
  | .cycle _ _ _ => 1

theorem potential_eq_zero_iff (h : queue.Reachable db) :
    db.table.weight JobRow.potential = 0 ↔ AllOver db.table := by
  constructor
  · intro hzero r hr
    have hrow := Weighted.eq_zero_of_sum hzero hr
    have hsound := reachable_sound h r hr
    rcases hsound.status_valid with hstatus | hstatus | hstatus | hstatus
    · have hbudget := hsound.pending hstatus
      simp only [JobRow.potential, hstatus] at hrow
      omega
    · simp [JobRow.potential, hstatus] at hrow
    · exact Or.inl hstatus
    · exact Or.inr hstatus
  · intro hover
    refine List.sum_eq_zero_iff.mpr fun n hn => ?_
    obtain ⟨r, hr, rfl⟩ := List.mem_map.mp hn
    rcases hover r hr with hstatus | hstatus <;> simp [JobRow.potential, hstatus]

theorem cycle_potential_le (workerId : String) (db : Db) :
    (db.cycle lease workerId now now').table.weight JobRow.potential ≤
      db.table.weight JobRow.potential :=
  (apply_potential_le _ ⟨now', .claim workerId, []⟩ nofun).trans
    (apply_potential_le db ⟨now, .reap lease, []⟩ nofun)

/-- A claim cycle that finds something to do takes from the potential. -/
theorem cycle_lowers (workerId : String) (h : queue.Reachable db)
    (hwork : Overdue lease now now' db.table) :
    (db.cycle lease workerId now now').table.weight JobRow.potential <
      db.table.weight JobRow.potential := by
  obtain ⟨r, hr, hexpired | ⟨hpending, hdue⟩⟩ := hwork
  · exact (apply_potential_le _ ⟨now', .claim workerId, []⟩ nofun).trans_lt
      (reap_lowers hr hexpired)
  · -- the reap leaves the due row alone, and the claim finds it, or one before it
    refine lt_of_lt_of_le (claim_lowers workerId (r := r) ?_ ?_)
      (apply_potential_le db ⟨now, .reap lease, []⟩ nofun)
    · obtain ⟨T₁, rows, hexec, hreaps⟩ := reap_reaps db.table now lease
      have hnot : r.leaseExpired now lease = false := by simp [JobRow.leaseExpired, hpending]
      have happly : (db.apply ⟨now, .reap lease, []⟩).table = T₁ := by
        simp [Db.apply, hexec]
      rw [happly]
      exact (JobTable.find_eq_some.mp (hreaps.find_of_not_expired hr hnot)).1
    · exact JobRow.claimable_iff.mpr ⟨hpending, hdue, ((reachable_sound h r hr).pending hpending).2⟩

/-- **The backlog drains.** From any reachable state, however its workers behave, also if none of
them ever reports back: once as many claim cycles as the potential of the table have found
something to do, every job is over. -/
theorem backlog_drains {inputs : List Work} (h : (workload lease).Reachable db)
    (hrun : (workload lease).runFrom db inputs = some db')
    (hdrains : (workload lease).Along (Work.Drains lease) db inputs)
    (henough : db.table.weight JobRow.potential ≤ (inputs.map Work.cycles).sum) :
    AllOver db'.table := by
  have hle : ∀ db work db', Work.Drains lease db work → (workload lease).step db work = some db' →
      db'.table.weight JobRow.potential ≤ db.table.weight JobRow.potential := by
    intro db work db' hok hstep
    cases work with
    | statement q =>
      cases hstep
      exact apply_potential_le db q hok
    | cycle workerId now now' =>
      cases hstep
      exact cycle_potential_le workerId db
  have hpays : ∀ db work db', (workload lease).Reachable db → True → Work.Drains lease db work →
      (workload lease).step db work = some db' →
      db.table.weight JobRow.potential = 0 ∨ True ∧
        work.cycles + db'.table.weight JobRow.potential ≤
          db.table.weight JobRow.potential + (fun _ _ => 0) db work := by
    intro db work db' hreach _ hok hstep
    by_cases hzero : db.table.weight JobRow.potential = 0
    · exact Or.inl hzero
    · refine Or.inr ⟨trivial, ?_⟩
      cases work with
      | statement q => simpa [Work.cycles] using hle db _ db' hok hstep
      | cycle workerId now now' =>
        have hqueue := workload_queue hreach
        have hwork := hok fun hover => hzero ((potential_eq_zero_iff hqueue).mpr hover)
        cases hstep
        have hlt := cycle_lowers workerId hqueue hwork
        simp only [Work.cycles]
        omega
  rw [← potential_eq_zero_iff (workload_queue (h.runFrom hrun))]
  rcases h.amortised hpays trivial hdrains hrun with
    ⟨newer, work, older, mid, rfl, hmid, _, hzero⟩ | ⟨_, hpaid⟩
  · -- there was nothing left already, and nothing was added since
    have hsplit : newer ++ work :: older = (newer ++ [work]) ++ older := by simp
    rw [hsplit] at hrun hdrains
    obtain ⟨mid', hmid', hrest⟩ := Machine.runFrom_append.mp hrun
    cases hmid.symm.trans hmid'
    have hend := (h.runFrom hmid).rank_le _ (fun s i t _ hi ht => hle s i t hi ht)
      ((Machine.along_append.mp hdrains).2 mid hmid) hrest
    exact Nat.eq_zero_of_le_zero (hend.trans_eq hzero)
  · rw [Machine.spent_eq_sum hrun, Machine.spent_zero] at hpaid
    omega

/-- One job of two attempts, and workers that claim and are not heard of again. -/
def abandonedWork : List Work :=
  [.cycle "worker" 400 400, .cycle "worker" 300 300, .cycle "worker" 200 200,
    .cycle "worker" 100 100]

def enqueuedDb : Db :=
  ((workload 30).run [.statement ⟨10, .insert ⟨7, "user.created", .null, .null, 2⟩ 10, []⟩]).get rfl

theorem backlog_drains_abandoned :
    AllOver (((workload 30).runFrom enqueuedDb abandonedWork).get rfl).table := by
  refine backlog_drains (Machine.reachable_get rfl) (Option.some_get _).symm ?_ (by decide)
  refine ⟨⟨⟨⟨trivial, ?_⟩, ?_⟩, ?_⟩, ?_⟩
  all_goals
    rintro db ⟨⟩ hleft
    first
      | exact absurd (by unfold AllOver JobRow.Terminal; decide) hleft
      | unfold Overdue; decide

/-! ## No job starves

The weight of a waiting row is the number of rows that are ahead of it in the order of the claim
statement. A claim lowers it by one or takes the row itself. -/

/-- The row is pending and comes before `r` in the order of the claim statement. -/
def JobRow.ahead (r s : JobRow) : Bool :=
  s.id ≠ r.id ∧ s.status = .pending ∧ claimOrder s r

/-- One for a row that is ahead. -/
def JobRow.overtakes (r s : JobRow) : Nat :=
  if r.ahead s then 1 else 0

theorem JobRow.ahead_iff {t : JobRow} :
    r.ahead t = true ↔ t.id ≠ r.id ∧ t.status = .pending ∧ claimOrder t r := by
  simp [JobRow.ahead]

/-- After the row became due, no change of another row puts that row ahead of it. -/
theorem Change.overtakes_le {t t' : JobRow} (h : Change now s (some t) t' (some t'))
    (hlate : r.availableAt < now) : r.overtakes t' ≤ r.overtakes t := by
  have hnot : t'.status ≠ .pending ∨ r.availableAt < t'.availableAt →
      r.overtakes t' ≤ r.overtakes t := by
    intro hbehind
    have hfalse : r.ahead t' = false := by
      rw [Bool.eq_false_iff, ne_eq, JobRow.ahead_iff]
      rintro ⟨_, hpending, horder⟩
      rcases hbehind with hstatus | hlater
      · exact hstatus hpending
      · unfold claimOrder at horder
        lia
    simp [JobRow.overtakes, hfalse]
  apply hnot
  generalize hbefore : some t = before at h
  generalize hafter : some t' = after at h
  cases h with
  | insert job began maxAttempts hvalid => cases hbefore
  | reap lease t₀ hexpired =>
    cases hafter
    exact Or.inr hlate
  | claim workerId t₀ hclaimable =>
    cases hafter
    exact Or.inl (by simp [JobRow.claimed])
  | complete jobId workerId attempt t₀ howned =>
    cases hafter
    exact Or.inl (by simp [JobRow.completed])
  | renew jobId workerId attempt t₀ howned =>
    cases hafter
    refine Or.inl ?_
    show t₀.status ≠ .pending
    rw [(JobRow.ownedBy_iff.mp howned).2.1]
    decide
  | fail jobId workerId attempt error retryDelay t₀ howned =>
    cases hafter
    -- without budget it is dead, with budget it waits for the delay from now on
    by_cases hbudget : t₀.attempts ≥ t₀.maxAttempts
    · exact Or.inl (by simp [JobRow.failed, JobRow.releasedStatus, hbudget])
    · refine Or.inr ?_
      show r.availableAt < if t₀.attempts ≥ t₀.maxAttempts then t₀.availableAt else now + retryDelay
      rw [if_neg hbudget]
      exact Nat.lt_add_right _ hlate
  | purge completedOlderThan deadOlderThan _ hpurgeable => cases hafter

/-- An insert that may come ahead: its transaction began no later than the row became due. -/
def Request.joinsAhead (r : JobRow) (q : Request) : Nat :=
  match q.statement with
  | .insert _ began => if began ≤ r.availableAt then 1 else 0
  | _ => 0

/-- One for a claim statement. -/
def Request.claims (q : Request) : Nat :=
  match q.statement with
  | .claim _ => 1
  | _ => 0

/-- The request claims the row `r` of job `id`. -/
def Request.Takes (id : Uuid) (r : JobRow) (db : Db) (q : Request) : Prop :=
  ∃ workerId, q.statement = .claim workerId ∧
    (db.apply q).table.find id = some (r.claimed q.now workerId)

/-- A statement after the row became due that does not pass over it. -/
def Request.Sees (id : Uuid) (r : JobRow) (q : Request) : Prop :=
  r.availableAt < q.now ∧ ∀ workerId, q.statement = .claim workerId → id ∉ q.skip

/-- The candidate of a claim statement that does not pass over a due row. -/
theorem candidate_of_due (hr : r ∈ T.rows) (hdue : r.claimable now = true) (hseen : r.id ∉ skip) :
    ∃ c ∈ T.rows, T.candidate skip now = some c ∧ c.claimable now = true ∧ claimOrder c r := by
  have hmem : r ∈ T.rows.filter fun r => r.claimable now && !decide (r.id ∈ skip) :=
    List.mem_filter.mpr ⟨hr, by simp [hdue, hseen]⟩
  cases hcandidate : T.candidate skip now with
  | none =>
    exfalso
    unfold JobTable.candidate at hcandidate
    rw [List.head?_eq_none_iff] at hcandidate
    have hsorted := (List.mem_insertionSort claimOrder).mpr hmem
    rw [hcandidate] at hsorted
    cases hsorted
  | some c =>
    have hc := List.mem_filter.mp (List.mem_of_head?_insertionSort hcandidate)
    have hclaimable := hc.2
    rw [Bool.and_eq_true] at hclaimable
    exact ⟨c, hc.1, rfl, hclaimable.1, List.rel_of_head?_insertionSort hcandidate hmem⟩

/-- **The step lemma.** As long as the row waits, a claim takes it, or another row that is
ahead. -/
theorem waiting_step (h : queue.Reachable db) (hr : db.table.find id = some r)
    (hpending : r.status = .pending) (q : Request) (hsees : q.Sees id r) :
    q.Takes id r db ∨ (db.apply q).table.find id = some r ∧
      q.claims + (db.apply q).table.weight r.overtakes ≤
        db.table.weight r.overtakes + q.joinsAhead r := by
  obtain ⟨hmem, rfl⟩ := JobTable.find_eq_some.mp hr
  obtain ⟨hlate, hseen⟩ := hsees
  obtain ⟨now, s, skip⟩ := q
  -- a claim takes the row or one that is ahead of it; nothing else takes anything
  by_cases hclaim : ∃ workerId, s = .claim workerId
  · obtain ⟨workerId, rfl⟩ := hclaim
    have hdue : r.claimable now = true :=
      JobRow.claimable_iff.mpr ⟨hpending, Nat.le_of_lt hlate, ((reachable_sound h r hmem).pending
        hpending).2⟩
    obtain ⟨c, hc, hcandidate, hcdue, horder⟩ := candidate_of_due hmem hdue (hseen workerId rfl)
    obtain ⟨T', rows, hexec⟩ := claim_succeeds db.table skip now workerId
    have happly : (db.apply ⟨now, .claim workerId, skip⟩).table = T' := by
      simp [Db.apply, hexec]
    have hfind := JobTable.find_update (fun r => JobRow.claimed_id now r workerId) hexec r.id
    rw [hr, Option.map_some, hcandidate, Option.map_some] at hfind
    by_cases hsame : c.id = r.id
    · left
      refine ⟨workerId, rfl, ?_⟩
      rw [happly, hfind, if_pos (decide_eq_true (congrArg some hsame))]
    · right
      have hahead : r.ahead c = true :=
        JobRow.ahead_iff.mpr ⟨hsame, (JobRow.claimable_iff.mp hcdue).1, horder⟩
      -- the claimed row is running, so it is no longer ahead
      have hbehind : r.ahead (c.claimed now workerId) = false := by
        simp [JobRow.ahead, JobRow.claimed]
      have hlt : T'.weight r.overtakes < db.table.weight r.overtakes := by
        refine update_weight_lt hexec ?_ hc (by rw [hcandidate]; exact decide_eq_true rfl) ?_
        · intro t ht hsel
          have hch := Change.claim workerId t
            (db.table.claimable_of_candidate ht (of_decide_eq_true hsel))
          exact hch.overtakes_le hlate
        · simp [JobRow.overtakes, hahead, hbehind]
      rw [happly]
      refine ⟨?_, ?_⟩
      · rw [hfind, if_neg]
        intro hsel
        exact hsame (Option.some.inj (of_decide_eq_true hsel))
      · simp only [Request.claims, Request.joinsAhead]
        omega
  · right
    have hclaims : Request.claims ⟨now, s, skip⟩ = 0 := by
      unfold Request.claims
      split
      · exact absurd ⟨_, ‹_›⟩ hclaim
      · rfl
    rw [hclaims, Nat.zero_add]
    rcases Db.apply_cases db ⟨now, s, skip⟩ with hsame | ⟨rows, hexec, _⟩
    · rw [hsame]
      exact ⟨hr, Nat.le_add_right _ _⟩
    · refine ⟨?_, exec_weight_le _ hexec (fun t _ t' hch => hch.overtakes_le hlate) ?_⟩
      · -- only a claim touches a pending row
        rcases exec_change hexec r.id with ⟨row, _, hch⟩ | ⟨_, hsame⟩
        · rw [hr] at hch
          obtain ⟨workerId, hs, _⟩ := hch.of_pending hpending
          exact absurd ⟨workerId, hs⟩ hclaim
        · rw [hsame, hr]
      · -- an inserted row is ahead only if its transaction began before the row became available
        rintro job began maxAttempts rfl
        unfold JobRow.overtakes Request.joinsAhead
        split
        · next hahead =>
          have horder := (JobRow.ahead_iff.mp hahead).2.2
          have hbegan : began ≤ r.availableAt := by
            rcases horder with hbefore | ⟨hsame, _⟩
            · exact Nat.le_of_lt hbefore
            · exact Nat.le_of_eq hsame
          simp [hbegan]
        · exact Nat.zero_le _

/-- **No job starves.** Take a job that is pending, and any continuation of the run after the
instant it is available from, in which no claim statement finds its row locked. Once more claim
statements were executed than there were rows ahead of it, and jobs enqueued by transactions that
had begun before it became available, one of them has claimed it. -/
theorem no_starvation {inputs : List Request} (h : queue.Reachable db)
    (hr : db.table.find id = some r) (hpending : r.status = .pending)
    (hrun : queue.runFrom db inputs = some db') (hsees : ∀ q ∈ inputs, q.Sees id r)
    (hmany : db.table.rows.countP r.ahead + (inputs.map (Request.joinsAhead r)).sum <
      (inputs.map Request.claims).sum) :
    ∃ newer q older mid, inputs = newer ++ q :: older ∧ queue.runFrom db older = some mid ∧
      mid.table.find id = some r ∧ q.Takes id r mid := by
  have hrank : db.table.weight r.overtakes = db.table.rows.countP r.ahead := by
    unfold JobTable.weight JobRow.overtakes
    induction db.table.rows with
    | nil => rfl
    | cons t rows ih => simp [ih, List.countP_cons, Nat.add_comm]
  have hstep : ∀ db q db', queue.Reachable db → db.table.find id = some r → q.Sees id r →
      queue.step db q = some db' → q.Takes id r db ∨ db'.table.find id = some r ∧
        q.claims + db'.table.weight r.overtakes ≤
          db.table.weight r.overtakes + q.joinsAhead r := by
    intro db q db' hreach hwaits hsees hstep
    obtain rfl : db.apply q = db' := Option.some.inj hstep
    exact waiting_step hreach hwaits hpending q hsees
  rcases h.amortised hstep hr (Machine.along_of_forall hsees) hrun with
    ⟨newer, q, older, mid, hinputs, hmid, hwaits, htakes⟩ | ⟨_, hpaid⟩
  · exact ⟨newer, q, older, mid, hinputs, hmid, hwaits, htakes⟩
  · rw [Machine.spent_eq_sum hrun, Machine.spent_eq_sum hrun] at hpaid
    omega

/-- Two jobs, and two claims after both became available. -/
def contendedDb : Db :=
  (queue.run [⟨12, .insert ⟨8, "user.created", .null, .null, 2⟩ 12, []⟩,
    ⟨10, .insert ⟨7, "user.created", .null, .null, 2⟩ 10, []⟩]).get rfl

theorem no_starvation_contended :
    let r := (contendedDb.table.find 8).get rfl
    ∃ newer q older mid, [⟨21, .claim "b", []⟩, ⟨20, .claim "a", []⟩] = newer ++ q :: older ∧
      queue.runFrom contendedDb older = some mid ∧ mid.table.find 8 = some r ∧
        q.Takes 8 r mid := by
  intro r
  refine no_starvation (Machine.reachable_get rfl) (Option.some_get _).symm rfl rfl ?_ (by decide)
  intro q hq
  rcases List.mem_cons.mp hq with rfl | hq
  · exact ⟨by decide, fun _ _ => by simp⟩
  · obtain rfl := List.mem_singleton.mp hq
    exact ⟨by decide, fun _ _ => by simp⟩

end BaseSkeleton.Job
