import BaseSkeleton.Lib.Sorted
import BaseSkeleton.Job.RowInvariant

/-!
# What a claim does to the table

`PostgresJobQueue::claim` with no statement beside it: the reap, and then the claim statement on
the table the reap leaves behind. The lease has to begin at a timestamp: PostgreSQL refuses the reap
otherwise, and `claim` sends nothing else.

* `reap_reaps` — the reap statement: which rows, what becomes of them, and nothing else.
* `claim_outcome` — the claim statement: the first row that is due, or none.
* `claim_selects_and_frames` — the two after each other.
-/

namespace BaseSkeleton.Job

/-! ## Orders

Both are total, so that the rows of a batch come before all that are left out of it. -/

instance : Std.Total reapOrder where
  total r s := by
    simp only [reapOrder, BitVec.le_def]
    lia

instance : IsTrans JobRow reapOrder where
  trans r s t hrs hst := by
    simp only [reapOrder, BitVec.le_def] at *
    lia

instance : Std.Total claimOrder where
  total r s := by
    unfold claimOrder
    lia

instance : IsTrans JobRow claimOrder where
  trans r s t hrs hst := by
    unfold claimOrder at *
    lia

/-! ## The call

`claim` is the two statements in order, each with its parameters checked. An error of the first is
the error of the call. -/

/-- `PostgresJobQueue::claim` with no concurrent statement; each of its statements has a `NOW()`
of its own. -/
def PostgresJobQueue.claim (early : Bool) (workerId : String) (leaseTimeout : Duration)
    (now now' : Instant) (T : JobTable) : Except JobQueueError (Option ClaimedJob) × JobTable :=
  match (Statement.reap leaseTimeout).execBound early [] now T with
  | .error _ => (.error .unavailable, T)
  | .ok (T₁, _) =>
    match (Statement.claim workerId).execBound early [] now' T₁ with
    | .error e => (answer readClaim (.error e), T₁)
    | .ok (T₂, rows) => (answer readClaim (.ok (T₂, rows)), T₂)

/-! ## The reap

`Reaps` says all of it: which rows the batch holds and in which order, what becomes of each, and
that every other row stays. -/

/-- The reap statement of a claim has reaped the rows of `batch`. -/
structure Reaps (now : Instant) (lease : Duration) (T T₁ : JobTable) (batch : List JobRow) :
    Prop where
  count : batch.length = min 1000 (T.rows.filter (JobRow.leaseExpired now lease)).length
  nodup : batch.Nodup
  expired : ∀ r ∈ batch, r ∈ T.rows ∧ r.leaseExpired now lease = true
  first : ∀ r ∈ batch, ∀ s ∈ T.rows, s.leaseExpired now lease = true → s ∉ batch → reapOrder r s
  released : ∀ r ∈ batch, T₁.find r.id = some (r.reaped now) ∧
    (r.reaped now).status = (if r.attempts < r.maxAttempts then .pending else .dead) ∧
    (r.reaped now).availableAt = now
  frame : ∀ id, (∀ r ∈ batch, r.id ≠ id) → T₁.find id = T.find id

variable {T T₁ T₂ : JobTable} {now now' : Instant} {lease : Duration} {workerId : String}
  {r : JobRow}

/-- A released row has attempts left, or is dead. -/
theorem releasedStatus_eq (r : JobRow) :
    r.releasedStatus = if r.attempts < r.maxAttempts then .pending else .dead := by
  unfold JobRow.releasedStatus
  by_cases hbudget : r.attempts < r.maxAttempts
  · rw [if_pos hbudget, if_neg (by omega)]
  · rw [if_neg hbudget, if_pos (by omega)]

/-- **The reap statement** succeeds on every table, and rewrites the first rows whose lease has
expired. -/
theorem reap_reaps (T : JobTable) (now : Instant) (lease : Duration) :
    ∃ T₁ rows, (Statement.reap lease).exec [] now T = .ok (T₁, rows) ∧
      Reaps now lease T T₁ (T.expired [] now lease) := by
  obtain ⟨T₁, rows, hexec⟩ := reap_succeeds T [] now lease
  refine ⟨T₁, rows, hexec, ?_⟩
  have hfind := JobTable.find_update (JobRow.reaped_id now) hexec
  -- Nothing is locked by others, so the batch is the first thousand of the expired rows.
  have hbatch : T.expired [] now lease =
      ((T.rows.filter (JobRow.leaseExpired now lease)).insertionSort reapOrder).take 1000 := by
    simp [JobTable.expired]
  have hexpired : ∀ r ∈ T.expired [] now lease, r ∈ T.rows ∧ r.leaseExpired now lease = true := by
    intro r hr
    rw [hbatch] at hr
    exact List.mem_filter.mp (List.mem_of_mem_take_insertionSort hr)
  constructor
  case count => rw [hbatch, List.length_take, List.length_insertionSort]
  case nodup =>
    rw [hbatch]
    refine List.Nodup.sublist (List.take_sublist _ _) ?_
    refine (List.perm_insertionSort _ _).nodup_iff.mpr (List.Nodup.filter _ ?_)
    exact List.Nodup.of_map _ T.keyed
  case expired => exact hexpired
  case first =>
    intro r hr s hs hold hleft
    rw [hbatch] at hr hleft
    exact List.rel_of_mem_take_insertionSort hr (List.mem_filter.mpr ⟨hs, hold⟩) hleft
  case released =>
    intro r hr
    refine ⟨?_, releasedStatus_eq r, rfl⟩
    rw [hfind, JobTable.find_of_mem (hexpired r hr).1, Option.map_some, if_pos]
    exact decide_eq_true (List.mem_map_of_mem hr)
  case frame =>
    intro id hother
    rw [hfind]
    cases hr : T.find id with
    | none => rfl
    | some r =>
      rw [Option.map_some, if_neg]
      intro hsel
      obtain ⟨s, hs, hid⟩ := List.mem_map.mp (of_decide_eq_true hsel)
      exact hother s hs (hid.trans (JobTable.id_of_find hr))

/-! ## The claim

Either a row is due and the first of them is handed out, or none is due and the table stays as it
is. -/

/-- What the claim statement makes of the table, and what `claim` returns. -/
inductive ClaimOutcome (now' : Instant) (workerId : String) (T₁ T₂ : JobTable) :
    Option ClaimedJob → Prop where
  | idle (hidle : ∀ r ∈ T₁.rows, r.claimable now' = false) (hsame : T₂ = T₁) :
      ClaimOutcome now' workerId T₁ T₂ none
  | claimed (r : JobRow) (job : ClaimedJob) (hr : r ∈ T₁.rows)
      (hclaimable : r.claimable now' = true)
      (hfirst : ∀ s ∈ T₁.rows, s.claimable now' = true → claimOrder r s)
      (hjob : (r.claimed now' workerId).intoApplication = .ok job)
      (hafter : T₂.find r.id = some (r.claimed now' workerId))
      (hframe : ∀ id, id ≠ r.id → T₂.find id = T₁.find id) :
      ClaimOutcome now' workerId T₁ T₂ (some job)

/-- **The claim statement** succeeds on every table, and its row can be read. -/
theorem claim_outcome (T₁ : JobTable) (now' : Instant) (workerId : String) :
    ∃ T₂ rows found, (Statement.claim workerId).exec [] now' T₁ = .ok (T₂, rows) ∧
      PostgresJobQueue.readClaim rows = .ok found ∧ ClaimOutcome now' workerId T₁ T₂ found := by
  have hsorted : T₁.candidate [] now' =
      ((T₁.rows.filter (JobRow.claimable now')).insertionSort claimOrder).head? := by
    simp [JobTable.candidate]
  cases hcandidate : T₁.candidate [] now' with
  | none =>
    refine ⟨T₁, [], none, ?_, rfl, .idle ?_ rfl⟩
    · exact JobTable.update_none fun r _ => by simp [hcandidate]
    · intro r hr
      rw [hsorted, List.head?_eq_none_iff] at hcandidate
      have hnone := List.length_insertionSort claimOrder (T₁.rows.filter (JobRow.claimable now'))
      rw [hcandidate, List.length_nil, eq_comm, List.length_eq_zero_iff,
        List.filter_eq_nil_iff] at hnone
      exact Bool.eq_false_iff.mpr (hnone r hr)
  | some r =>
    have hhead := hsorted.symm.trans hcandidate
    obtain ⟨hr, hclaimable⟩ := List.mem_filter.mp (List.mem_of_head?_insertionSort hhead)
    obtain ⟨T₂, rows, hexec⟩ := claim_succeeds T₁ [] now' workerId
    have hfind := JobTable.find_update (fun r => JobRow.claimed_id now' r workerId) hexec
    rw [hcandidate, Option.map_some] at hfind
    have hafter : T₂.find r.id = some (r.claimed now' workerId) := by
      rw [hfind, JobTable.find_of_mem hr, Option.map_some, if_pos (decide_eq_true rfl)]
    -- the statement returns the one row it has changed
    have hrows : rows = [r.claimed now' workerId] := by
      have hselected : ∀ s : JobRow, decide ((T₁.candidate [] now').map JobRow.id = some s.id) =
          true → s.id = r.id := by
        intro s hs
        rw [hcandidate] at hs
        exact (Option.some.inj (of_decide_eq_true hs)).symm
      rw [(JobTable.update_eq_ok.mp hexec).2, Keyed.filter_of_key T₁.keyed hselected]
      show (((T₁.find r.id).filter _).toList).map _ = _
      rw [JobTable.find_of_mem hr, Option.filter_some, if_pos]
      · rfl
      · rw [hcandidate]
        exact decide_eq_true rfl
    have hchecks : (r.claimed now' workerId).Checks := JobTable.checks_of_find hafter
    have hjob := intoApplication_ok hchecks
    refine ⟨T₂, rows, some _, hexec, ?_, .claimed r _ hr hclaimable ?_ hjob hafter ?_⟩
    · rw [hrows]
      show (r.claimed now' workerId).intoApplication.map some = _
      rw [hjob]
      rfl
    · intro s hs hdue
      exact List.rel_of_head?_insertionSort hhead (List.mem_filter.mpr ⟨hs, hdue⟩)
    · intro id hother
      rw [hfind]
      cases hs : T₁.find id with
      | none => rfl
      | some s =>
        rw [Option.map_some, if_neg]
        intro hsel
        exact hother ((JobTable.id_of_find hs).symm.trans (Option.some.inj
          (of_decide_eq_true hsel)).symm)

/-! ## The theorem

A row whose lease has not run out is seen by neither statement, and a row the reap has released with
attempts left is due at once: the second statement is not earlier than the first. -/

/-- A row whose lease has not run out stays as it is until the claim. -/
theorem Reaps.find_of_not_expired {batch : List JobRow} (h : Reaps now lease T T₁ batch)
    (hr : r ∈ T.rows) (hnot : r.leaseExpired now lease = false) : T₁.find r.id = some r := by
  rw [h.frame r.id, JobTable.find_of_mem hr]
  intro s hs hid
  obtain ⟨hmem, hold⟩ := h.expired s hs
  rw [T.eq_of_id_eq hmem hr hid, hnot] at hold
  cases hold

/-- `claim` returns a job if the reap has left one that is due. -/
theorem ClaimOutcome.isSome {found : Option ClaimedJob}
    (h : ClaimOutcome now' workerId T₁ T₂ found) (hr : T₁.find r.id = some r)
    (hdue : r.claimable now' = true) : found.isSome := by
  cases h with
  | idle hidle hsame =>
    rw [hidle r (JobTable.find_eq_some.mp hr).1] at hdue
    cases hdue
  | claimed => rfl

/-- The two statements of a claim are executed if the lease begins at a timestamp. -/
theorem claim_executed (early : Bool) (T : JobTable) (hworker : IsText workerId)
    (hlease : pastInRange now lease = true) :
    (Statement.reap lease).Accepted early [] now T ∧
      ∀ T₁, (Statement.claim workerId).Accepted early [] now' T₁ := by
  refine ⟨⟨List.forall_mem_nil _, fun _ => hlease, ?_⟩, fun T₁ => ⟨?_, fun _ => rfl, rfl⟩⟩
  · rw [Statement.overflows, hlease]
    rfl
  · exact List.forall_mem_singleton.mpr hworker

/-- **A claim selects and frames correctly.** Let the lease begin at a timestamp. Then the first
statement reaps the first 1000 rows whose lease has run out, the second claims the first row that is
due then, and nothing else happens. -/
theorem claim_selects_and_frames (early : Bool) (T : JobTable) (hworker : IsText workerId)
    (hlease : pastInRange now lease = true) (hnow : now ≤ now') :
    ∃ (T₁ T₂ : JobTable) (batch : List JobRow) (found : Option ClaimedJob),
      PostgresJobQueue.claim early workerId lease now now' T = (.ok found, T₂) ∧
      Reaps now lease T T₁ batch ∧ ClaimOutcome now' workerId T₁ T₂ found ∧
      ((∃ r ∈ T.rows, r.claimable now' = true) ∨ (∃ r ∈ batch, r.attempts < r.maxAttempts) →
        found.isSome) ∧
      ∀ r ∈ T.rows, r.status = .running → r.leaseExpired now lease = false →
        T₂.find r.id = some r := by
  obtain ⟨T₁, reaped, hreap, hreaps⟩ := reap_reaps T now lease
  obtain ⟨T₂, rows, found, hclaim, hread, houtcome⟩ := claim_outcome T₁ now' workerId
  refine ⟨T₁, T₂, T.expired [] now lease, found, ?_, hreaps, houtcome, ?_, ?_⟩
  · have hexecuted : (Statement.reap lease).Accepted early [] now T ∧
        ∀ T₁, (Statement.claim workerId).Accepted early [] now' T₁ :=
      claim_executed early T hworker hlease
    obtain ⟨hfirst, hsecond⟩ := hexecuted
    unfold PostgresJobQueue.claim
    simp only [hfirst.execBound, hreap, (hsecond T₁).execBound, hclaim]
    exact Prod.ext hread rfl
  · -- A row that was claimable before the reap is left alone by it, and a row the reap has released
    -- is claimable from then on.
    rintro (⟨r, hr, hdue⟩ | ⟨r, hr, hbudget⟩)
    · obtain ⟨hpending, _⟩ := JobRow.claimable_iff.mp hdue
      have hnot : r.leaseExpired now lease = false := by simp [JobRow.leaseExpired, hpending]
      exact houtcome.isSome (hreaps.find_of_not_expired hr hnot) hdue
    · obtain ⟨hfind, hstatus, havailable⟩ := hreaps.released r hr
      rw [if_pos hbudget] at hstatus
      have hdue : (r.reaped now).claimable now' = true :=
        JobRow.claimable_iff.mpr ⟨hstatus, by rw [havailable]; exact hnow, hbudget⟩
      exact houtcome.isSome (r := r.reaped now) hfind hdue
  · intro r hr hrun hnot
    have hkept := hreaps.find_of_not_expired hr hnot
    cases houtcome with
    | idle _ hsame => rw [hsame, hkept]
    | claimed s job hs hdue _ _ _ hframe =>
      rw [hframe r.id, hkept]
      -- The claimed row was pending.
      intro hid
      have hsame : s = r := T₁.eq_of_id_eq hs (JobTable.find_eq_some.mp hkept).1 hid.symm
      rw [hsame] at hdue
      have hpending := (JobRow.claimable_iff.mp hdue).1
      rw [hrun] at hpending
      cases hpending

/-! ## A table with every kind of row

The witness of the theorem. The reap moves the first two rows, and the claim takes one of the two
that are due at the same time. -/

/-- A row of the table below, as it was inserted. -/
def sampleJob (id : Uuid) : JobRow :=
  (NewJob.mk id "user.created" .null .null 2).row 2 10

/-- Nobody has been heard of the first two for longer than a lease, and the second has no attempt
left; the third is held, the fourth is delayed, and the last two are due at the same time. -/
def mixedTable : JobTable where
  rows :=
    [(sampleJob 1).claimed 20 "crashed",
      ((sampleJob 2).claimed 15 "crashed").claimed 20 "crashed",
      (sampleJob 3).claimed 55 "worker",
      { sampleJob 4 with availableAt := 70 },
      { sampleJob 5 with availableAt := 50 },
      { sampleJob 6 with availableAt := 50 }]
  keyed := by decide
  checked := by decide

theorem claim_selects_and_frames_mixed :
    ∃ job T₂, PostgresJobQueue.claim true "replacement" 30 60 60 mixedTable =
        (.ok (some job), T₂) ∧
      T₂.find 3 = some ((sampleJob 3).claimed 55 "worker") := by
  obtain ⟨T₁, T₂, batch, found, hclaim, _, _, hprogress, hframe⟩ :=
    @claim_selects_and_frames 60 60 30 "replacement" true mixedTable (by decide) (by decide)
      (Nat.le_refl 60)
  -- the last two rows are due
  have hdue : ∃ r ∈ mixedTable.rows, r.claimable 60 = true := by
    decide
  obtain ⟨job, rfl⟩ := Option.isSome_iff_exists.mp (hprogress (Or.inl hdue))
  have hheld : (sampleJob 3).claimed 55 "worker" ∈ mixedTable.rows :=
    List.mem_cons_of_mem _ (List.mem_cons_of_mem _ List.mem_cons_self)
  exact ⟨job, T₂, hclaim, hframe _ hheld rfl (by decide)⟩

/-! ## A lease from before all timestamps

`positive_or` sets no upper bound, so the lease can be longer than the time since the first
timestamp. -/

/-- The middle of the year 2026. -/
def midsummer : Instant :=
  212650000000000000 * 1000

/-- A job that is due, beside one that is held. -/
def dueTable : JobTable where
  rows :=
    [{ sampleJob 1 with availableAt := midsummer },
      (sampleJob 2).claimed midsummer "worker"]
  keyed := by decide
  checked := by decide

/-- With a lease of three hundred billion seconds a claim returns an error, though a job is due. -/
theorem lease_before_timestamps :
    (∃ r ∈ dueTable.rows, r.claimable midsummer = true) ∧
      ∀ early, PostgresJobQueue.claim early "replacement" (.fromSecs 300000000000) midsummer
        midsummer dueTable = (.error .unavailable, dueTable) := by
  refine ⟨by decide, fun early => ?_⟩
  cases early <;> rfl

end BaseSkeleton.Job
