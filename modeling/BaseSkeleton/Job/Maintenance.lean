import BaseSkeleton.Lib.Pool
import BaseSkeleton.Job.Change

/-!
# `JobWorker::run_maintenance`

A cleanup cycle as a `Program` over the calls of `purge_terminal`: alone on a table
(`Program.eval`), and next to other cycles (`Pool`).

* `purge_deleted` — one call deletes the rows it found, at most a batch.
* `runMaintenance_alone` — how much a cycle deletes, and with how many calls, when nobody else
  touches the eligible rows.
* `reachable_conserved` / `cycles_conserve_rows` — whatever the interleaving, every row that is
  gone was counted once.
-/

namespace BaseSkeleton.Job

open Program (Exchange Obeys)

/-! ## The cycle

The loop of `run_maintenance` ends with the first call that deletes less than a batch, with an
error, or after sixteen rounds. -/

/-- The fields of `JobWorkerConfig` that a cycle reads. -/
structure RetentionConfig where
  completedRetention : Duration
  deadRetention : Duration

/-- A call of `JobQueue::purge_terminal`. -/
structure PurgeTerminal where
  completedOlderThan : Duration
  deadOlderThan : Duration

/-- What the call returns. -/
@[reducible] def PurgeReply : PurgeTerminal → Type :=
  fun _ => Except JobQueueError Nat

/-- A cycle, with what it returns. -/
abbrev Cycle := Program PurgeReply (Except JobQueueError Nat)

def purgeTerminal (completedOlderThan deadOlderThan : Duration) : Cycle :=
  .perform (C := PurgeTerminal) ⟨completedOlderThan, deadOlderThan⟩

/-- The loop of `run_maintenance`, with the rounds that are left. -/
def maintenanceLoop (config : RetentionConfig) : Nat → Nat → Cycle
  | 0, total => return .ok total
  | rounds + 1, total => do
    match ← purgeTerminal config.completedRetention config.deadRetention with
    | .error e => return .error e
    | .ok purged =>
      let total := total + purged
      if purged < purgeBatchSize then return .ok total
      else maintenanceLoop config rounds total

def runMaintenance (config : RetentionConfig) : Cycle :=
  maintenanceLoop config 16 0

/-! ## The queue

What a call of `purge_terminal` can meet: rows that others hold locked, a statement that fails, and
an error after the rows are gone. -/

/-- How a call ends. -/
inductive PurgeOutcome where
  | done
  /-- an error is reported; the statement may have been applied -/
  | failed (applied : Bool)

/-- What the outcome of a call depends on besides the table: its `NOW()`, and the rows that it
skips or that its LIMIT leaves out. -/
structure PurgeCircumstances where
  now : Instant
  skip : List Uuid
  outcome : PurgeOutcome

/-- The table, and what was deleted from it. -/
structure PurgeStore where
  table : JobTable
  /-- the rows of the calls that reported them -/
  removed : List JobRow
  /-- the rows of the calls that were applied, and reported as failed -/
  lost : List JobRow

/-- The rows a call deletes. -/
def PurgeTerminal.deletes (call : PurgeTerminal) (w : PurgeCircumstances) (T : JobTable)
    (r : JobRow) : Bool :=
  ((T.retired w.skip w.now call.completedOlderThan call.deadOlderThan).map JobRow.id).contains r.id

theorem PurgeTerminal.deletes_eq (call : PurgeTerminal) (w : PurgeCircumstances) (T : JobTable) :
    call.deletes w T = fun r =>
      decide (r.id ∈ (T.retired w.skip w.now call.completedOlderThan call.deadOlderThan).map
        JobRow.id) :=
  funext fun r => List.contains_eq_mem r.id _

def PurgeTerminal.statement (call : PurgeTerminal) : Statement :=
  .purge call.completedOlderThan call.deadOlderThan

theorem PurgeTerminal.exec_statement (call : PurgeTerminal) (w : PurgeCircumstances)
    (T : JobTable) :
    call.statement.exec w.skip w.now T = .ok (T.delete (call.deletes w T)) := by
  rw [PurgeTerminal.deletes_eq]
  rfl

/-- A call finds the table in some circumstances, and leaves it behind. -/
def PurgeTerminal.answer (w : PurgeCircumstances) (call : PurgeTerminal) (s : PurgeStore) :
    Except JobQueueError Nat × PurgeStore :=
  match w.outcome, call.statement.exec w.skip w.now s.table with
  | .done, .ok (table, rows) =>
    (PostgresJobQueue.readPurge rows, { s with table := table, removed := rows ++ s.removed })
  | .failed true, .ok (table, rows) =>
    (.error .unavailable, { s with table := table, lost := rows ++ s.lost })
  | _, _ => (.error .unavailable, s)

/-! ## One call

A call deletes the rows it has found. It answers with their number if the statement is executed and
the answer arrives. -/

variable {config : RetentionConfig} {call : PurgeTerminal} {w : PurgeCircumstances}
  {T : JobTable}

theorem retired_sublist (skip : List Uuid) (now : Instant)
    (completedOlderThan deadOlderThan : Duration) :
    (T.retired skip now completedOlderThan deadOlderThan).Sublist T.rows :=
  (List.take_sublist _ _).trans List.filter_sublist

/-- **A call deletes the rows it found.** -/
theorem purge_deleted (call : PurgeTerminal) (w : PurgeCircumstances) (T : JobTable) :
    (T.delete (call.deletes w T)).2 =
      T.retired w.skip w.now call.completedOlderThan call.deadOlderThan := by
  rw [call.deletes_eq]
  exact Keyed.filter_of_sublist T.keyed (retired_sublist _ _ _ _)

theorem answer_done (hdone : w.outcome = .done) (s : PurgeStore) :
    call.answer w s =
      (.ok (s.table.delete (call.deletes w s.table)).2.length,
        { s with
          table := (s.table.delete (call.deletes w s.table)).1
          removed := (s.table.delete (call.deletes w s.table)).2 ++ s.removed }) := by
  unfold PurgeTerminal.answer
  rw [hdone, PurgeTerminal.exec_statement]
  rfl

/-! ## A cycle alone

`Undisturbed` is what a cycle needs to count the eligible rows exactly: each of its calls is
executed, finds a batch of them as long as there are so many, and finds no others. -/

/-- A call is made in the circumstances of its number, given the table; the calls are counted. -/
def PurgeTerminal.answerNext (w : Nat → JobTable → PurgeCircumstances) (call : PurgeTerminal)
    (s : PurgeStore × Nat) : Except JobQueueError Nat × PurgeStore × Nat :=
  ((call.answer (w s.2 s.1.table) s.1).1, (call.answer (w s.2 s.1.table) s.1).2, s.2 + 1)

/-- The eligible rows of `T` are fixed and nobody else touches them: no call fails, the same rows
of `T` are past their retention at every call, and a call leaves one out only because of its
LIMIT. -/
structure Undisturbed (config : RetentionConfig) (eligible : JobRow → Bool) (T : JobTable)
    (w : Nat → JobTable → PurgeCircumstances) : Prop where
  healthy : ∀ calls T', (w calls T').outcome = .done
  fixed : ∀ calls T', ∀ r ∈ T.rows,
    r.purgeable (w calls T').now config.completedRetention config.deadRetention = eligible r
  alone : ∀ calls (T' : JobTable), T'.rows.Sublist T.rows →
    min purgeBatchSize (T'.rows.filter eligible).length ≤
      (T'.rows.filter fun r => eligible r && !decide (r.id ∈ (w calls T').skip)).length

variable {eligible : JobRow → Bool} {w : Nat → JobTable → PurgeCircumstances} {calls : Nat}
  {T' : JobTable}

/-- The call that `config` makes. -/
def RetentionConfig.purge (config : RetentionConfig) : PurgeTerminal :=
  ⟨config.completedRetention, config.deadRetention⟩

/-- **What one call of an undisturbed cycle deletes**: a batch of the eligible rows, or all of
them if they are fewer. -/
theorem Undisturbed.batch (h : Undisturbed config eligible T w) (hsub : T'.rows.Sublist T.rows)
    (calls : Nat) :
    (T'.delete (config.purge.deletes (w calls T') T')).2.length =
        min purgeBatchSize (T'.rows.filter eligible).length ∧
      ∀ r ∈ (T'.delete (config.purge.deletes (w calls T') T')).2, eligible r = true := by
  have hfound : T'.retired (w calls T').skip (w calls T').now config.completedRetention
      config.deadRetention =
      (T'.rows.filter fun r => eligible r && !decide (r.id ∈ (w calls T').skip)).take
        purgeBatchSize := by
    unfold JobTable.retired
    congr 1
    refine List.filter_congr fun r hr => ?_
    rw [h.fixed calls T' r (hsub.subset hr)]
  rw [purge_deleted]
  show (T'.retired _ _ config.completedRetention config.deadRetention).length = _ ∧
    ∀ r ∈ T'.retired _ _ config.completedRetention config.deadRetention, _
  rw [hfound]
  refine ⟨?_, fun r hr => ?_⟩
  · have hleast := h.alone calls T' hsub
    have hmost : (T'.rows.filter fun r => eligible r && !decide (r.id ∈ (w calls T').skip)).length ≤
        (T'.rows.filter eligible).length := by
      rw [← List.filter_filter]
      exact (List.filter_sublist.filter eligible).length_le
    rw [List.length_take]
    omega
  · have hmem := (List.mem_filter.mp (List.mem_of_mem_take hr)).2
    simp only [Bool.and_eq_true] at hmem
    exact hmem.1

/-- Deleting eligible rows leaves the other eligible rows. -/
theorem length_eligible_delete {sel : JobRow → Bool} (hsel : ∀ r ∈ (T'.delete sel).2, eligible r) :
    ((T'.delete sel).1.rows.filter eligible).length + (T'.delete sel).2.length =
      (T'.rows.filter eligible).length := by
  show ((T'.rows.filter fun r => !sel r).filter eligible).length + (T'.rows.filter sel).length = _
  have hdeleted : (T'.rows.filter eligible).filter sel = T'.rows.filter sel := by
    rw [List.filter_filter]
    refine List.filter_congr fun r hr => ?_
    cases hr' : sel r with
    | false => rfl
    | true => simp [hsel r (List.mem_filter.mpr ⟨hr, hr'⟩)]
  have hsplit := (T'.rows.filter eligible).length_eq_length_filter_add sel
  rw [hdeleted, List.filter_filter] at hsplit
  rw [hsplit, List.filter_filter, Nat.add_comm]
  simp only [Bool.and_comm]

/-- One round of the loop: a call, and the rest of the loop if it filled its batch. -/
theorem eval_round {σ : Type} (handler : (c : PurgeTerminal) → σ → Except JobQueueError Nat × σ)
    (rounds total : Nat) (s : σ) :
    (maintenanceLoop config (rounds + 1) total).eval handler s =
      match handler config.purge s with
      | (.error e, s') => (.error e, s')
      | (.ok purged, s') =>
        if purged < purgeBatchSize then (.ok (total + purged), s')
        else (maintenanceLoop config rounds (total + purged)).eval handler s' := by
  show Program.eval handler (.call config.purge _) s = _
  rw [Program.eval]
  generalize handler config.purge s = answered
  obtain ⟨reply, s'⟩ := answered
  cases reply with
  | error e => rfl
  | ok purged =>
    show Program.eval handler (if purged < purgeBatchSize then _ else _) s' =
      if purged < purgeBatchSize then _ else _
    by_cases hshort : purged < purgeBatchSize
    · rw [if_pos hshort, if_pos hshort]
      rfl
    · rw [if_neg hshort, if_neg hshort]

/-- One call of an undisturbed cycle, on what previous calls left of `T`. -/
theorem Undisturbed.oneCall (h : Undisturbed config eligible T w) (s : PurgeStore)
    (hsub : s.table.rows.Sublist T.rows) (calls : Nat) :
    ∃ (T' : JobTable) (rows : List JobRow),
      config.purge.answerNext w (s, calls) =
        (.ok rows.length, { s with table := T', removed := rows ++ s.removed }, calls + 1) ∧
      rows.length = min 1000 (s.table.rows.filter eligible).length ∧
      (T'.rows.filter eligible).length + rows.length = (s.table.rows.filter eligible).length ∧
      (∀ r ∈ rows, eligible r = true) ∧ T'.rows.Sublist T.rows ∧
      (rows ++ T'.rows).Perm s.table.rows := by
  obtain ⟨hlength, heligible⟩ := h.batch hsub calls
  have hanswer : config.purge.answer (w calls s.table) s = _ :=
    answer_done (h.healthy calls s.table) s
  refine ⟨_, _, ?_, hlength, length_eligible_delete heligible, heligible,
    List.filter_sublist.trans hsub, List.filter_append_perm _ _⟩
  unfold PurgeTerminal.answerNext
  rw [hanswer]

/-- The loop with `rounds` left, on what previous calls left of `T`. -/
theorem maintenanceLoop_alone (h : Undisturbed config eligible T w) (rounds total : Nat)
    (s : PurgeStore) (hsub : s.table.rows.Sublist T.rows) (calls : Nat) :
    ∃ (T' : JobTable) (rows : List JobRow),
      (maintenanceLoop config rounds total).eval (PurgeTerminal.answerNext w) (s, calls) =
        (.ok (total + rows.length), { s with table := T', removed := rows ++ s.removed },
          calls + min rounds ((s.table.rows.filter eligible).length / 1000 + 1)) ∧
      rows.length = min (s.table.rows.filter eligible).length (rounds * 1000) ∧
      (∀ r ∈ rows, eligible r = true) ∧ (rows ++ T'.rows).Perm s.table.rows := by
  induction rounds generalizing total s calls with
  | zero =>
    refine ⟨s.table, [], ?_, by simp, by simp, by simp⟩
    rw [Nat.zero_min]
    rfl
  | succ rounds ih =>
    obtain ⟨T₁, rows₁, hcall, hlength, hleft, heligible, hsub₁, hperm⟩ := h.oneCall s hsub calls
    rw [eval_round, hcall]
    simp only
    by_cases hshort : rows₁.length < purgeBatchSize
    · -- fewer rows than a batch: these were all
      have hone : calls + 1 =
          calls + min (rounds + 1) ((s.table.rows.filter eligible).length / 1000 + 1) := by
        have hbatch : purgeBatchSize = 1000 := rfl
        omega
      rw [if_pos hshort, hone]
      exact ⟨T₁, rows₁, rfl, by omega, heligible, hperm⟩
    · rw [if_neg hshort]
      obtain ⟨T', rows, heval, hcount, hall, hrest⟩ := ih (total + rows₁.length)
        { s with table := T₁, removed := rows₁ ++ s.removed } hsub₁ (calls + 1)
      simp only at heval hcount hrest
      have hbatch : purgeBatchSize = 1000 := rfl
      have hcalls : calls + 1 + min rounds ((T₁.rows.filter eligible).length / 1000 + 1) =
          calls + min (rounds + 1) ((s.table.rows.filter eligible).length / 1000 + 1) := by
        omega
      refine ⟨T', rows ++ rows₁, ?_, ?_, ?_, ?_⟩
      · rw [heval, hcalls, List.append_assoc, List.length_append, Nat.add_assoc,
          Nat.add_comm rows₁.length]
      · rw [List.length_append]
        omega
      · intro r hr
        rcases List.mem_append.mp hr with hr | hr
        · exact hall r hr
        · exact heligible r hr
      · have hswap : (rows ++ rows₁ ++ T'.rows).Perm (rows₁ ++ (rows ++ T'.rows)) := by
          rw [← List.append_assoc]
          exact List.perm_append_comm.append_right _
        exact (hswap.trans (hrest.append_left rows₁)).trans hperm

/-- **A cycle alone** deletes up to sixteen batches of the eligible rows, and no other row. -/
theorem runMaintenance_alone (h : Undisturbed config eligible T w) :
    ∃ (T' : JobTable) (rows : List JobRow),
      (runMaintenance config).eval (PurgeTerminal.answerNext w) (⟨T, [], []⟩, 0) =
        (.ok (min (T.rows.filter eligible).length 16000), ⟨T', rows, []⟩,
          min 16 ((T.rows.filter eligible).length / 1000 + 1)) ∧
      rows.length = min (T.rows.filter eligible).length 16000 ∧
      (∀ r ∈ rows, eligible r = true) ∧ (rows ++ T'.rows).Perm T.rows := by
  obtain ⟨T', rows, heval, hcount, hall, hperm⟩ :=
    maintenanceLoop_alone h 16 0 ⟨T, [], []⟩ (List.Sublist.refl _) 0
  refine ⟨T', rows, ?_, hcount, hall, hperm⟩
  unfold runMaintenance
  rw [heval, Nat.zero_add, Nat.zero_add, hcount, List.append_nil]

/-! ## Cycles next to each other

Here nothing is assumed of what the calls see. A row is deleted by one statement only, so that no
two cycles count it. -/

/-- Any number of cycles over `T`, each of any worker. -/
def cycles (T : JobTable) :
    Pool.Setup PurgeReply PurgeStore RetentionConfig PurgeCircumstances Empty
      (Except JobQueueError Nat) where
  program := runMaintenance
  handler w call s := call.answer w s
  disturb d _ := d.elim
  init := ⟨T, [], []⟩

abbrev Cleanup := Pool PurgeReply PurgeStore RetentionConfig (Except JobQueueError Nat)

/-- The rows a call reported. -/
def batch : Exchange PurgeReply → Nat
  | ⟨_, .ok purged⟩ => purged
  | ⟨_, .error _⟩ => 0

/-- The rows the calls of a cycle reported. -/
def purgedIn (trace : List (Exchange PurgeReply)) : Nat :=
  (trace.map batch).sum

/-- **A cycle counts what its calls report**, whatever they report. -/
theorem maintenanceLoop_obeys (rounds total : Nat) (trace : List (Exchange PurgeReply))
    (h : purgedIn trace = total) :
    Obeys (fun _ _ => True) (fun trace result => ∀ n, result = .ok n → purgedIn trace = n) trace
      (maintenanceLoop config rounds total) := by
  induction rounds generalizing total trace with
  | zero =>
    refine Program.obeys_ret fun n hn => ?_
    rw [h, Except.ok.inj hn]
  | succ rounds ih =>
    refine Program.obeys_call trivial fun reply => ?_
    cases reply with
    | error e => exact Program.obeys_ret fun n hn => (nomatch hn)
    | ok purged =>
      have hnext : purgedIn (⟨config.purge, .ok purged⟩ :: trace) = total + purged := by
        show purged + purgedIn trace = _
        omega
      show Obeys _ _ _ (if purged < purgeBatchSize then _ else _)
      split
      · refine Program.obeys_ret fun n hn => ?_
        exact hnext.trans (Except.ok.inj hn)
      · exact ih (total + purged) _ hnext

/-- A call moves rows out of the table, and adds what it reports to the removed rows. -/
theorem answer_conserves (w : PurgeCircumstances) (call : PurgeTerminal) (s : PurgeStore) :
    ((call.answer w s).2.removed ++ (call.answer w s).2.lost ++
        (call.answer w s).2.table.rows).Perm (s.removed ++ s.lost ++ s.table.rows) ∧
      (call.answer w s).2.removed.length =
        batch ⟨call, (call.answer w s).1⟩ + s.removed.length := by
  have hsplit : ((s.table.delete (call.deletes w s.table)).2 ++
      (s.table.delete (call.deletes w s.table)).1.rows).Perm s.table.rows :=
    List.filter_append_perm _ _
  unfold PurgeTerminal.answer
  rw [PurgeTerminal.exec_statement]
  generalize s.table.delete (call.deletes w s.table) = deleted at hsplit ⊢
  obtain ⟨T', rows⟩ := deleted
  cases w.outcome with
  | done =>
    refine ⟨?_, List.length_append⟩
    have hswap : (rows ++ s.removed ++ s.lost ++ T'.rows).Perm
        (s.removed ++ s.lost ++ (rows ++ T'.rows)) := by
      rw [List.append_assoc rows, ← List.append_assoc _ rows]
      exact List.perm_append_comm.append_right _
    exact hswap.trans (hsplit.append_left _)
  | failed applied =>
    cases applied with
    | false => exact ⟨List.Perm.refl _, (Nat.zero_add _).symm⟩
    | true =>
      refine ⟨?_, (Nat.zero_add _).symm⟩
      have hswap : (rows ++ s.lost ++ T'.rows).Perm (s.lost ++ (rows ++ T'.rows)) := by
        rw [← List.append_assoc]
        exact List.perm_append_comm.append_right _
      show (s.removed ++ (rows ++ s.lost) ++ T'.rows).Perm _
      rw [List.append_assoc s.removed, List.append_assoc s.removed]
      exact (hswap.trans (hsplit.append_left _)).append_left _

/-- **The run lemma.** -/
theorem reachable_conserved {s : Cleanup} (h : (Pool.machine (cycles T)).Reachable s) :
    (s.store.removed ++ s.store.lost ++ s.store.table.rows).Perm T.rows ∧
      s.store.removed.length = (s.log.map fun e => batch e.2).sum := by
  refine Machine.Reachable.invariant (P := fun s : Cleanup =>
    (s.store.removed ++ s.store.lost ++ s.store.table.rows).Perm T.rows ∧
      s.store.removed.length = (s.log.map fun e => batch e.2).sum) ?_ ?_ h
  · exact ⟨List.Perm.refl _, rfl⟩
  · intro s input s' _ ih hstep
    cases Pool.step_steps hstep with
    | start config => exact ih
    | call i w config call k hthread =>
      obtain ⟨hperm, hlength⟩ := answer_conserves w call s.store
      refine ⟨hperm.trans ih.1, ?_⟩
      show (call.answer w s.store).2.removed.length = _
      rw [hlength, ih.2]
      rfl
    | disturb d => exact d.elim

/-- What a cycle counts: what it returned, or the batches it has purged if it ended in an error
or has not ended. -/
def cycleCount (s : Cleanup) (i : Nat) : Nat :=
  match s.threads[i]? with
  | some ⟨_, .ret (.ok purged)⟩ => purged
  | _ => purgedIn (Pool.exchanges i s.log)

theorem cycleCount_eq {s : Cleanup} (h : (Pool.machine (cycles T)).Reachable s) (i : Nat) :
    cycleCount s i = purgedIn (Pool.exchanges i s.log) := by
  unfold cycleCount
  split
  · next config purged hthread =>
    have hfollows := (Pool.reachable_inv h).follows i _ hthread
    have hobeys := hfollows.obeys (maintenanceLoop_obeys 16 0 [] rfl)
    exact (Program.obeys_ret_iff.mp hobeys purged rfl).symm
  · rfl

/-- **Whatever the interleaving, every row that is gone was counted once.** -/
theorem cycles_conserve_rows {s : Cleanup} (h : (Pool.machine (cycles T)).Reachable s) :
    (s.store.removed ++ s.store.lost ++ s.store.table.rows).Perm T.rows ∧
      (∑ i ∈ Finset.range s.threads.length, cycleCount s i) = s.store.removed.length := by
  obtain ⟨hperm, hlength⟩ := reachable_conserved h
  refine ⟨hperm, ?_⟩
  rw [Finset.sum_congr rfl fun i _ => cycleCount_eq h i, hlength]
  exact Pool.sum_exchanges batch (Pool.reachable_inv h).bounded

/-- **A cycle drains exactly what it may.**

* Alone on a table with `E` eligible rows it deletes `min E 16000` rows, all of them eligible,
  returns that number, and makes `min 16 (E / 1000 + 1)` calls.
* Next to any number of other cycles, in any interleaving of the calls: the rows that are gone are
  the ones the calls reported, and the ones of calls whose reply was lost. No row is gone twice,
  and the cycles that returned a number and the batches of the others add up to what the calls
  reported. -/
theorem maintenance_exact :
    (∀ (config : RetentionConfig) (eligible : JobRow → Bool) (T : JobTable)
      (w : Nat → JobTable → PurgeCircumstances), Undisturbed config eligible T w →
      ∃ (T' : JobTable) (rows : List JobRow),
        (runMaintenance config).eval (PurgeTerminal.answerNext w) (⟨T, [], []⟩, 0) =
          (.ok (min (T.rows.filter eligible).length 16000), ⟨T', rows, []⟩,
            min 16 ((T.rows.filter eligible).length / 1000 + 1)) ∧
        rows.length = min (T.rows.filter eligible).length 16000 ∧
        (∀ r ∈ rows, eligible r = true) ∧ (rows ++ T'.rows).Perm T.rows) ∧
    ∀ (T : JobTable) (s : Cleanup), (Pool.machine (cycles T)).Reachable s →
      (s.store.removed ++ s.store.lost ++ s.store.table.rows).Perm T.rows ∧
      ((s.store.removed ++ s.store.lost).map JobRow.id).Nodup ∧
      (∑ i ∈ Finset.range s.threads.length, cycleCount s i) = s.store.removed.length := by
  refine ⟨fun config eligible T w h => runMaintenance_alone h, fun T s h => ?_⟩
  obtain ⟨hperm, hsum⟩ := cycles_conserve_rows h
  have hkeyed : ((s.store.removed ++ s.store.lost ++ s.store.table.rows).map JobRow.id).Nodup :=
    (hperm.map JobRow.id).nodup_iff.mpr T.keyed
  rw [List.map_append] at hkeyed
  exact ⟨hperm, hkeyed.of_append_left, hsum⟩

/-! ## More than a batch

Half of the rows of `retainedTable` have been dead for long and the other half are waiting, so that
a cycle with more than a thousand pairs has to call more than once. -/

/-- A dead job. -/
def deadRow : JobRow where
  id := 7
  jobType := "user.created"
  payload := .null
  traceContext := .null
  status := .dead
  attempts := 1
  maxAttempts := 1
  availableAt := 0
  lockedAt := none
  lockedBy := none
  lastError := some "boom"
  createdAt := 0
  updatedAt := 0
  completedAt := none

def JobRow.isDead (r : JobRow) : Bool :=
  r.status = .dead

/-- The rows of an even number are dead, those of an odd number are pending. -/
def retainedRow (n : Nat) : JobRow :=
  { deadRow with id := n, status := if n % 2 = 0 then .dead else .pending }

theorem retainedRow_checks (n : Nat) : (retainedRow n).Checks := by
  have hdead : deadRow.Checks := by decide
  have hopen : (retainedRow n).status ≠ .running ∧ (retainedRow n).status ≠ .completed := by
    show (if n % 2 = 0 then Status.dead else .pending) ≠ .running ∧
      (if n % 2 = 0 then Status.dead else .pending) ≠ .completed
    split <;> decide
  exact { hdead with
    lockConsistent := .inr ⟨hopen.1, rfl, rfl⟩
    completionConsistent := .inr ⟨hopen.2, rfl⟩ }

/-- As many dead jobs as pending ones, as far as there are ids. -/
def retainedTable (pairs : Nat) (h : 2 * pairs ≤ 2 ^ 128) : JobTable where
  rows := (List.range (2 * pairs)).map retainedRow
  keyed := by
    rw [List.map_map]
    refine List.nodup_range.map_on fun m hm n hn hid => ?_
    have hmod : m % 2 ^ 128 = n % 2 ^ 128 := congrArg BitVec.toNat hid
    rwa [Nat.mod_eq_of_lt ((List.mem_range.mp hm).trans_le h),
      Nat.mod_eq_of_lt ((List.mem_range.mp hn).trans_le h)] at hmod
  checked := by
    intro r hr
    obtain ⟨n, _, rfl⟩ := List.mem_map.mp hr
    exact retainedRow_checks n

theorem dead_retained (pairs : Nat) (h : 2 * pairs ≤ 2 ^ 128) :
    ((retainedTable pairs h).rows.filter JobRow.isDead).length = pairs := by
  show (((List.range (2 * pairs)).map retainedRow).filter JobRow.isDead).length = pairs
  clear h
  induction pairs with
  | zero => rfl
  | succ pairs ih =>
    have hrange : List.range (2 * (pairs + 1)) =
        List.range (2 * pairs) ++ [2 * pairs, 2 * pairs + 1] := by
      simp [Nat.mul_succ, List.range_succ]
    rw [hrange, List.map_append, List.filter_append, List.length_append, ih]
    simp [JobRow.isDead, retainedRow]

/-- Nobody else is there, and the dead jobs are older than their retention. -/
theorem undisturbed_retained (pairs : Nat) (h : 2 * pairs ≤ 2 ^ 128) :
    Undisturbed ⟨1, 1⟩ JobRow.isDead (retainedTable pairs h) fun _ _ => ⟨10, [], .done⟩ where
  healthy _ _ := rfl
  fixed _ _ r hr := by
    obtain ⟨n, _, rfl⟩ := List.mem_map.mp hr
    simp [JobRow.isDead, retainedRow, JobRow.purgeable, deadRow]
  alone _ T' _ := by simp

/-- A cycle that needs three calls, the last of which finds less than a batch. -/
theorem maintenance_exact_sample :
    ∃ (T' : JobTable) (rows : List JobRow),
      (runMaintenance ⟨1, 1⟩).eval (PurgeTerminal.answerNext fun _ _ => ⟨10, [], .done⟩)
          (⟨retainedTable 2500 (by decide), [], []⟩, 0) =
        (.ok 2500, ⟨T', rows, []⟩, 3) ∧
      rows.length = 2500 ∧ (∀ r ∈ rows, r.isDead = true) ∧
      (rows ++ T'.rows).Perm (retainedTable 2500 (by decide)).rows := by
  have hcycle := maintenance_exact.1 ⟨1, 1⟩ JobRow.isDead (retainedTable 2500 (by decide)) _
    (undisturbed_retained 2500 (by decide))
  rw [dead_retained] at hcycle
  exact hcycle

end BaseSkeleton.Job
