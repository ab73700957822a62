import BaseSkeleton.Lib.Log
import BaseSkeleton.Users.Coherence
import BaseSkeleton.Users.Registration

/-!
# Use cases one after the other

The cache may fail at any call, and may have done what it was asked all the same; entries expire
when they like. As long as every request waits for the one before it, an entry that is not the row
of its user is one that the latest update or delete of the user tried in vain to replace.

* `overtaken_overlooked` — who has overtaken an entry has failed to write it.
* `stale_entry_invalidation_failed` — what the stores and the results are in every such run.
-/

namespace BaseSkeleton.Users

open Text (CaseMapping)
open Program (Exchange)

variable {u : CaseMapping} {service : UserService} {database : Database} {s : ServicePool u}
  {id : UserId}

/-- A request is sent when all others have returned, and no COMMIT loses its reply. -/
def OneAtATime (s : ServicePool u) : ServiceInput → Prop
  | .start _ => s.Quiescent
  | .call _ w => w.transaction.commit ≠ .replyLost
  | .disturb _ => True

instance (s : ServicePool u) : (input : ServiceInput) → Decidable (OneAtATime s input)
  | .start _ => inferInstanceAs (Decidable s.Quiescent)
  | .call _ w => inferInstanceAs (Decidable (w.transaction.commit ≠ .replyLost))
  | .disturb _ => .isTrue trivial

/-- Thread `j` was the last that updated or deleted the user `id`, and none of its writes to the
cache is known to have worked. -/
structure Overlooked (s : ServicePool u) (id : UserId) (j : Nat) : Prop where
  last : ∃ newer e older, s.log = newer ++ (j, e) :: older ∧ Writes id e ∧
    ∀ e' ∈ newer, ¬ Writes id e'.2
  request : ∀ t, s.threads[j]? = some t →
    t.request = .delete id ∨ ∃ input, t.request = .update id input
  failed : ∀ e ∈ Pool.exchanges j s.log, ∀ k, e.1.cacheWrites k → CacheFails e
  tried : ∀ t response, s.threads[j]? = some t → t.rest = .ret response →
    (∃ user, response = .ok user) ∧ ∃ e ∈ Pool.exchanges j s.log, e.1.cacheWrites id

/-! ## One after the other

If no two requests overlap, who overtakes an entry has returned before the next request starts, and
had its turn at the cache. -/

/-- **Who has overtaken an entry** comes after the thread that wrote the entry, and has failed to
write it. -/
theorem overtaken_overlooked (hinv : Pool.Inv (service.setup u database) s) (h : Traced s)
    (hordered : Pool.Ordered s) {user : User u} {i : Nat} {set got : Exchange (Reply u)}
    {newer between older : List (Nat × Exchange (Reply u))}
    (hover : Overtaken s.log user newer i set between got older) :
    ∃ j, Overlooked s user.id j := by
  have hlog := hover.log_eq
  have hgot := hover.got_user.asksRepository
  have hpairwise := hordered.pairwise
  rw [hlog, List.pairwise_append] at hpairwise
  obtain ⟨_, htail, hacross⟩ := hpairwise
  have hbefore : ∀ e ∈ (i, set) :: (between ++ (i, got) :: older), e.1 ≤ i := by
    rw [List.forall_mem_cons]
    exact ⟨Nat.le_refl i, (List.pairwise_cons.mp htail).1⟩
  -- nobody else calls between the two calls of thread `i`
  have hnewer : ∃ e ∈ newer, Writes user.id e.2 := by
    obtain ⟨⟨j, e⟩, hmem, hwrites⟩ := hover.written
    rcases List.mem_append.mp hmem with hmem | hmem
    · exact ⟨(j, e), hmem, hwrites⟩
    · have hle : j ≤ i := hbefore (j, e) (by simp [hmem])
      have hge : i ≤ j :=
        (List.pairwise_append.mp (List.pairwise_cons.mp htail).2).2.2 (j, e) hmem (i, got) (by simp)
      obtain ⟨newer', older', hbetween⟩ := List.append_of_mem hmem
      have hlog' : s.log =
          (newer ++ (i, set) :: newer') ++ (j, e) :: (older' ++ (i, got) :: older) := by
        rw [hlog, hbetween]
        simp
      have hmem' : (i, got) ∈ older' ++ (i, got) :: older := by simp
      have hne := asks_once hinv hlog' hwrites.asksRepository hmem' hgot
      exact absurd (Nat.le_antisymm hge hle) hne
  -- Thread `j` is the last writer of the user, and it comes after `i` in the order of the requests.
  obtain ⟨newest, ⟨j, e⟩, rest, hsplit, hwrites, hquiet⟩ := Log.exists_newest hnewer
  have hlog' : s.log =
      newest ++ (j, e) :: (rest ++ (i, set) :: (between ++ (i, got) :: older)) := by
    rw [hlog, hsplit]
    simp
  have hlt : i < j := by
    have hle : i ≤ j := hacross (j, e) (by simp [hsplit]) (i, set) (by simp)
    have hmem : (i, got) ∈ rest ++ (i, set) :: (between ++ (i, got) :: older) := by simp
    have hne := asks_once hinv hlog' hwrites.asksRepository hmem hgot
    omega
  refine ⟨j, ⟨newest, e, _, hlog', hwrites, hquiet⟩, ?_, ?_, ?_⟩
  · intro t ht
    obtain ⟨t', ht', hpromise⟩ := called_promise hinv hlog'
    obtain rfl : t' = t := Option.some.inj (ht'.symm.trans ht)
    refine hwrites.request (hpromise.asked hwrites.asksRepository) ?_
    exact about_request hinv h ht (by simp [hlog'])
  · -- A cache call of `j` about the user would have removed the entry.
    intro e' he' k hcache
    have hmem := Pool.mem_exchanges.mp he'
    obtain ⟨t, ht, _⟩ := called_promise hinv hlog'
    have hk : k = user.id := by
      rw [← hcache.about, about_request hinv h ht hmem, ← hwrites.about]
      exact (about_request hinv h ht (by simp [hlog'])).symm
    rw [hlog] at hmem
    rcases List.mem_append.mp hmem with hmem | hmem
    · exact hover.kept (j, e') hmem (hk ▸ hcache)
    · have hle : j ≤ i := hbefore (j, e') hmem
      omega
  · intro t response ht hret
    obtain ⟨hok, e', he', hcache⟩ := writer_returned hinv h hlog' hwrites ht hret
    refine ⟨hok, e', Pool.mem_exchanges.mpr ?_, hcache⟩
    rw [hlog']
    exact List.mem_append_left _ (Pool.mem_exchanges.mp he')

/-- **A sequential run**, whatever the cache does: the entry of a user is absent, or the row of the
user, or one that the latest update or delete of the user has failed to write. No result is an
error of the cache; `GetUser` returns what the repository says when the cache does not answer. -/
theorem stale_entry_invalidation_failed (service : UserService) (database : Database)
    (h : ((Pool.machine (service.setup u database)).restrict OneAtATime).Reachable s) :
    (∀ id, (∀ entry, s.store.entries id = some entry → entry.id = id) ∧
      (s.store.entries id = none ∨ s.store.Current u id ∨ ∃ j, Overlooked s id j)) ∧
    ∀ (i : Nat) t response, s.threads[i]? = some t → t.rest = .ret response →
      (∀ error, response = .error error →
        (∃ e, error = .invalidInput e) ∨ ∃ e ∈ Pool.exchanges i s.log, Refuses error e) ∧
      ∀ id, t.request = .get id → GetAnswer id (Pool.exchanges i s.log) response := by
  have hinv : Pool.Inv (service.setup u database) s := Pool.reachable_inv h.of_restrict
  have htraced : Traced s := reachable_traced (fun _ _ _ hallowed => hallowed) h
  have hordered : Pool.Ordered s := Pool.reachable_ordered (fun _ _ hallowed => hallowed) h
  refine ⟨fun id => ⟨fun entry hentry => ?_, ?_⟩, fun i t response ht hret => ⟨?_, ?_⟩⟩
  · obtain ⟨user, hid, hfrom, _⟩ := entry_cases hinv htraced hentry
    rw [hfrom]
    exact hid
  · cases hentry : s.store.entries id with
    | none => exact Or.inl rfl
    | some entry =>
      obtain ⟨user, hid, hfrom, hcases⟩ := entry_cases hinv htraced hentry
      right
      rcases hcases with hholds | ⟨newer, i, set, between, got, older, hover⟩
      · left
        rw [hfrom] at hentry
        rw [← hid] at hentry ⊢
        exact hholds.current hentry
      · right
        rw [← hid]
        exact overtaken_overlooked hinv htraced hordered hover
  · intro error herror
    rcases (returned_promise hinv ht hret).refused error herror with ⟨e, he, _⟩ | hrefused
    · exact Or.inl ⟨e, he⟩
    · exact Or.inr hrefused
  · exact (returned_promise hinv ht hret).answered

/-! ## A delete that the cache does not hear of

The user is gone and the entry is not, until it expires. -/

def sampleService : UserService := ⟨sampleUuid, sampleCreateUser, ⟨300⟩, ⟨300⟩⟩

/-- The stored user is read, and then deleted while the cache does not answer. -/
def unheardDelete : List ServiceInput :=
  [.call 1 { sampleCircumstances with cache := .failed "timed out" false },
    .call 1 sampleCircumstances, .start (.delete sampleId), .call 0 sampleCircumstances,
    .call 0 sampleCircumstances, .call 0 sampleCircumstances, .start (.get sampleId)]

def storedDatabase : Database := (takenStores sampleId).database

theorem unheardDelete_possible :
    (((Pool.machine (sampleService.setup Text.asciiCase storedDatabase)).restrict
      OneAtATime).run unheardDelete).isSome := by
  decide

/-- The stores when the delete has returned. -/
def unheardDeleteState : ServicePool Text.asciiCase :=
  (((Pool.machine (sampleService.setup Text.asciiCase storedDatabase)).restrict
    OneAtATime).run unheardDelete).get unheardDelete_possible

theorem stale_entry_invalidation_failed_sample :
    unheardDeleteState.store.entries sampleId ≠ none ∧
      ∃ j, Overlooked unheardDeleteState sampleId j := by
  have hcached : unheardDeleteState.store.entries sampleId ≠ none := by decide
  refine ⟨hcached, ?_⟩
  have hreach := Machine.reachable_get unheardDelete_possible
  obtain hnone | ⟨_, row, _, hrow, _⟩ | hoverlooked :=
    ((stale_entry_invalidation_failed sampleService storedDatabase hreach).1 sampleId).2
  · exact absurd hnone hcached
  · -- the row is gone
    have hgone : unheardDeleteState.store.database.users.find sampleId = none := rfl
    cases hgone.symm.trans hrow
  · exact hoverlooked

end BaseSkeleton.Users
