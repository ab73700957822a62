import BaseSkeleton.Users.CacheFailures

/-!
# Use cases at the same time

Every call succeeds and the use cases run next to each other. A use case asks the repository and
writes the cache in two steps, and nothing compares the versions of what is cached: a thread that
is overtaken between its two steps caches what is no longer the row.

* `coherent_unless_reordered` — nothing else leaves a wrong entry when all threads have returned.
* `deleted_user_cached` — a deleted user that `GetUser` goes on to return.
-/

namespace BaseSkeleton.Users

open Text (CaseMapping)
open Program (Exchange)

variable {u : CaseMapping} {service : UserService} {database : Database} {s : ServicePool u}
  {id : UserId}

/-- Calls of the repository and of the cache succeed, and take effect. -/
def Succeeds (_ : ServicePool u) : ServiceInput → Prop
  | .call _ w => w.queryFails = false ∧ w.cache = .done ∧ w.transaction.commit ≠ .replyLost
  | _ => True

instance (s : ServicePool u) : (input : ServiceInput) → Decidable (Succeeds s input)
  | .start _ => .isTrue trivial
  | .call _ w => inferInstanceAs (Decidable (w.queryFails = false ∧ w.cache = .done ∧ _))
  | .disturb _ => .isTrue trivial

/-- Threads `i` and `j` asked the repository in one order, and wrote the cache in the other: `i`
got `user`, then `j` wrote the user and its entry, and then `i` cached what it had got. -/
structure Reordered (log : List (Nat × Exchange (Reply u))) (user : User u) (i j : Nat) :
    Prop where
  differ : i ≠ j
  order : ∃ set told wrote got,
    List.Sublist [(i, set), (j, told), (j, wrote), (i, got)] log ∧
      (∃ ttlSeconds, set.1 = .cacheSet user ttlSeconds) ∧ told.1.cacheWrites user.id ∧
      Writes user.id wrote ∧ Yields user got

theorem answer_done {w : Circumstances} (hw : w.cache = .done) (c : Call u) (s : Stores) :
    ¬ CacheFails ⟨c, (answer w c s).1⟩ := by
  intro hfails
  cases c with
  | cacheSet user ttlSeconds =>
    obtain ⟨e, herror⟩ := hfails
    have hdone : (RedisUserCache.set w.cache user s.entries).1 = .ok () := by rw [hw]; rfl
    cases hdone.symm.trans herror
  | cacheDelete id =>
    obtain ⟨e, herror⟩ := hfails
    have hdone : (RedisUserCache.delete w.cache id s.entries).1 = .ok () := by rw [hw]; rfl
    cases hdone.symm.trans herror
  | _ => exact hfails

/-- No write to the cache has failed. -/
theorem reachable_no_failures
    (h : ((Pool.machine (service.setup u database)).restrict Succeeds).Reachable s) :
    ∀ e ∈ s.log, ¬ CacheFails e.2 := by
  refine Machine.Reachable.restrict_invariant (P := fun s => ∀ e ∈ s.log, ¬ CacheFails e.2)
    (fun e he => absurd he List.not_mem_nil) ?_ h
  intro s input s' _ hlog hallowed hstep
  cases Pool.step_steps hstep with
  | start request => exact hlog
  | call i w request c k hthread =>
    exact List.forall_mem_cons.mpr ⟨answer_done hallowed.2.1 c s.store, hlog⟩
  | disturb id => exact hlog

/-- Part of a log, and an entry that came later. -/
theorem sublist_later {ε : Type} {e : ε} {newer older part : List ε} (h : List.Sublist part older) :
    List.Sublist (e :: part) (newer ++ e :: older) :=
  List.sublist_append_of_sublist_right (h.cons_cons e)

/-- **Who has overtaken an entry** has written it before. -/
theorem overtaken_reordered (hinv : Pool.Inv (service.setup u database) s) (h : Traced s)
    (hworks : ∀ e ∈ s.log, ¬ CacheFails e.2) (hq : s.Quiescent) {user : User u} {i : Nat}
    {set got : Exchange (Reply u)} {newer between older : List (Nat × Exchange (Reply u))}
    (hover : Overtaken s.log user newer i set between got older) :
    ∃ j, Reordered s.log user i j := by
  have hlog := hover.log_eq
  have hquiet : ∀ e ∈ newer, ¬ e.2.1.cacheWrites user.id := fun e he hcache =>
    hworks e (by simp [hlog, he]) (hover.kept e he hcache)
  obtain ⟨⟨j, wrote⟩, hmem, hwrites⟩ := hover.written
  have hreturned : ∀ n o, s.log = n ++ (j, wrote) :: o →
      ∃ told, (j, told) ∈ n ∧ told.1.cacheWrites user.id := by
    intro n o hsplit
    obtain ⟨t, ht, _⟩ := called_promise hinv hsplit
    have hdone := hq t (List.mem_of_getElem? ht)
    cases hrest : t.rest with
    | ret response =>
      obtain ⟨_, told, htold, hcache⟩ := writer_returned hinv h hsplit hwrites ht hrest
      exact ⟨told, Pool.mem_exchanges.mp htold, hcache⟩
    | call c k =>
      rw [hrest] at hdone
      cases hdone
  rcases List.mem_append.mp hmem with hmem | hmem
  · -- a write since the entry was cached would have been followed by another entry
    obtain ⟨newest, rest, hsplit⟩ := List.append_of_mem hmem
    obtain ⟨told, htold, hcache⟩ :=
      hreturned newest (rest ++ (i, set) :: (between ++ (i, got) :: older)) (by simp [hlog, hsplit])
    exact absurd hcache (hquiet (j, told) (by simp [hsplit, htold]))
  · obtain ⟨after, before, hsplit⟩ := List.append_of_mem hmem
    have hlog' : s.log = (newer ++ (i, set) :: after) ++
        (j, wrote) :: (before ++ (i, got) :: older) := by
      rw [hlog, hsplit]
      simp
    have hmem' : (i, got) ∈ before ++ (i, got) :: older := by simp
    have hne : i ≠ j :=
      asks_once hinv hlog' hwrites.asksRepository hmem' hover.got_user.asksRepository
    obtain ⟨told, htold, hcache⟩ := hreturned _ _ hlog'
    refine ⟨j, hne, set, told, wrote, got, ?_, hover.set_eq, hcache, hwrites, hover.got_user⟩
    have htold' : (j, told) ∈ after := by
      rcases List.mem_append.mp htold with hnew | hafter
      · exact absurd hcache (hquiet (j, told) hnew)
      · rcases List.mem_cons.mp hafter with heq | hafter
        · exact absurd (Prod.mk.inj heq).1.symm hne
        · exact hafter
    obtain ⟨after', between', hafter⟩ := List.append_of_mem htold'
    rw [hlog, hsplit, hafter, List.append_assoc, List.append_assoc]
    exact sublist_later (sublist_later (sublist_later (sublist_later (List.nil_sublist _))))

/-- **When all have returned**, the entry of a user is absent, or the row of the user, or was left
by two threads whose writes to the cache came in the other order than their calls of the
repository. -/
theorem coherent_unless_reordered (service : UserService) (database : Database)
    (h : ((Pool.machine (service.setup u database)).restrict Succeeds).Reachable s)
    (hq : s.Quiescent) (id : UserId) :
    s.store.entries id = none ∨ s.store.Current u id ∨
      ∃ (user : User u) (i j : Nat), s.store.entries id = some (.from user) ∧ user.id = id ∧
        Reordered s.log user i j := by
  have hinv : Pool.Inv (service.setup u database) s := Pool.reachable_inv h.of_restrict
  have htraced : Traced s := reachable_traced (fun _ _ _ hallowed => hallowed.2.2) h
  cases hentry : s.store.entries id with
  | none => exact Or.inl rfl
  | some entry =>
    obtain ⟨user, hid, hfrom, hcases⟩ := entry_cases hinv htraced hentry
    right
    rcases hcases with hholds | ⟨newer, i, set, between, got, older, hover⟩
    · left
      rw [hfrom] at hentry
      rw [← hid] at hentry ⊢
      exact hholds.current hentry
    · right
      obtain ⟨j, hreordered⟩ :=
        overtaken_reordered hinv htraced (reachable_no_failures h) hq hover
      exact ⟨user, i, j, by rw [hfrom], hid, hreordered⟩

/-! ## A get that is overtaken by a delete

The get has read the row before the DELETE, and writes it to the cache after the entry was deleted.
-/

/-- A get has read the user when the user is deleted, and caches it afterwards; another get. -/
def overtakenGet : List ServiceInput :=
  [.call 2 sampleCircumstances, .start (.get sampleId), .call 0 sampleCircumstances,
    .call 1 sampleCircumstances, .call 1 sampleCircumstances, .start (.delete sampleId),
    .call 0 sampleCircumstances, .call 0 sampleCircumstances, .start (.get sampleId)]

theorem overtakenGet_possible :
    (((Pool.machine (sampleService.setup Text.asciiCase storedDatabase)).restrict
      Succeeds).run overtakenGet).isSome := by
  decide

/-- The server when all three have returned. -/
def overtakenGetState : ServicePool Text.asciiCase :=
  (((Pool.machine (sampleService.setup Text.asciiCase storedDatabase)).restrict
    Succeeds).run overtakenGet).get overtakenGet_possible

theorem overtakenGetState_quiescent : overtakenGetState.Quiescent := by
  decide

theorem overtakenGetState_gone :
    overtakenGetState.store.database.users.find sampleId = none := rfl

theorem coherent_unless_reordered_sample :
    ∃ (user : User Text.asciiCase) (i j : Nat),
      overtakenGetState.store.entries sampleId = some (.from user) ∧ user.id = sampleId ∧
        Reordered overtakenGetState.log user i j := by
  have hreach := Machine.reachable_get overtakenGet_possible
  obtain hnone | ⟨_, row, _, hrow, _⟩ | hreordered :=
    coherent_unless_reordered sampleService storedDatabase hreach overtakenGetState_quiescent
      sampleId
  · exact absurd hnone (by decide)
  · cases overtakenGetState_gone.symm.trans hrow
  · exact hreordered

/-- The user is deleted, all have returned, and the cache still holds the user, whom the last get
has returned. -/
theorem deleted_user_cached :
    ((Pool.machine (sampleService.setup Text.asciiCase storedDatabase)).restrict
      Succeeds).Reachable overtakenGetState ∧ overtakenGetState.Quiescent ∧
    ¬ (overtakenGetState.store.entries sampleId = none ∨
      overtakenGetState.store.Current Text.asciiCase sampleId) ∧
    ∃ user, overtakenGetState.threads[2]? = some ⟨.get sampleId, .ret (.ok (some user))⟩ := by
  refine ⟨Machine.reachable_get overtakenGet_possible, overtakenGetState_quiescent, ?_, ?_⟩
  · intro h
    rcases h with hnone | ⟨_, row, _, hrow, _⟩
    · exact absurd hnone (by decide)
    · cases overtakenGetState_gone.symm.trans hrow
  · exact ⟨⟨sampleId, sampleEmail, sampleName, 0, 0⟩, rfl⟩

end BaseSkeleton.Users
