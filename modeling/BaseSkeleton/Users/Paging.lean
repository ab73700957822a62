import BaseSkeleton.Lib.Sorted
import BaseSkeleton.Users.Grammar

/-!
# Listing the users page by page

`ListUsersInput` of `src/application/user/dto.rs`, the `list` query of the repository, the use case
and the handler `list_users`. The numbers are the machine integers of the source.

* `offset_exact` — the offset of a page does not overflow, and fits the `BIGINT` it is bound as.
* `execute_page` — a page is a slice of the table in the order of the query.
* `paging_partitions` — the pages one after the other are the table.
-/

namespace BaseSkeleton.Users

open Text (CaseMapping)

/-! ## The input

The page and its size are clamped before anything is computed, so that the offset stays far below
the bound of an `i64`. -/

@[ext] structure ListUsersInput where
  page : UInt32
  perPage : UInt32

/-- `clamp`. -/
def clamp (value low high : UInt32) : UInt32 :=
  if value < low then low else if high < value then high else value

namespace ListUsersInput

def normalized (input : ListUsersInput) : ListUsersInput where
  page := max input.page 1
  perPage := clamp input.perPage 1 100

def offset (input : ListUsersInput) : UInt64 :=
  (input.normalized.page - 1).toUInt64 * input.normalized.perPage.toUInt64

variable (input : ListUsersInput)

theorem page_normalized : input.normalized.page.toNat = max input.page.toNat 1 := by
  show (if input.page ≤ 1 then 1 else input.page : UInt32).toNat = _
  split
  · next hone =>
    simp only [UInt32.le_iff_toNat_le, UInt32.reduceToNat] at hone ⊢
    omega
  · next hmore =>
    simp only [UInt32.le_iff_toNat_le, UInt32.reduceToNat] at hmore
    omega

theorem perPage_normalized :
    input.normalized.perPage.toNat = min (max input.perPage.toNat 1) 100 := by
  unfold normalized clamp
  simp only [UInt32.lt_iff_toNat_lt, UInt32.reduceToNat]
  split
  · simp only [UInt32.reduceToNat]
    omega
  · split
    · simp only [UInt32.reduceToNat]
      omega
    · omega

@[simp] theorem normalized_normalized : input.normalized.normalized = input.normalized := by
  have hpage : input.normalized.normalized.page = input.normalized.page := by
    rw [← UInt32.toNat_inj, page_normalized, page_normalized]
    omega
  have hperPage : input.normalized.normalized.perPage = input.normalized.perPage := by
    rw [← UInt32.toNat_inj, perPage_normalized, perPage_normalized]
    omega
  exact ListUsersInput.ext hpage hperPage

end ListUsersInput

/-- `i64::MAX`. -/
def i64Max : Int := 9223372036854775807

/-- `i64::try_from`. -/
def i64TryFrom (value : UInt64) : Option Int :=
  if (value.toNat : Int) ≤ i64Max then some value.toNat else none

/-- **The offset of a page** is computed without overflow, and bound as it is. -/
theorem offset_exact (input : ListUsersInput) :
    1 ≤ input.normalized.page.toNat ∧
      input.offset.toNat =
        (input.normalized.page.toNat - 1) * input.normalized.perPage.toNat ∧
      i64TryFrom input.offset = some (input.offset.toNat : Int) := by
  have hpage := input.page_normalized
  have hperPage := input.perPage_normalized
  have hbound := input.page.toNat_lt
  have hpos : 1 ≤ input.normalized.page.toNat := by omega
  have hone : (1 : UInt32) ≤ input.normalized.page := hpos
  have hproduct : (input.normalized.page.toNat - 1) * input.normalized.perPage.toNat ≤
      2 ^ 32 * 100 := Nat.mul_le_mul (by omega) (by omega)
  have hoffset : input.offset.toNat =
      (input.normalized.page.toNat - 1) * input.normalized.perPage.toNat := by
    unfold ListUsersInput.offset
    rw [UInt64.toNat_mul, UInt32.toNat_toUInt64, UInt32.toNat_toUInt64,
      UInt32.toNat_sub_of_le _ _ hone]
    exact Nat.mod_eq_of_lt (Nat.lt_of_le_of_lt hproduct (by decide))
  refine ⟨hpos, hoffset, ?_⟩
  unfold i64TryFrom i64Max
  rw [if_pos (by omega)]

/-! ## The query

The order by `created_at` and `id` is total on the rows of a table, so that a table has one order.
-/

/-- `ORDER BY created_at DESC, id DESC`. -/
def listOrder (r s : UserRow) : Prop :=
  s.createdAt < r.createdAt ∨ (r.createdAt = s.createdAt ∧ s.id ≤ r.id)

instance : DecidableRel listOrder := fun _ _ =>
  inferInstanceAs (Decidable (_ ∨ (_ ∧ _)))

instance : Std.Total listOrder where
  total r s := by
    unfold listOrder
    simp only [BitVec.le_def]
    lia

instance : IsTrans UserRow listOrder where
  trans r s t hrs hst := by
    unfold listOrder at *
    simp only [BitVec.le_def] at *
    lia

/-- Rows that come before each other have one `id`. -/
theorem id_of_listOrder {r s : UserRow} (hrs : listOrder r s) (hsr : listOrder s r) :
    r.id = s.id := by
  unfold listOrder at *
  simp only [BitVec.le_def] at *
  refine BitVec.eq_of_toNat_eq ?_
  lia

/-- The table in the order of the query. -/
def UserTable.ordered (T : UserTable) : List UserRow :=
  T.rows.insertionSort listOrder

/-- There is one list with the rows of the table in this order. -/
theorem UserTable.ordered_unique {T : UserTable} {rows : List UserRow} (hperm : rows.Perm T.rows)
    (hsorted : rows.Pairwise listOrder) : T.ordered = rows := by
  have hordered : T.ordered.Perm T.rows := List.perm_insertionSort listOrder T.rows
  refine List.Perm.eq_of_pairwise (fun r s hr hs hrs hsr => ?_)
    (List.pairwise_insertionSort listOrder T.rows) hsorted (hordered.trans hperm.symm)
  exact List.inj_on_of_nodup_map T.keyed (hordered.subset hr) (hperm.subset hs)
    (id_of_listOrder hrs hsr)

variable {u : CaseMapping}

/-- `list`; a query that fails has no rows. -/
def PostgresUserRepository.list (u : CaseMapping) (fails : Bool) (limit : UInt32)
    (offset : UInt64) (T : UserTable) : Except RepositoryError (List (User u)) :=
  if fails then .error .unavailable
  else
    let skipped := (i64TryFrom offset).getD i64Max
    ((T.ordered.drop skipped.toNat).take limit.toNat).mapM (UserRow.intoDomain u)

/-! ## The use case and the handler -/

def ListUsersUseCase.execute (u : CaseMapping) (fails : Bool) (input : ListUsersInput)
    (T : UserTable) : Except ApplicationError (List (User u)) :=
  let input := input.normalized
  (PostgresUserRepository.list u fails input.perPage input.offset T).mapError .fromRepository

/-- The query string, with its defaults. -/
structure ListUsersQuery where
  page : UInt32 := 1
  perPage : UInt32 := 20

/-- `From<ListUsersQuery>`. -/
def ListUsersInput.from (query : ListUsersQuery) : ListUsersInput :=
  (ListUsersInput.mk query.page query.perPage).normalized

structure UserResponse where
  id : String
  email : String
  displayName : String
  createdAt : String
  updatedAt : String

/-- `From<User>`; `rfc3339` is `DateTime::to_rfc3339`. -/
def UserResponse.from (uuid : UuidText) (rfc3339 : Instant → String) (user : User u) :
    UserResponse where
  id := uuid.toString user.id
  email := user.email.asStr
  displayName := user.displayName.asStr
  createdAt := rfc3339 user.createdAt
  updatedAt := rfc3339 user.updatedAt

structure UserListEnvelope where
  data : List UserResponse
  page : UInt32
  perPage : UInt32

/-- The handler `list_users`. -/
def listUsers (u : CaseMapping) (uuid : UuidText) (rfc3339 : Instant → String) (fails : Bool)
    (query : ListUsersQuery) (T : UserTable) : Except ApplicationError UserListEnvelope := do
  let input := ListUsersInput.from query
  let users ← ListUsersUseCase.execute u fails input T
  return ⟨users.map (UserResponse.from uuid rfc3339), input.page, input.perPage⟩

/-! ## Pages

A page is a slice of the ordered rows. The slices of one size, one after the other, are all of them.
-/

variable {T : UserTable} {input : ListUsersInput}

/-- **A page is a slice of the ordered table.** -/
theorem execute_page (T : UserTable) (input : ListUsersInput) :
    ListUsersUseCase.execute u false input T =
      ((T.ordered.page input.normalized.perPage.toNat (input.normalized.page.toNat - 1)).mapM
        (UserRow.intoDomain u)).mapError .fromRepository := by
  unfold ListUsersUseCase.execute PostgresUserRepository.list List.page
  obtain ⟨_, hoffset, hi64⟩ := offset_exact input.normalized
  simp only [input.normalized_normalized] at hoffset
  simp only [Bool.false_eq_true, if_false, hi64, Option.getD_some, Int.toNat_natCast, hoffset]

/-- Every row of the table is read back. -/
def UserTable.Readable (u : CaseMapping) (T : UserTable) : Prop :=
  ∀ row ∈ T.rows, ∃ user : User u, row.intoDomain u = .ok user

/-- What a statement of the repository makes of a table. -/
inductive Written (u : CaseMapping) (T : UserTable) : UserTable → Prop where
  | insert (user : User u) (T' : UserTable) (h : T.insert (.bound user) = .ok T') : Written u T T'
  | update (id : UserId) (email : Email u) (displayName : DisplayName) (now : Instant)
      (T' : UserTable) (returned : Option UserRow)
      (h : T.update id email.asStr displayName.asStr now = .ok (T', returned)) : Written u T T'
  | delete (id : UserId) : Written u T (T.delete id).1

/-- The repository writes rows that it reads back. -/
theorem Written.readable {T' : UserTable} (h : Written u T T') (hread : T.Readable u) :
    T'.Readable u := by
  intro row hrow
  cases h with
  | insert user _ h =>
    rw [(UserTable.insert_eq_ok h).1, List.mem_append, List.mem_singleton] at hrow
    rcases hrow with hold | hnew
    · exact hread row hold
    · rw [hnew, intoDomain_bound]
      exact ⟨_, rfl⟩
  | update id email displayName now _ returned h =>
    rw [(UserTable.update_eq_ok h).1] at hrow
    obtain ⟨before, hbefore, hset⟩ := List.mem_map.mp hrow
    rw [← hset]
    split
    · exact ⟨_, intoDomain_parsed before.id email displayName before.createdAt now⟩
    · exact hread before hbefore
  | delete id => exact hread row (List.mem_of_mem_filter hrow)

/-- A page of a readable table is returned. -/
theorem execute_readable (hread : T.Readable u) (input : ListUsersInput) :
    ∃ users, ListUsersUseCase.execute u false input T = .ok users := by
  have hrows : ∀ row ∈ T.ordered.page input.normalized.perPage.toNat
      (input.normalized.page.toNat - 1), ∃ user : User u, row.intoDomain u = .ok user := by
    intro row hrow
    have hordered : row ∈ T.ordered := List.mem_of_mem_drop (List.mem_of_mem_take hrow)
    exact hread row ((List.perm_insertionSort listOrder T.rows).subset hordered)
  obtain ⟨users, husers⟩ := Except.mapM_of_forall hrows
  refine ⟨users, ?_⟩
  rw [execute_page, Except.mapError_eq_ok]
  exact husers

/-- The page with a number that a `u32` holds. -/
theorem execute_numbered {perPage : UInt32} {k : Nat} (hk : k + 1 < 2 ^ 32)
    {users : List (User u)} :
    ListUsersUseCase.execute u false ⟨UInt32.ofNat (k + 1), perPage⟩ T = .ok users ↔
      (T.ordered.page (min (max perPage.toNat 1) 100) k).mapM (UserRow.intoDomain u) =
        .ok users := by
  have hpage : (UInt32.ofNat (k + 1)).toNat = k + 1 := Nat.mod_eq_of_lt hk
  rw [execute_page, Except.mapError_eq_ok, ListUsersInput.perPage_normalized,
    ListUsersInput.page_normalized, hpage, show max (k + 1) 1 - 1 = k by omega]

/-- **Consecutive pages are the beginning of the ordered table.** -/
theorem execute_pages {perPage : UInt32} {n : Nat} {users : Nat → List (User u)} (hn : n < 2 ^ 32)
    (h : ∀ k < n, ListUsersUseCase.execute u false ⟨UInt32.ofNat (k + 1), perPage⟩ T =
      .ok (users k)) :
    (T.ordered.take (n * min (max perPage.toNat 1) 100)).mapM (UserRow.intoDomain u) =
      .ok ((List.range n).flatMap users) := by
  induction n with
  | zero => simp; rfl
  | succ n ih =>
    have hbefore := ih (by omega) fun k hk => h k (by omega)
    have hlast := (execute_numbered hn).mp (h n (by omega))
    rw [← List.take_append_page, List.range_succ, List.flatMap_append, List.flatMap_singleton]
    exact Except.mapM_append_ok hbefore hlast

/-- An empty page ends the table. -/
theorem execute_empty {perPage : UInt32} {k : Nat} (hk : k + 1 < 2 ^ 32) :
    ListUsersUseCase.execute u false ⟨UInt32.ofNat (k + 1), perPage⟩ T = .ok [] ↔
      T.ordered.length ≤ k * min (max perPage.toNat 1) 100 := by
  rw [execute_numbered hk]
  have hpos : 0 < min (max perPage.toNat 1) 100 := by omega
  have hpage : T.ordered.page (min (max perPage.toNat 1) 100) k = [] ↔
      T.ordered.length ≤ k * min (max perPage.toNat 1) 100 := by
    unfold List.page
    rw [List.take_eq_nil_iff, List.drop_eq_nil_iff]
    omega
  rw [← hpage]
  constructor
  · exact Except.eq_nil_of_mapM
  · intro hnil
    rw [hnil]
    rfl

/-- The rows of page `page`, in an order of the table. -/
def pageRows (rows : List UserRow) (page perPage : UInt32) : List UserRow :=
  (rows.drop ((page.toNat - 1) * perPage.toNat)).take perPage.toNat

/-- **Paging partitions the table.** Let `rows` be the table in the order of the query.

* The offset of every input is computed without overflow, and bound as it is.
* As long as the calls are answered, the users of pages `1 .. n` are the first `n * q` rows, each
  once; the pages before an empty one are the whole table, and a page is empty exactly if the ones
  before it have every row.
* Every page of a readable table is answered, and what the repository writes leaves a table
  readable.
* Page 0 is page 1.
* A response names the page and the size that its rows are selected by. -/
theorem paging_partitions (u : CaseMapping) (T : UserTable) (rows : List UserRow)
    (hperm : rows.Perm T.rows) (hsorted : rows.Pairwise listOrder) :
    (∀ input : ListUsersInput, 1 ≤ input.normalized.page.toNat ∧
      input.offset.toNat = (input.normalized.page.toNat - 1) * input.normalized.perPage.toNat ∧
      i64TryFrom input.offset = some (input.offset.toNat : Int)) ∧
    (∀ (perPage : UInt32) (n : Nat) (users : Nat → List (User u)), n < 2 ^ 32 →
      (∀ k < n, ListUsersUseCase.execute u false ⟨UInt32.ofNat (k + 1), perPage⟩ T =
        .ok (users k)) →
      (rows.take (n * min (max perPage.toNat 1) 100)).mapM (UserRow.intoDomain u) =
        .ok ((List.range n).flatMap users) ∧
      ∀ k < n, users k = [] →
        rows.mapM (UserRow.intoDomain u) = .ok ((List.range k).flatMap users)) ∧
    (∀ (perPage : UInt32) (k : Nat), k + 1 < 2 ^ 32 →
      (ListUsersUseCase.execute u false ⟨UInt32.ofNat (k + 1), perPage⟩ T = .ok [] ↔
        rows.length ≤ k * min (max perPage.toNat 1) 100)) ∧
    (T.Readable u →
      (∀ input, ∃ users, ListUsersUseCase.execute u false input T = .ok users) ∧
      ∀ T', Written u T T' → T'.Readable u) ∧
    (∀ perPage, ListUsersUseCase.execute u false ⟨0, perPage⟩ T =
      ListUsersUseCase.execute u false ⟨1, perPage⟩ T) ∧
    ∀ (uuid : UuidText) (rfc3339 : Instant → String) (query : ListUsersQuery)
      (envelope : UserListEnvelope),
      listUsers u uuid rfc3339 false query T = .ok envelope →
      envelope.page = max query.page 1 ∧ envelope.perPage = clamp query.perPage 1 100 ∧
      ∃ users, (pageRows rows envelope.page envelope.perPage).mapM (UserRow.intoDomain u) =
          .ok users ∧
        envelope.data = users.map (UserResponse.from uuid rfc3339) := by
  -- The order is total, so the sorted rows are the ones the query reads.
  have hordered : T.ordered = rows := UserTable.ordered_unique hperm hsorted
  subst hordered
  refine ⟨offset_exact, ?_, ?_, ?_, ?_, ?_⟩
  · intro perPage n users hn hcalls
    refine ⟨execute_pages hn hcalls, fun k hk hempty => ?_⟩
    have hbefore := execute_pages (Nat.lt_trans hk hn) fun j hj => hcalls j (Nat.lt_trans hj hk)
    have hnone := hcalls k hk
    rw [hempty, execute_empty (Nat.lt_of_le_of_lt hk hn)] at hnone
    rwa [List.take_of_length_le hnone] at hbefore
  · intro perPage k hk
    exact execute_empty hk
  · intro hread
    exact ⟨execute_readable hread, fun T' hwritten => hwritten.readable hread⟩
  · intro perPage
    rw [execute_page, execute_page]
    rfl
  · intro uuid rfc3339 query envelope h
    obtain ⟨users, husers, henvelope⟩ := Except.bind_eq_ok.mp h
    rw [← Except.pure_eq_ok.mp henvelope]
    refine ⟨rfl, rfl, users, ?_, rfl⟩
    rw [execute_page, Except.mapError_eq_ok] at husers
    simp only [ListUsersInput.from, ListUsersInput.normalized_normalized] at husers
    exact husers

/-- Two users of one instant. -/
def pagedTable : UserTable where
  rows := [⟨1, "a@b.c", "Al", 1000, 1000⟩, ⟨2, "b@b.c", "Bo", 1000, 1000⟩]
  emailConstraint := .usersEmailUnique
  keyed := by decide
  unique := by decide

theorem paging_partitions_sample :
    ListUsersUseCase.execute Text.asciiCase false ⟨UInt32.ofNat (2 + 1), 1⟩ pagedTable = .ok [] :=
  ((paging_partitions Text.asciiCase pagedTable
    [⟨2, "b@b.c", "Bo", 1000, 1000⟩, ⟨1, "a@b.c", "Al", 1000, 1000⟩]
    (List.Perm.swap _ _ _) (by decide)).2.2.1 1 2 (by decide)).mpr (by decide)

end BaseSkeleton.Users
