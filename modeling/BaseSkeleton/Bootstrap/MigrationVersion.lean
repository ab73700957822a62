import BaseSkeleton.Environment
import BaseSkeleton.Users.Domain

/-!
# The version of a new migration

`next_migration_version` of `src/bootstrap/database.rs`: the versions of the migrations there are
read off the names of their files, in the order the directory is listed in, and the new version is
raised above each of them.

* `versionOf` — the version of one file.
* `IsNext` — what the loop comes to; it does not speak of an order.
* `nextMigrationVersion_eq_ok` / `nextMigrationVersion_eq_error` — when it succeeds, when it fails.
* `next_migration_version_sorts_last` — the value, when there is none, and that the order of the
  listing does not matter.
-/

namespace BaseSkeleton.Bootstrap

open Users.Email (splitOnce)

/-! ## Numbers and names -/

/-- `str::parse::<i64>`; which error there is, is not looked at. -/
def parseI64 (value : String) : Option Int64 :=
  match value.toList with
  | [] => none
  | ['+'] => none
  | ['-'] => none
  | '-' :: digits =>
    ((digits.foldlM (pushDigit (2 ^ 63 + 1)) 0).toOption).map fun n => Int64.ofInt (-(n : Int))
  | '+' :: digits => ((digits.foldlM (pushDigit (2 ^ 63)) 0).toOption).map Int64.ofNat
  | digits => ((digits.foldlM (pushDigit (2 ^ 63)) 0).toOption).map Int64.ofNat

/-- `i64::checked_add`. -/
def checkedAdd (a b : Int64) : Option Int64 :=
  if -2 ^ 63 ≤ a.toInt + b.toInt ∧ a.toInt + b.toInt < 2 ^ 63 then some (a + b) else none

/-- `str::as_bytes`. -/
def asBytes (s : String) : List UInt8 :=
  s.toByteArray.data.toList

/-- `std::ffi::OsString`: the name of a file is any sequence of bytes. -/
structure OsString where
  bytes : List UInt8
deriving DecidableEq

namespace OsString

/-- `OsStr::to_str`. -/
def toStr (name : OsString) : Option String :=
  String.fromUTF8? ⟨name.bytes.toArray⟩

/-- `OsString::from`. -/
def ofStr (name : String) : OsString :=
  ⟨asBytes name⟩

end OsString

/-- The text of an `io::Error`. -/
abbrev IoError := String

/-! ## The loop -/

/-- The version a file name begins with. -/
def versionOf (fileName : OsString) : Option Int64 := do
  let fileName ← fileName.toStr
  let (pre, _) ← splitOnce '_' fileName.toList
  parseI64 (.ofList pre)

/-- The body of the loop, for a file; a `continue` leaves the version as it is. -/
def raise (nextVersion : Int64) (fileName : OsString) : Except AnyhowError Int64 :=
  match versionOf fileName with
  | none => .ok nextVersion
  | some existingVersion =>
    if existingVersion ≥ nextVersion then
      .ofOption ["migration version overflow"] (checkedAdd existingVersion 1)
    else .ok nextVersion

/-- `next_migration_version`; `readDir` is what listing the directory yields. -/
def nextMigrationVersion (migrationsDir : String)
    (readDir : Except IoError (List (Except IoError OsString))) (version : Int64) :
    Except AnyhowError Int64 := do
  let entries ← withContext ("could not read migration directory " ++ migrationsDir) readDir
  entries.foldlM (fun nextVersion entry => do
    let fileName ← withContext "could not read migration directory entry" entry
    raise nextVersion fileName) version

variable {version next next' : Int64} {fileName : OsString} {migrationsDir : String}

/-! ## One file

What one turn of the loop does with a name, in terms of the integers the versions stand for: the
sums of the code are `i64`, and fail above `i64::MAX`. -/

/-- The successor, as an integer. -/
theorem checkedAdd_one_eq_some {a b : Int64} : checkedAdd a 1 = some b ↔ b.toInt = a.toInt + 1 := by
  have hone : (1 : Int64).toInt = 1 := rfl
  have hlow := a.le_toInt
  have hhigh := b.toInt_lt
  unfold checkedAdd
  rw [hone]
  constructor
  · intro h
    split at h
    · next hfits =>
      rw [← Option.some.inj h, Int64.toInt_add, hone]
      exact Int.bmod_eq_of_le (by omega) (by omega)
    · cases h
  · intro h
    have hsum : (a + 1).toInt = b.toInt := by
      rw [Int64.toInt_add, hone, h]
      exact Int.bmod_eq_of_le (by omega) (by omega)
    rw [if_pos (by omega), Int64.toInt_inj.mp hsum]

/-- Only the largest version has no successor. -/
theorem checkedAdd_one_eq_none {a : Int64} : checkedAdd a 1 = none ↔ a = Int64.maxValue := by
  have hone : (1 : Int64).toInt = 1 := rfl
  have hlow := a.le_toInt
  have hhigh := a.toInt_lt
  unfold checkedAdd
  rw [hone, ← Int64.toInt_inj, Int64.toInt_maxValue]
  constructor
  · intro h
    split at h
    · cases h
    · omega
  · intro h
    exact if_neg (by omega)

/-- The version stays above the file's, or is raised to one more than it. -/
theorem raise_ok (h : raise next fileName = .ok next') :
    (next' = next ∧ ∀ v, versionOf fileName = some v → v < next) ∨
      ∃ v, versionOf fileName = some v ∧ next ≤ v ∧ next'.toInt = v.toInt + 1 := by
  unfold raise at h
  split at h
  · next hnone =>
    left
    refine ⟨(Except.ok.inj h).symm, fun v hv => ?_⟩
    rw [hnone] at hv
    cases hv
  · next existing hsome =>
    split at h
    · next hle =>
      right
      rw [Except.ofOption_eq_ok, checkedAdd_one_eq_some] at h
      exact ⟨existing, hsome, hle, h⟩
    · next hlt =>
      left
      refine ⟨(Except.ok.inj h).symm, fun v hv => ?_⟩
      rw [hsome] at hv
      rw [← Option.some.inj hv]
      exact Int64.not_le.mp hlt

/-- There is no version above the greatest one. -/
theorem raise_error {error : AnyhowError} (h : raise next fileName = .error error) :
    error = ["migration version overflow"] ∧ versionOf fileName = some Int64.maxValue := by
  unfold raise at h
  split at h
  · cases h
  · next existing hsome =>
    split at h
    · cases hadd : checkedAdd existing 1 with
      | none =>
        rw [hadd] at h
        exact ⟨(Except.error.inj h).symm, by rw [hsome, checkedAdd_one_eq_none.mp hadd]⟩
      | some sum =>
        rw [hadd] at h
        cases h
    · cases h

/-! ## The whole listing

`IsNext` speaks of the versions there are, not of a list of them. So it cannot depend on an order,
and the loop only has to keep it. -/

/-- `next` is the version that follows `version` and all of `existing`. -/
structure IsNext (version : Int64) (existing : Int64 → Prop) (next : Int64) : Prop where
  above : ∀ v, existing v → v < next
  start : version ≤ next
  reached : next = version ∨ ∃ v, existing v ∧ next.toInt = v.toInt + 1

/-- Nothing exists yet. -/
theorem isNext_none {existing : Int64 → Prop} (h : ∀ v, ¬ existing v) :
    IsNext version existing version where
  above v hv := absurd hv (h v)
  start := Int64.le_refl version
  reached := Or.inl rfl

/-- **One more file.** -/
theorem IsNext.raise {existing : Int64 → Prop} (h : IsNext version existing next)
    (hraise : raise next fileName = .ok next') :
    IsNext version (fun v => existing v ∨ versionOf fileName = some v) next' := by
  have hstart := Int64.le_iff_toInt_le.mp h.start
  rcases raise_ok hraise with ⟨rfl, hbelow⟩ | ⟨w, hw, hle, hnext⟩
  · refine ⟨?_, h.start, ?_⟩
    · intro v hv
      exact hv.elim (h.above v) (hbelow v)
    · rcases h.reached with heq | ⟨v, hv, hsucc⟩
      · exact Or.inl heq
      · exact Or.inr ⟨v, Or.inl hv, hsucc⟩
  · rw [Int64.le_iff_toInt_le] at hle
    refine ⟨?_, ?_, Or.inr ⟨w, Or.inr hw, hnext⟩⟩
    · intro v hv
      rw [Int64.lt_iff_toInt_lt]
      rcases hv with hv | hv
      · have habove := Int64.lt_iff_toInt_lt.mp (h.above v hv)
        omega
      · rw [hw] at hv
        rw [← Option.some.inj hv]
        omega
    · rw [Int64.le_iff_toInt_le]
      omega

/-- The version that comes next is the greater one of the start and the successor of the greatest
version there is. -/
theorem IsNext.toInt_eq {existing : Int64 → Prop} (h : IsNext version existing next) {m : Int64}
    (hm : existing m) (hmax : ∀ v, existing v → v ≤ m) :
    next.toInt = max version.toInt (m.toInt + 1) := by
  have habove := Int64.lt_iff_toInt_lt.mp (h.above m hm)
  have hstart := Int64.le_iff_toInt_le.mp h.start
  rcases h.reached with heq | ⟨v, hv, hsucc⟩
  · rw [heq] at habove ⊢
    omega
  · have hle := Int64.le_iff_toInt_le.mp (hmax v hv)
    omega

/-- There is at most one next version. -/
theorem IsNext.eq {existing : Int64 → Prop} (h : IsNext version existing next)
    (h' : IsNext version existing next') : next = next' := by
  have key : ∀ {a b : Int64}, IsNext version existing a → IsNext version existing b → a ≤ b := by
    intro a b ha hb
    rcases ha.reached with heq | ⟨v, hv, hsucc⟩
    · exact heq ▸ hb.start
    · have habove := Int64.lt_iff_toInt_lt.mp (hb.above v hv)
      rw [Int64.le_iff_toInt_le]
      omega
  exact Int64.le_antisymm (key h h') (key h' h)

/-! ## The loop over the listing

The loop raises the version once for each name. An invariant of `foldlM` carries `IsNext` through
it, over the names that have been read. -/

/-- The versions in a listing. -/
def existingVersions (listing : List OsString) : List Int64 :=
  listing.filterMap versionOf

/-- The versions are those of the names that have one. -/
theorem mem_existingVersions {listing : List OsString} {v : Int64} :
    v ∈ existingVersions listing ↔ ∃ name ∈ listing, versionOf name = some v :=
  List.mem_filterMap

/-- **The run lemma.** A version is returned for a listing that was read to its end. -/
theorem nextMigrationVersion_ok {readDir : Except IoError (List (Except IoError OsString))}
    (h : nextMigrationVersion migrationsDir readDir version = .ok next) :
    ∃ listing, readDir = .ok (listing.map .ok) ∧
      IsNext version (· ∈ existingVersions listing) next := by
  unfold nextMigrationVersion withContext at h
  rw [Except.bind_eq_ok] at h
  obtain ⟨entries, hentries, hloop⟩ := h
  rw [Except.mapError_eq_ok] at hentries
  rw [hentries]
  have hseen : ∃ listing, [] ++ entries = listing.map .ok ∧
      IsNext version (· ∈ existingVersions listing) next := by
    refine Except.foldlM_seen_invariant (P := fun seen next => ∃ listing,
      seen = listing.map .ok ∧ IsNext version (· ∈ existingVersions listing) next) ?_
      ⟨[], rfl, isNext_none fun v => List.not_mem_nil⟩ hloop
    rintro _ next entry next' ⟨listing, rfl, hnext⟩ hstep
    rw [Except.bind_eq_ok] at hstep
    obtain ⟨fileName, hentry, hraise⟩ := hstep
    rw [Except.mapError_eq_ok] at hentry
    refine ⟨listing ++ [fileName], by rw [List.map_append, hentry, List.map_singleton], ?_⟩
    have hmem : (· ∈ existingVersions (listing ++ [fileName])) =
        fun v => v ∈ existingVersions listing ∨ versionOf fileName = some v := by
      funext v
      simp [existingVersions]
    rw [hmem]
    exact hnext.raise hraise
  obtain ⟨listing, hlisting, hnext⟩ := hseen
  exact ⟨listing, by rw [← hlisting, List.nil_append], hnext⟩

/-- The loop over a listing that is read without an error. -/
theorem nextMigrationVersion_listing (listing : List OsString) :
    nextMigrationVersion migrationsDir (.ok (listing.map .ok)) version =
      listing.foldlM raise version := by
  show (listing.map Except.ok).foldlM _ version = _
  rw [List.foldlM_map]
  rfl

/-- The loop fails only above the largest version, at a file that has it. -/
theorem nextMigrationVersion_error {listing : List OsString} {error : AnyhowError}
    (h : nextMigrationVersion migrationsDir (.ok (listing.map .ok)) version = .error error) :
    error = ["migration version overflow"] ∧ Int64.maxValue ∈ existingVersions listing := by
  rw [nextMigrationVersion_listing] at h
  obtain ⟨before, fileName, after, mid, rfl, _, hraise⟩ := Except.foldlM_eq_error h
  obtain ⟨herror, hmax⟩ := raise_error hraise
  exact ⟨herror, mem_existingVersions.mpr ⟨fileName, by simp, hmax⟩⟩

/-- No version is above all of them if the greatest number is among them. -/
theorem IsNext.not_maxValue {existing : Int64 → Prop} (h : IsNext version existing next) :
    ¬ existing Int64.maxValue := by
  intro hmax
  have habove := Int64.lt_iff_toInt_lt.mp (h.above _ hmax)
  rw [Int64.toInt_maxValue] at habove
  have hnext := next.toInt_lt
  omega

/-- **When it succeeds**, and with which version. -/
theorem nextMigrationVersion_eq_ok {listing : List OsString} :
    nextMigrationVersion migrationsDir (.ok (listing.map .ok)) version = .ok next ↔
      IsNext version (· ∈ existingVersions listing) next := by
  have hsound : ∀ {next},
      nextMigrationVersion migrationsDir (.ok (listing.map .ok)) version = .ok next →
        IsNext version (· ∈ existingVersions listing) next := by
    intro next h
    obtain ⟨listing', hlisting, hnext⟩ := nextMigrationVersion_ok h
    have hsame : listing = listing' :=
      List.map_injective_iff.mpr (fun _ _ => Except.ok.inj) (Except.ok.inj hlisting)
    rwa [hsame]
  constructor
  · exact hsound
  · intro hnext
    cases hresult : nextMigrationVersion migrationsDir (.ok (listing.map .ok)) version with
    | error error => exact absurd (nextMigrationVersion_error hresult).2 hnext.not_maxValue
    | ok next' => rw [(hsound hresult).eq hnext]

/-- **When it fails**, and with which error. -/
theorem nextMigrationVersion_eq_error {listing : List OsString} {error : AnyhowError} :
    nextMigrationVersion migrationsDir (.ok (listing.map .ok)) version = .error error ↔
      error = ["migration version overflow"] ∧ Int64.maxValue ∈ existingVersions listing := by
  constructor
  · exact nextMigrationVersion_error
  · intro h
    cases hresult : nextMigrationVersion migrationsDir (.ok (listing.map .ok)) version with
    | error error' => rw [h.1, (nextMigrationVersion_error hresult).1]
    | ok next => exact absurd h.2 (nextMigrationVersion_eq_ok.mp hresult).not_maxValue

/-- **A new migration sorts last.** The version that comes next is the greatest existing one plus
one, or the start if that is greater or nothing exists; there is none exactly if the greatest number
is taken, and the order of the listing does not matter. -/
theorem next_migration_version_sorts_last (migrationsDir : String) (version : Int64)
    (listing : List OsString) :
    -- the value
    (∀ next, nextMigrationVersion migrationsDir (.ok (listing.map .ok)) version = .ok next →
      (existingVersions listing = [] → next = version) ∧
      (∀ m ∈ existingVersions listing, (∀ v ∈ existingVersions listing, v ≤ m) →
        next.toInt = max version.toInt (m.toInt + 1)) ∧
      version ≤ next ∧ ∀ v ∈ existingVersions listing, v < next) ∧
    -- where there is none
    ((∃ error, nextMigrationVersion migrationsDir (.ok (listing.map .ok)) version = .error error) ↔
      Int64.maxValue ∈ existingVersions listing) ∧
    -- the order
    (∀ reordered, listing.Perm reordered →
      nextMigrationVersion migrationsDir (.ok (reordered.map .ok)) version =
        nextMigrationVersion migrationsDir (.ok (listing.map .ok)) version) := by
  refine ⟨?_, ?_, ?_⟩
  · intro next h
    have hnext := nextMigrationVersion_eq_ok.mp h
    refine ⟨fun hempty => ?_, fun m hm hmax => hnext.toInt_eq hm hmax, hnext.start, hnext.above⟩
    rcases hnext.reached with heq | ⟨v, hv, _⟩
    · exact heq
    · rw [hempty] at hv
      cases hv
  · simp only [nextMigrationVersion_eq_error, exists_eq_left]
  · intro reordered hperm
    have hmem : ∀ v, v ∈ existingVersions reordered ↔ v ∈ existingVersions listing :=
      fun v => (hperm.filterMap versionOf).mem_iff.symm
    cases hresult : nextMigrationVersion migrationsDir (.ok (listing.map .ok)) version with
    | error error =>
      rw [nextMigrationVersion_eq_error] at hresult ⊢
      rwa [hmem]
    | ok next =>
      rw [nextMigrationVersion_eq_ok] at hresult ⊢
      simpa only [hmem] using hresult

/-- The second is taken by another migration. -/
example : nextMigrationVersion "migrations"
    (.ok [.ok (.ofStr "20260730123456_existing.up.sql"), .ok (.ofStr "README.md")])
      20260730123456 = .ok 20260730123457 := by
  decide

end BaseSkeleton.Bootstrap
