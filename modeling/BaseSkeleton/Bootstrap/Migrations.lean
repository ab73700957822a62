import BaseSkeleton.Lib.Directory
import BaseSkeleton.Bootstrap.MigrationVersion
import BaseSkeleton.Scaffold.Name

/-!
# Creating a migration

`create_migration_file` of `src/bootstrap/database.rs`: the two files of a migration are created in
the migrations directory, or none is. The directory is passed along as the state; `Failures` says
where the file system fails, and with what error. Nobody else changes the directory meanwhile.

* `writeNewMigrationFile_cases` — a file is there with its contents, or it is not there.
* `writeNewMigrationFiles_all_or_nothing` — the same for any list of files.
* `create_migration_file_all_or_nothing` — the pair.
-/

namespace BaseSkeleton.Bootstrap

open Scaffold (isAsciiLowercase isAsciiDigit)

def upTemplate : String := "-- Write schema changes here.\n"

def downTemplate : String := "-- Write rollback changes here.\n"

/-! ## The file system

A directory is what its entries are; each call either does what it is for, or fails with the error
that `Failures` gives it and leaves the directory alone. An open file that could not be written is
there, and empty. -/

/-- What a name in the directory stands for; the code looks into nothing but its own files. -/
inductive Node where
  | file (contents : List UInt8)
  | other
deriving DecidableEq

abbrev MigrationsDir := Directory OsString Node

/-- A path in the migrations directory; `parent` is the text of the directory's own path. -/
structure PathBuf where
  parent : String
  fileName : String
deriving DecidableEq

namespace PathBuf

def name (path : PathBuf) : OsString :=
  .ofStr path.fileName

/-- `Path::display`. -/
def display (path : PathBuf) : String :=
  if path.parent = "" ∨ path.parent.toList.getLast? = some '/' then path.parent ++ path.fileName
  else path.parent ++ "/" ++ path.fileName

end PathBuf

/-- The steps that fail, each with its error. No path is opened or written twice. -/
structure Failures where
  /-- `is_dir` -/
  isDir : Bool := true
  readDir : Option IoError := none
  /-- a name the listing does not yield -/
  entry : OsString → Option IoError := fun _ => none
  /-- an `open` that fails, even if there is no such file -/
  openFile : OsString → Option IoError := fun _ => none
  /-- a `write_all` that stops after some bytes -/
  writeAll : OsString → Option (Nat × IoError) := fun _ => none
  removeFile : OsString → Option IoError := fun _ => none

/-- `ErrorKind::AlreadyExists`. -/
def fileExists : IoError := "File exists (os error 17)"

/-- `fs::read_dir`. -/
def readDir (failures : Failures) (dir : MigrationsDir) :
    Except IoError (List (Except IoError OsString)) :=
  match failures.readDir with
  | some error => .error error
  | none => .ok (dir.names.map fun name =>
      match failures.entry name with
      | some error => .error error
      | none => .ok name)

/-- `let _ = fs::remove_file(path)`. -/
def removeFile (failures : Failures) (dir : MigrationsDir) (path : PathBuf) : MigrationsDir :=
  match failures.removeFile path.name with
  | some _ => dir
  | none => dir.remove path.name

/-! ## The code -/

/-- `str::contains` of a pattern. -/
def contains (s pattern : String) : Bool :=
  s.toList.tails.any pattern.toList.isPrefixOf

def validateMigrationName (name : String) : Except AnyhowError Unit := do
  .ensure (name ≠ "") ["migration name must not be empty"]
  .ensure (name.utf8ByteSize ≤ 64) ["migration name must contain at most 64 characters"]
  -- a character that is not ASCII has none of these bytes
  .ensure (name.toList.all fun character =>
      isAsciiLowercase character || isAsciiDigit character || character == '_')
    ["migration name must use snake_case lowercase ASCII letters, digits, and underscores"]
  .ensure (name.toList.head? ≠ some '_' ∧ name.toList.getLast? ≠ some '_' ∧ ¬ contains name "__")
    ["migration name must use valid snake_case"]

def writeNewMigrationFile (failures : Failures) (path : PathBuf) (contents : String)
    (dir : MigrationsDir) : Except AnyhowError Unit × MigrationsDir :=
  match failures.openFile path.name with
  | some error =>
    (.error ["could not create migration file " ++ path.display, error], dir)
  | none =>
    if hname : path.name ∈ dir.names then
      (.error ["could not create migration file " ++ path.display, fileExists], dir)
    else
      let dir := dir.create path.name (.file []) hname
      match failures.writeAll path.name with
      | some (written, error) =>
        let dir := dir.set path.name (.file ((asBytes contents).take written))
        (.error ["could not write migration file " ++ path.display, error],
          removeFile failures dir path)
      | none => (.ok (), dir.set path.name (.file (asBytes contents)))

/-- The loop of `write_new_migration_files`, with the paths `created` so far. -/
def writeNewMigrationFiles (failures : Failures) :
    List (PathBuf × String) → List PathBuf → MigrationsDir →
      Except AnyhowError Unit × MigrationsDir
  | [], _, dir => (.ok (), dir)
  | (path, contents) :: files, created, dir =>
    match writeNewMigrationFile failures path contents dir with
    | (.error error, dir) => (.error error, created.foldl (removeFile failures) dir)
    | (.ok (), dir) => writeNewMigrationFiles failures files (created ++ [path]) dir

def upPath (migrationsDir name : String) (nextVersion : Int64) : PathBuf :=
  ⟨migrationsDir, toString nextVersion ++ "_" ++ name ++ ".up.sql"⟩

def downPath (migrationsDir name : String) (nextVersion : Int64) : PathBuf :=
  ⟨migrationsDir, toString nextVersion ++ "_" ++ name ++ ".down.sql"⟩

/-- The `files` of a migration. -/
def migrationFiles (migrationsDir name : String) (nextVersion : Int64) :
    List (PathBuf × String) :=
  [(upPath migrationsDir name nextVersion, upTemplate),
    (downPath migrationsDir name nextVersion, downTemplate)]

/-- The part of `create_migration_file` before it writes. -/
def prepareMigration (failures : Failures) (migrationsDir name : String) (version : Int64)
    (dir : MigrationsDir) : Except AnyhowError Int64 := do
  validateMigrationName name
  .ensure (failures.isDir) ["migration directory " ++ migrationsDir ++ " does not exist"]
  nextMigrationVersion migrationsDir (readDir failures dir) version

def createMigrationFile (failures : Failures) (migrationsDir name : String) (version : Int64)
    (dir : MigrationsDir) : Except AnyhowError (List PathBuf) × MigrationsDir :=
  match prepareMigration failures migrationsDir name version dir with
  | .error error => (.error error, dir)
  | .ok nextVersion =>
    let files := migrationFiles migrationsDir name nextVersion
    match writeNewMigrationFiles failures files [] dir with
    | (.error error, dir) => (.error error, dir)
    | (.ok (), dir) => (.ok (files.map Prod.fst), dir)

variable {failures : Failures} {dir dir' base : MigrationsDir}

/-! ## Writing

A file that fails half way is removed again, and so are the ones before it. That the removals
succeed is an assumption of the section. -/

/-- **One file.** It is new and has its contents, or nothing is left of it. -/
theorem writeNewMigrationFile_cases (hremove : ∀ name, failures.removeFile name = none)
    (path : PathBuf) (contents : String) (dir : MigrationsDir) :
    (∃ hname, writeNewMigrationFile failures path contents dir =
        (.ok (), dir.create path.name (.file (asBytes contents)) hname)) ∨
      ∃ error, writeNewMigrationFile failures path contents dir = (.error error, dir) := by
  unfold writeNewMigrationFile
  split
  · exact Or.inr ⟨_, rfl⟩
  · split
    · exact Or.inr ⟨_, rfl⟩
    · next hname =>
      simp only [Directory.set_create]
      split
      · right
        refine ⟨_, Prod.ext rfl ?_⟩
        show removeFile failures _ path = dir
        rw [removeFile, hremove, Directory.remove_create]
      · exact Or.inl ⟨hname, rfl⟩

/-- The removals, one after the other, take out the files under these names. -/
theorem removeFiles (hremove : ∀ name, failures.removeFile name = none) (created : List PathBuf) :
    created.foldl (removeFile failures) dir = dir.removeAll (created.map PathBuf.name) := by
  rw [Directory.removeAll, List.foldl_map]
  congr 1
  funext dir path
  rw [removeFile, hremove]

/-- What the files are in the directory. -/
def fileEntries (files : List (PathBuf × String)) : List (OsString × Node) :=
  files.map fun (path, contents) => (path.name, .file (asBytes contents))

/-- **The loop**, with what it has created so far. -/
theorem writeNewMigrationFiles_from (hremove : ∀ name, failures.removeFile name = none)
    (files done : List (PathBuf × String)) (hdir : dir.entries = base.entries ++ fileEntries done) :
    (∃ dir', writeNewMigrationFiles failures files (done.map Prod.fst) dir = (.ok (), dir') ∧
      dir'.entries = base.entries ++ fileEntries (done ++ files)) ∨
    ∃ error, writeNewMigrationFiles failures files (done.map Prod.fst) dir =
      (.error error, base) := by
  induction files generalizing done dir with
  | nil =>
    left
    rw [List.append_nil]
    exact ⟨dir, rfl, hdir⟩
  | cons file files ih =>
    obtain ⟨path, contents⟩ := file
    rcases writeNewMigrationFile_cases hremove path contents dir with
      ⟨hname, hwritten⟩ | ⟨error, herror⟩
    · rw [writeNewMigrationFiles, hwritten]
      have hnext : (dir.create path.name (.file (asBytes contents)) hname).entries =
          base.entries ++ fileEntries (done ++ [(path, contents)]) := by
        show dir.entries ++ [(path.name, Node.file (asBytes contents))] = _
        rw [hdir, List.append_assoc]
        simp [fileEntries]
      have hrest := ih _ hnext
      rw [List.map_append, List.append_assoc] at hrest
      exact hrest
    · right
      rw [writeNewMigrationFiles, herror]
      have hnames : (done.map Prod.fst).map PathBuf.name = (fileEntries done).map Prod.fst := by
        simp [fileEntries]
      have hclean : (done.map Prod.fst).foldl (removeFile failures) dir = base := by
        rw [removeFiles hremove, hnames]
        exact Directory.removeAll_append hdir
      exact ⟨error, by rw [← hclean]⟩

/-- **Any list of files**: all of them are added, or the directory is what it was. -/
theorem writeNewMigrationFiles_all_or_nothing (hremove : ∀ name, failures.removeFile name = none)
    (files : List (PathBuf × String)) (dir : MigrationsDir) :
    (∃ dir', writeNewMigrationFiles failures files [] dir = (.ok (), dir') ∧
      dir'.entries = dir.entries ++ fileEntries files) ∨
    ∃ error, writeNewMigrationFiles failures files [] dir = (.error error, dir) :=
  writeNewMigrationFiles_from hremove files [] (List.append_nil _).symm

/-! ## The pair

The version is above all versions in the directory, so that neither of the two names is taken: the
only failures left are those of the file system. -/

/-- A listing without an error is what is in the directory. -/
theorem listing_eq_names {listing : List OsString}
    (h : readDir failures dir = .ok (listing.map .ok)) : listing = dir.names := by
  unfold readDir at h
  split at h
  · cases h
  · have hentries := Except.ok.inj h
    have hread : ∀ name ∈ dir.names, failures.entry name = none := by
      intro name hname
      have hmem : (match failures.entry name with
          | some error => Except.error error
          | none => Except.ok name) ∈ listing.map (Except.ok (ε := IoError)) := by
        rw [← hentries]
        exact List.mem_map_of_mem hname
      obtain ⟨name', _, hname'⟩ := List.mem_map.mp hmem
      split at hname'
      · cases hname'
      · assumption
    have hsame : listing.map (Except.ok (ε := IoError)) = dir.names.map Except.ok := by
      rw [← hentries]
      refine List.map_congr_left fun name hname => ?_
      rw [hread name hname]
    exact List.map_injective_iff.mpr (fun _ _ => Except.ok.inj) hsame

/-- What is checked before a file is written makes the version a next one. -/
theorem prepareMigration_ok {migrationsDir name : String} {version next : Int64}
    (h : prepareMigration failures migrationsDir name version dir = .ok next) :
    IsNext version (· ∈ existingVersions dir.names) next := by
  simp only [prepareMigration, Except.bind_eq_ok] at h
  obtain ⟨_, _, _, _, hnext⟩ := h
  obtain ⟨listing, hlisting, hisNext⟩ := nextMigrationVersion_ok hnext
  rwa [listing_eq_names hlisting] at hisNext

/-- The two files of one new version were added, with their templates, and nothing else. -/
structure PairCreated (migrationsDir name : String) (version next : Int64)
    (dir dir' : MigrationsDir) (paths : List PathBuf) : Prop where
  start : version ≤ next
  new : ∀ v ∈ existingVersions dir.names, v < next
  paths_eq : paths = [upPath migrationsDir name next, downPath migrationsDir name next]
  two : (upPath migrationsDir name next).name ≠ (downPath migrationsDir name next).name
  free : ∀ path ∈ paths, path.name ∉ dir.names
  added : dir'.entries = dir.entries ++
    [((upPath migrationsDir name next).name, .file (asBytes upTemplate)),
      ((downPath migrationsDir name next).name, .file (asBytes downTemplate))]

/-- What a call comes to. -/
theorem createMigrationFile_cases (hremove : ∀ file, failures.removeFile file = none)
    (migrationsDir name : String) (version : Int64) (dir : MigrationsDir) :
    (∃ next dir', createMigrationFile failures migrationsDir name version dir =
        (.ok ((migrationFiles migrationsDir name next).map Prod.fst), dir') ∧
      IsNext version (· ∈ existingVersions dir.names) next ∧
      dir'.entries = dir.entries ++ fileEntries (migrationFiles migrationsDir name next)) ∨
    ∃ error, createMigrationFile failures migrationsDir name version dir = (.error error, dir) := by
  unfold createMigrationFile
  split
  · exact Or.inr ⟨_, rfl⟩
  · next next hprepare =>
    rcases writeNewMigrationFiles_all_or_nothing hremove (migrationFiles migrationsDir name next)
      dir with ⟨dir', hwritten, hentries⟩ | ⟨error, hfailed⟩
    · simp only [hwritten]
      exact Or.inl ⟨next, dir', rfl, prepareMigration_ok hprepare, hentries⟩
    · simp only [hfailed]
      exact Or.inr ⟨error, rfl⟩

/-- Both names were free, and there are two of them. -/
theorem pair_free {up down : OsString × Node} (h : dir'.entries = dir.entries ++ [up, down]) :
    up.1 ≠ down.1 ∧ up.1 ∉ dir.names ∧ down.1 ∉ dir.names := by
  have hnodup := dir'.nodup
  rw [h, List.map_append, List.nodup_append] at hnodup
  obtain ⟨_, hpair, hfree⟩ := hnodup
  refine ⟨fun heq => ?_, fun hmem => ?_, fun hmem => ?_⟩
  · exact (List.nodup_cons.mp hpair).1 (List.mem_singleton.mpr heq)
  · exact hfree _ hmem _ List.mem_cons_self rfl
  · exact hfree _ hmem _ (List.mem_cons_of_mem _ List.mem_cons_self) rfl

/-- **A migration is created or it is not.** Wherever the file system fails, the directory has the
two new files and is otherwise what it was, or it is what it was. -/
theorem create_migration_file_all_or_nothing (hremove : ∀ file, failures.removeFile file = none)
    (migrationsDir name : String) (version : Int64) (dir : MigrationsDir) :
    (∀ paths, (createMigrationFile failures migrationsDir name version dir).1 = .ok paths →
      ∃ next, PairCreated migrationsDir name version next dir
        (createMigrationFile failures migrationsDir name version dir).2 paths) ∧
    (∀ error, (createMigrationFile failures migrationsDir name version dir).1 = .error error →
      (createMigrationFile failures migrationsDir name version dir).2 = dir) := by
  rcases createMigrationFile_cases hremove migrationsDir name version dir with
    ⟨next, dir', hresult, hnext, hentries⟩ | ⟨error, hresult⟩
  · rw [hresult]
    refine ⟨fun paths hpaths => ⟨next, ?_⟩, nofun⟩
    obtain rfl := Except.ok.inj hpaths
    obtain ⟨hne, hup, hdown⟩ := pair_free hentries
    exact {
      start := hnext.start
      new := hnext.above
      paths_eq := rfl
      two := hne
      free := List.forall_mem_cons.mpr ⟨hup, List.forall_mem_singleton.mpr hdown⟩
      added := hentries }
  · rw [hresult]
    exact ⟨nofun, fun _ _ => rfl⟩

/-! ## A full disk -/

/-- The migrations directory with one migration in it. -/
def sampleMigrationsDir : MigrationsDir where
  entries := [(.ofStr "1_create_users.up.sql", .file (asBytes upTemplate)),
    (.ofStr "1_create_users.down.sql", .file (asBytes downTemplate))]
  nodup := by decide

/-- The disk is full after three bytes of the second file. -/
def fullDisk : Failures where
  writeAll name :=
    if name = .ofStr "2_add_status.down.sql" then some (3, "No space left on device (os error 28)")
    else none

theorem create_migration_file_sample :
    (createMigrationFile fullDisk "migrations" "add_status" 1 sampleMigrationsDir).2 =
        sampleMigrationsDir ∧
      ∃ next, PairCreated "migrations" "add_status" 1 next sampleMigrationsDir
        (createMigrationFile {} "migrations" "add_status" 1 sampleMigrationsDir).2
        [upPath "migrations" "add_status" 2, downPath "migrations" "add_status" 2] := by
  constructor
  · exact (create_migration_file_all_or_nothing (fun _ => rfl) "migrations" "add_status" 1
      sampleMigrationsDir).2
      ["could not write migration file migrations/2_add_status.down.sql",
        "No space left on device (os error 28)"] (by decide)
  · exact (create_migration_file_all_or_nothing (fun _ => rfl) "migrations" "add_status" 1
      sampleMigrationsDir).1 _ (by decide)

end BaseSkeleton.Bootstrap
