import Mathlib.Data.String.Basic
import BaseSkeleton.Config
import BaseSkeleton.Lib.Search
import BaseSkeleton.Lib.Sorted
import BaseSkeleton.Scaffold.Name
import BaseSkeleton.Text

/-!
# The lockfile of a generated project

`reposition_root_package` of `scaffold/src/lockfile.rs` moves the renamed root package to its place
among the packages of `Cargo.lock`. `Lockfile` is what such a text means: a header and packages.

* `repositionRootPackage_text` — on the text of a lockfile the code moves the root package, and
  changes nothing else.
* `repositionRootPackage_missing` — it fails when no package is the root.
* `cargo_order_iff` — when the packages are in Cargo's order afterwards.
-/

namespace BaseSkeleton.Scaffold

open Text

/-! ## The rewriting -/

def marker : List Char :=
  "[[package]]\n".toList

/-- The beginning of the line that the root package has none of. -/
def sourceLine : List Char :=
  "\nsource = ".toList

def packageName (block : List Char) : Option String := do
  let line ← (lines block)[1]?
  let line ← line.dropPrefix? "name = \"".toList
  let name ← line.dropSuffix? ['"']
  return .ofList name

/-- The header, the packages with an empty line in between, and a newline. -/
def layout (header : List Char) (blocks : List (List Char)) : String :=
  .ofList (header ++ "\n\n".toList.intercalate blocks ++ ['\n'])

/-- `block` is the package of the project itself. -/
def isRootBlock (root : String) (block : List Char) : Bool :=
  packageName block = some root ∧ ¬ sourceLine <:+: block

/-- Offsets count characters. -/
def repositionRootPackage (lock root : String) : Except AnyhowError String := do
  let some first := (List.matchIndices marker lock.toList).head?
    | .error ["Cargo.lock contains no packages"]
  let header := lock.toList.take first
  let packages := lock.toList.drop first
  let blocks := (List.slices (List.matchIndices marker packages) packages).map trimEnd
  let some current := blocks.findIdx? (isRootBlock root)
    | .error ["Cargo.lock has no root package named " ++ root]
  let rootBlock := blocks.getD current []
  let blocks := blocks.eraseIdx current
  let target := (blocks.findIdx? fun block => (packageName block).any (root < ·)).getD blocks.length
  let output := layout header (blocks.insertIdx target rootBlock)
  if output.utf8ByteSize = lock.utf8ByteSize then
    .ok output
  else .error ["repositioning the root package must not change the lockfile size"]

/-! ## Names of packages

The name is read from the second line of a block, whatever follows it. -/

/-- The marker ends in its only newline. -/
theorem marker_eq : marker = "[[package]]".toList ++ ['\n'] := by
  decide

theorem newline_not_mem : '\n' ∉ "[[package]]".toList := by
  decide

theorem getElem?_lines_marker (rest : List Char) :
    (lines (marker ++ rest))[1]? = (lines rest).head? := by
  rw [marker_eq, List.append_assoc, List.singleton_append,
    lines_append newline_not_mem (by decide), List.getElem?_cons_succ, List.head?_eq_getElem?]

/-- **The name of a package** stands between quotes on the line below the marker. -/
theorem packageName_eq_some {rest : List Char} {name : String} :
    packageName (marker ++ rest) = some name ↔ '\n' ∉ name.toList ∧
      ∃ tail, EndsLine tail ∧ rest = "name = \"".toList ++ (name.toList ++ '"' :: tail) := by
  simp only [packageName, getElem?_lines_marker, Option.bind_eq_bind, Option.bind_eq_some_iff,
    dropPrefix?_eq_some, dropSuffix?_eq_some, Option.pure_def, Option.some.injEq]
  constructor
  · rintro ⟨line, hline, _, rfl, name, rfl, rfl⟩
    obtain ⟨hnewline, tail, htail, rfl⟩ := of_head?_lines hline
    rw [String.toList_ofList]
    refine ⟨fun hmem => hnewline (by simp [hmem]), tail, htail, ?_⟩
    simp only [List.append_assoc, List.singleton_append]
  · rintro ⟨hname, tail, htail, rfl⟩
    have hnewline : '\n' ∉ "name = \"".toList ++ (name.toList ++ ['"']) := by
      simp [hname]
    have hreturn : '\r' ∉ ("name = \"".toList ++ (name.toList ++ ['"'])).getLast? := by
      rw [← List.append_assoc, List.getLast?_concat]
      decide
    refine ⟨_, ?_, _, rfl, _, rfl, String.ofList_toList⟩
    have hfirst := head?_lines hnewline hreturn (by simp) htail
    rw [← hfirst]
    simp only [List.append_assoc, List.singleton_append]

/-! ## Lockfiles

The text of a lockfile determines its packages: each of them begins with the marker, and the marker
is nowhere else. -/

/-- A package: the marker begins it, and is not in it again. -/
structure Package where
  rest : List Char
  once : ¬ marker <:+: rest ++ ['\n']
  trimmed : ∀ c ∈ (marker ++ rest).getLast?, isWhitespace c = false

namespace Package

def text (package : Package) : List Char :=
  marker ++ package.rest

theorem text_injective : Function.Injective text := by
  intro p q h
  cases p
  cases q
  cases List.append_cancel_left h
  rfl

end Package

/-- What the text of a lockfile means. -/
structure Lockfile where
  header : List Char
  unmarked : ¬ marker <:+: header
  packages : List Package
  nonempty : packages ≠ []

/-- What the text of packages is cut into. -/
def pieces : List Package → List (List Char)
  | [] => []
  | [package] => [package.text ++ ['\n']]
  | package :: next :: packages => (package.text ++ ['\n', '\n']) :: pieces (next :: packages)

def Lockfile.text (lock : Lockfile) : String :=
  layout lock.header (lock.packages.map Package.text)

theorem flatten_pieces {packages : List Package} (hne : packages ≠ []) :
    (pieces packages).flatten =
      "\n\n".toList.intercalate (packages.map Package.text) ++ ['\n'] := by
  induction packages with
  | nil => exact absurd rfl hne
  | cons package packages ih =>
    cases packages with
    | nil => simp [pieces]
    | cons next packages =>
      rw [pieces, List.flatten_cons, ih (List.cons_ne_nil _ _)]
      simp only [List.map_cons, List.intercalate_cons_cons, List.append_assoc]
      rfl

theorem map_trimEnd_pieces (packages : List Package) :
    (pieces packages).map trimEnd = packages.map Package.text := by
  have htrim : ∀ package : Package, ∀ tail : List Char, (∀ c ∈ tail, c = '\n') →
      trimEnd (package.text ++ tail) = package.text := by
    intro package tail htail
    refine trimEnd_append package.trimmed fun c hc => ?_
    rw [htail c hc]
    rfl
  induction packages with
  | nil => rfl
  | cons package packages ih =>
    cases packages with
    | nil =>
      rw [pieces, List.map_singleton, htrim package _ (by simp)]
      rfl
    | cons next packages =>
      rw [pieces, List.map_cons, ih, htrim package _ (by simp)]
      rfl

theorem marker_ne_nil : marker ≠ [] := by
  decide

theorem Package.isPiece (package : Package) :
    List.IsPiece marker (package.text ++ ['\n']) ∧
      List.IsPiece marker (package.text ++ ['\n', '\n']) := by
  have hrest : ∀ b, List.BeginsNowhere marker (package.rest ++ ['\n']) b := by
    intro b
    rw [marker_eq]
    refine List.beginsNowhere_concat newline_not_mem ?_
    rw [← marker_eq]
    exact package.once
  constructor
  · exact ⟨_, List.append_assoc _ _ _, hrest⟩
  · refine ⟨(package.rest ++ ['\n']) ++ ['\n'], by simp [text], fun b => ?_⟩
    refine (hrest _).append ?_
    rw [marker_eq]
    exact List.beginsNowhere_singleton newline_not_mem (by decide)

theorem isPiece_of_mem_pieces {packages : List Package} :
    ∀ piece ∈ pieces packages, List.IsPiece marker piece := by
  induction packages with
  | nil => simp [pieces]
  | cons package packages ih =>
    cases packages with
    | nil =>
      rw [pieces, List.forall_mem_singleton]
      exact package.isPiece.1
    | cons next packages =>
      rw [pieces, List.forall_mem_cons]
      exact ⟨package.isPiece.2, ih⟩

namespace Lockfile

variable (lock : Lockfile)

theorem toList_text : lock.text.toList = lock.header ++ (pieces lock.packages).flatten := by
  rw [text, layout, String.toList_ofList, flatten_pieces lock.nonempty, List.append_assoc]

/-- The first marker of the text begins the first package. -/
theorem head?_matchIndices_text :
    (List.matchIndices marker lock.text.toList).head? = some lock.header.length := by
  obtain ⟨piece, rest, hpieces⟩ : ∃ piece rest, pieces lock.packages = piece :: rest := by
    cases hpackages : lock.packages with
    | nil => exact absurd hpackages lock.nonempty
    | cons package packages => cases packages <;> exact ⟨_, _, rfl⟩
  have hmem : piece ∈ pieces lock.packages := by
    rw [hpieces]
    exact List.mem_cons_self
  obtain ⟨tail, rfl, _⟩ := isPiece_of_mem_pieces piece hmem
  rw [toList_text, hpieces, List.flatten_cons, List.append_assoc]
  refine List.head?_matchIndices marker_ne_nil ?_
  have hheader := lock.unmarked
  rw [marker_eq] at hheader ⊢
  exact List.beginsNowhere_of_not_infix newline_not_mem hheader

theorem take_text : lock.text.toList.take lock.header.length = lock.header := by
  rw [toList_text, List.take_left]

/-- The text behind the header is cut into the packages. -/
theorem blocks_text :
    (List.slices (List.matchIndices marker (lock.text.toList.drop lock.header.length))
      (lock.text.toList.drop lock.header.length)).map trimEnd = lock.packages.map Package.text := by
  rw [toList_text, List.drop_left, List.slices_matchIndices marker_ne_nil isPiece_of_mem_pieces,
    map_trimEnd_pieces]

/-- **A text is the text of one lockfile.** -/
theorem text_injective : Function.Injective text := by
  intro lock other h
  have hlength : lock.header.length = other.header.length := by
    have hfirst := lock.head?_matchIndices_text
    rw [h, head?_matchIndices_text] at hfirst
    exact (Option.some.inj hfirst).symm
  have hheader : lock.header = other.header := by
    rw [← take_text lock, ← take_text other, h, hlength]
  have hblocks : lock.packages.map Package.text = other.packages.map Package.text := by
    rw [← blocks_text lock, ← blocks_text other, h, hlength]
  have hpackages := List.map_injective_iff.mpr Package.text_injective hblocks
  cases lock
  cases other
  cases hheader
  cases hpackages
  rfl

end Lockfile

/-! ## The moved package

`Lockfile.moveRoot` is what the code does to the blocks, said of packages; the size it allocates is
the size of the text it writes. -/

/-- `root` among the other packages: in front of the first one with a greater name. -/
def Lockfile.moveRoot (lock : Lockfile) (name : String) (root : Package)
    (others : List Package) : Lockfile where
  header := lock.header
  unmarked := lock.unmarked
  packages := others.insertAtFirst (fun other => (packageName other.text).any (name < ·)) root
  nonempty := by simp [List.insertAtFirst]

/-- The root is put between packages that keep their order. -/
theorem exists_packages_moveRoot (lock : Lockfile) (name : String) (root : Package)
    (others : List Package) : ∃ front back, others = front ++ back ∧
      (lock.moveRoot name root others).packages = front ++ root :: back :=
  List.exists_insertAtFirst (fun other : Package => (packageName other.text).any (name < ·)) root
    others

theorem utf8Len_intercalate (sep : List Char) {blocks : List (List Char)} (hne : blocks ≠ []) :
    String.utf8Len (sep.intercalate blocks) + String.utf8Len sep =
      (blocks.map fun block => String.utf8Len block + String.utf8Len sep).sum := by
  induction blocks with
  | nil => exact absurd rfl hne
  | cons block blocks ih =>
    cases blocks with
    | nil => simp
    | cons next blocks =>
      have hrest := ih (List.cons_ne_nil next blocks)
      rw [List.intercalate_cons_cons, String.utf8Len_append, String.utf8Len_append, List.map_cons,
        List.sum_cons, ← hrest]
      omega

/-- The order of the packages does not matter to the size. -/
theorem utf8ByteSize_layout {header : List Char} {blocks blocks' : List (List Char)}
    (hne : blocks ≠ []) (h : blocks.Perm blocks') :
    (layout header blocks).utf8ByteSize = (layout header blocks').utf8ByteSize := by
  have hne' : blocks' ≠ [] := fun hnil => hne (by rw [hnil] at h; exact h.eq_nil)
  have hsum := (h.map fun block =>
    String.utf8Len block + String.utf8Len "\n\n".toList).sum_eq
  rw [← utf8Len_intercalate _ hne, ← utf8Len_intercalate _ hne'] at hsum
  rw [layout, layout, String.utf8ByteSize_ofList, String.utf8ByteSize_ofList]
  simp only [String.utf8Len_append]
  omega

section Rewriting

variable {lock : Lockfile} {name : String} {root : Package} {before after : List Package}

theorem size_moveRoot (hpackages : lock.packages = before ++ root :: after) :
    (lock.moveRoot name root (before ++ after)).text.utf8ByteSize = lock.text.utf8ByteSize := by
  obtain ⟨front, back, hothers, hmoved⟩ :=
    exists_packages_moveRoot lock name root (before ++ after)
  have hperm : (lock.moveRoot name root (before ++ after)).packages.Perm lock.packages := by
    rw [hpackages, hmoved]
    refine List.perm_middle.trans (List.Perm.trans ?_ List.perm_middle.symm)
    rw [hothers]
  refine utf8ByteSize_layout ?_ (hperm.map _)
  rw [hmoved]
  simp

/-- **The root package moves**, and nothing else changes. -/
theorem repositionRootPackage_text (hpackages : lock.packages = before ++ root :: after)
    (hroot : isRootBlock name root.text = true)
    (hbefore : ∀ other ∈ before, isRootBlock name other.text = false) :
    repositionRootPackage lock.text name =
      .ok (lock.moveRoot name root (before ++ after)).text := by
  have hcurrent : (lock.packages.map Package.text).findIdx? (isRootBlock name) =
      some before.length := by
    rw [hpackages, List.map_append, List.map_cons, List.findIdx?_append]
    have hnone : (before.map Package.text).findIdx? (isRootBlock name) = none := by
      simpa using hbefore
    rw [hnone, List.findIdx?_cons, hroot]
    simp
  have hget : (lock.packages.map Package.text).getD before.length [] = root.text := by
    rw [hpackages]
    simp
  have herase : (lock.packages.map Package.text).eraseIdx before.length =
      (before ++ after).map Package.text := by
    rw [hpackages]
    simp [List.eraseIdx_append_of_length_le]
  have htarget := List.map_insertAtFirst (x := root) (l := before ++ after) Package.text
    fun block => (packageName block).any (name < ·)
  rw [repositionRootPackage]
  simp only [lock.head?_matchIndices_text, lock.take_text, lock.blocks_text, hcurrent, hget, herase,
    List.insertIdx_findIdx?, ← htarget]
  exact if_pos (size_moveRoot hpackages)

/-- **Rewriting once more** changes nothing, when no other package is taken for the root. -/
theorem repositionRootPackage_moveRoot {others : List Package}
    (hroot : isRootBlock name root.text = true)
    (hothers : ∀ other ∈ others, isRootBlock name other.text = false) :
    repositionRootPackage (lock.moveRoot name root others).text name =
      .ok (lock.moveRoot name root others).text := by
  obtain ⟨front, back, rfl, hmoved⟩ := exists_packages_moveRoot lock name root others
  exact repositionRootPackage_text hmoved hroot
    fun other hfront => hothers other (List.mem_append_left back hfront)

/-- Without a root package the error names it. -/
theorem repositionRootPackage_missing
    (hmissing : ∀ package ∈ lock.packages, isRootBlock name package.text = false) :
    repositionRootPackage lock.text name =
      .error ["Cargo.lock has no root package named " ++ name] := by
  have hcurrent : (lock.packages.map Package.text).findIdx? (isRootBlock name) = none := by
    simpa using hmissing
  rw [repositionRootPackage]
  simp only [lock.head?_matchIndices_text, lock.blocks_text, hcurrent]

end Rewriting

/-! ## Cargo's order

Cargo sorts by name and then by version. The code compares the names only. -/

/-- A package without a name comes before the others. -/
def Package.name (package : Package) : String :=
  (packageName package.text).getD ""

section Order

variable {κ : Type*} [LinearOrder κ] {version : Package → κ}

/-- Packages in the order of their names and, for equal names, of their versions. -/
def IsSorted (version : Package → κ) (packages : List Package) : Prop :=
  packages.Pairwise fun package next =>
    toLex (package.name, version package) ≤ toLex (next.name, version next)

/-- The packages of the text are in the order Cargo writes them in. -/
def InCargoOrder (version : Package → κ) (text : String) : Prop :=
  ∃ lock : Lockfile, lock.text = text ∧ IsSorted version lock.packages

theorem inCargoOrder_text {lock : Lockfile} :
    InCargoOrder version lock.text ↔ IsSorted version lock.packages := by
  constructor
  · intro h
    obtain ⟨other, htext, hsorted⟩ := h
    rwa [← Lockfile.text_injective htext]
  · intro h
    exact ⟨lock, rfl, h⟩

theorem any_lt_packageName {name : String} {package : Package} :
    (packageName package.text).any (name < ·) = decide (name < package.name) := by
  rw [Package.name]
  cases packageName package.text with
  | none =>
    have hleast : ¬ name < "" := by
      rw [String.lt_iff_toList_lt]
      exact List.not_lt_nil _
    simp [hleast]
  | some _ => rfl

theorem name_of_isRootBlock {name : String} {root : Package}
    (h : isRootBlock name root.text = true) : root.name = name := by
  simp only [isRootBlock, decide_eq_true_eq] at h
  rw [Package.name, h.1, Option.getD_some]

/-- The root package is put in front of the first package with a greater name. -/
theorem packages_moveRoot {lock : Lockfile} {name : String} {root : Package}
    {others : List Package} (hroot : isRootBlock name root.text = true) :
    (lock.moveRoot name root others).packages =
      others.insertAtFirst (fun other => root.name < other.name) root := by
  have hplace : (fun other : Package => (packageName other.text).any (name < ·)) =
      fun other => decide (root.name < other.name) := by
    funext other
    rw [any_lt_packageName, name_of_isRootBlock hroot]
  show List.insertAtFirst _ root others = _
  rw [hplace]

/-- **When the packages are in order afterwards**: no other package of the root's name is newer. -/
theorem cargo_order_iff {lock : Lockfile} {name : ProjectName} {root : Package}
    {before after : List Package} (hpackages : lock.packages = before ++ root :: after)
    (hroot : isRootBlock name.snake root.text = true)
    (hbefore : ∀ other ∈ before, isRootBlock name.snake other.text = false)
    (hsorted : IsSorted version (before ++ after)) :
    ∃ output, repositionRootPackage lock.text name.snake = .ok output ∧
      (InCargoOrder version output ↔
        ∀ other ∈ before ++ after, other.name = name.snake → version other ≤ version root) := by
  refine ⟨_, repositionRootPackage_text hpackages hroot hbefore, ?_⟩
  rw [inCargoOrder_text, packages_moveRoot hroot, ← name_of_isRootBlock hroot]
  exact List.pairwise_insertAtFirst_iff hsorted

end Order

/-! ## A dependency of the same name

A project that is called `serde` and depends on `serde`. -/

/-- The numbers of a package's version. -/
def versionNumbers (package : Package) : List Nat :=
  match (lines package.text)[2]? >>= fun line => line.dropPrefix? "version = \"".toList with
  | none => []
  | some version => ((version.takeWhile fun c => c != '"').splitOn '.').map fun digits =>
      digits.foldl (fun n c => 10 * n + (c.toNat - '0'.toNat)) 0

def serdeName : ProjectName :=
  ⟨"serde", by decide, ⟨'s', by decide, by decide⟩, List.all_eq_true.mp (by decide), by decide⟩

def serdeRoot : Package :=
  ⟨"name = \"serde\"\nversion = \"0.1.0\"".toList, by decide,
    fun _ hc => Option.some.inj hc ▸ rfl⟩

def serdeDependency : Package :=
  ⟨"name = \"serde\"\nversion = \"1.0.0\"\nsource = \"registry\"".toList, by decide,
    fun _ hc => Option.some.inj hc ▸ rfl⟩

theorem version_unmarked : ¬ marker <:+: "version = 4\n\n".toList := by
  decide

/-- A project of the name of a dependency that is newer. -/
def serdeLock : Lockfile :=
  ⟨"version = 4\n\n".toList, version_unmarked, [serdeRoot, serdeDependency], by simp⟩

theorem serdeRoot_isRoot : isRootBlock serdeName.snake serdeRoot.text = true := by
  decide

theorem cargo_order_iff_serde :
    ∃ output, repositionRootPackage serdeLock.text serdeName.snake = .ok output ∧
      (InCargoOrder versionNumbers output ↔ ∀ other ∈ [] ++ [serdeDependency],
        other.name = serdeName.snake → versionNumbers other ≤ versionNumbers serdeRoot) := by
  have hpackages : serdeLock.packages = [] ++ serdeRoot :: [serdeDependency] := rfl
  have hsorted : IsSorted versionNumbers ([] ++ [serdeDependency]) := List.pairwise_singleton _ _
  exact cargo_order_iff hpackages serdeRoot_isRoot (by simp) hsorted

/-- **The lockfile was in order**, and no longer is. -/
theorem sorted_lockfile_reordered :
    InCargoOrder versionNumbers serdeLock.text ∧
      ∃ output, repositionRootPackage serdeLock.text serdeName.snake = .ok output ∧
        ¬ InCargoOrder versionNumbers output := by
  have hroot : serdeRoot.name = "serde" := by decide
  have hdependency : serdeDependency.name = "serde" := by decide
  have hversions : versionNumbers serdeRoot < versionNumbers serdeDependency := by decide
  constructor
  · rw [inCargoOrder_text]
    refine List.pairwise_pair.mpr (Prod.Lex.le_iff.mpr (Or.inr ?_))
    exact ⟨hroot.trans hdependency.symm, hversions.le⟩
  · have hpackages : serdeLock.packages = [] ++ serdeRoot :: [serdeDependency] := rfl
    refine ⟨_, repositionRootPackage_text hpackages serdeRoot_isRoot (by simp), ?_⟩
    have hplace : decide (serdeRoot.name < serdeDependency.name) = false := by
      rw [hroot, hdependency]
      exact decide_eq_false (lt_irrefl _)
    have hmoved : (serdeLock.moveRoot serdeName.snake serdeRoot [serdeDependency]).packages =
        [serdeDependency, serdeRoot] := by
      rw [packages_moveRoot serdeRoot_isRoot]
      simp only [List.insertAtFirst, List.takeWhile_cons, List.dropWhile_cons, hplace,
        Bool.not_false, ↓reduceIte, List.takeWhile_nil, List.dropWhile_nil, List.singleton_append]
    rw [inCargoOrder_text, List.nil_append, hmoved, IsSorted, List.pairwise_pair, Prod.Lex.le_iff]
    intro hsorted
    rcases hsorted with hname | hversion
    · exact hname.ne (hdependency.trans hroot.symm)
    · exact hversions.not_ge hversion.2

end BaseSkeleton.Scaffold
