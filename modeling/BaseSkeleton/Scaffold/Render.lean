import BaseSkeleton.Scaffold.Lockfile

/-!
# The files of a generated project

`render` of `scaffold/src/lib.rs` writes a file of the skeleton under the project's name: `Renamer`
replaces the names of the skeleton, and the lockfile has its root package moved.

* `toList_apply` — the renamed text, from what is documented of the matcher.
* `packageName_rename` / `sourceLine_rename` — the renaming keeps the lines a lockfile is read by.
* `render_lockfile` — a rendered lockfile has the renamed packages, with the root in its place.
-/

namespace BaseSkeleton.Scaffold

open Text

/-- What the skeleton calls itself. -/
def skeletonSnake : String := "base_skeleton"

def skeletonKebab : String := "base-skeleton"

def skeletonCrate : String := "base_skeleton_rust"

def skeletonImage : String := "base-skeleton-rust"

/-! ## The matcher

What is documented of `replace_all_with` for a matcher that was built to find the leftmost and
longest match. -/

/-- A matcher built from patterns; `replaceAll text replacements` is its `replace_all`. -/
structure AhoCorasick where
  replaceAll : String → List String → String

/-- `MatchKind::LeftmostLongest`: of the matches that begin first, the longest one is replaced. -/
def IsLeftmostLongest (build : List String → AhoCorasick) : Prop :=
  ∀ patterns replacements text, "" ∉ patterns → patterns.Nodup →
    replacements.length = patterns.length →
    (build patterns).replaceAll text replacements = .ofList (List.replaceAll
      ((patterns.map String.toList).zip (replacements.map String.toList)) text.toList)

structure Renamer where
  matcher : AhoCorasick
  replacements : List String

namespace Renamer

variable (build : List String → AhoCorasick)

def new (name : ProjectName) : Renamer :=
  let patterns := [skeletonCrate, skeletonImage, skeletonSnake, skeletonKebab]
  let replacements := [name.snake, name.kebab, name.snake, name.kebab]
  { matcher := build patterns
    replacements := replacements }

def apply (renamer : Renamer) (text : String) : String :=
  renamer.matcher.replaceAll text renamer.replacements

end Renamer

/-- Binary files are copied verbatim. -/
def render (relative : String) (bytes : ByteArray) (renamer : Renamer) (name : ProjectName) :
    Except AnyhowError ByteArray :=
  match String.fromUTF8? bytes with
  | none => .ok bytes
  | some text =>
    let renamed := renamer.apply text
    if relative = "Cargo.lock" then
      (repositionRootPackage renamed name.snake).map String.toByteArray
    else .ok renamed.toByteArray

/-! ## The renaming

The names of the skeleton consist of name characters, and so do their replacements. Any other
character, such as a quote or a line break, separates what is replaced. -/

namespace ProjectName

/-- The names of the skeleton, and what replaces them. -/
def renames (name : ProjectName) : List (List Char × List Char) :=
  [(skeletonCrate.toList, name.snake.toList), (skeletonImage.toList, name.kebab.toList),
    (skeletonSnake.toList, name.snake.toList), (skeletonKebab.toList, name.kebab.toList)]

def rename (name : ProjectName) (text : List Char) : List Char :=
  List.replaceAll name.renames text

variable {name : ProjectName} {a b : List Char} {c : Char}

theorem pattern_of_mem_renames : ∀ pair ∈ name.renames,
    pair.1 ≠ [] ∧ ∀ d ∈ pair.1, isNameCharacter d = true := by
  have hpatterns : ∀ pattern ∈ [skeletonCrate, skeletonImage, skeletonSnake, skeletonKebab],
      pattern.toList ≠ [] ∧ pattern.toList.all isNameCharacter = true := by
    decide
  intro pair hpair
  have hpattern : pair.1 ∈ [skeletonCrate, skeletonImage, skeletonSnake, skeletonKebab].map
      String.toList := List.mem_map_of_mem hpair
  obtain ⟨pattern, hmem, heq⟩ := List.mem_map.mp hpattern
  rw [← heq]
  exact ⟨(hpatterns pattern hmem).1, List.all_eq_true.mp (hpatterns pattern hmem).2⟩

theorem isNameCharacter_replace {old new : Char} (hnew : isNameCharacter new = true) :
    (replace old new name.asStr).toList ≠ [] ∧
      ∀ d ∈ (replace old new name.asStr).toList, isNameCharacter d = true := by
  rw [toList_replace]
  constructor
  · obtain ⟨first, chars, hchars, _⟩ := name.toList_asStr
    rw [hchars]
    exact List.cons_ne_nil _ _
  · intro d hd
    obtain ⟨d', hd', rfl⟩ := List.mem_map.mp hd
    split
    · exact hnew
    · exact name.valid.characters d' hd'

theorem isNameCharacter_snake (name : ProjectName) :
    name.snake.toList ≠ [] ∧ ∀ d ∈ name.snake.toList, isNameCharacter d = true :=
  isNameCharacter_replace rfl

theorem isNameCharacter_kebab (name : ProjectName) :
    name.kebab.toList ≠ [] ∧ ∀ d ∈ name.kebab.toList, isNameCharacter d = true :=
  isNameCharacter_replace rfl

/-- What is written in place of the skeleton's names is a name. -/
theorem replacement_of_mem_renames : ∀ pair ∈ name.renames,
    pair.2 ≠ [] ∧ ∀ d ∈ pair.2, isNameCharacter d = true := by
  simp only [renames, List.forall_mem_cons]
  exact ⟨name.isNameCharacter_snake, name.isNameCharacter_kebab, name.isNameCharacter_snake,
    name.isNameCharacter_kebab, fun _ hpair => absurd hpair List.not_mem_nil⟩

/-- A character of no name separates what is renamed. -/
theorem rename_append_cons (hc : isNameCharacter c = false) :
    name.rename (a ++ c :: b) = name.rename a ++ c :: name.rename b := by
  rw [rename, rename, rename]
  refine List.replaceAll_append_cons (fun pair hpair => (pattern_of_mem_renames pair hpair).1)
    fun pair hpair hmem => ?_
  rw [(pattern_of_mem_renames pair hpair).2 c hmem] at hc
  cases hc

theorem rename_cons (hc : isNameCharacter c = false) :
    name.rename (c :: b) = c :: name.rename b :=
  rename_append_cons (a := []) hc

theorem rename_marker (rest : List Char) :
    name.rename (marker ++ rest) = marker ++ name.rename rest := by
  have hword : name.rename "[[package]]".toList = "[[package]]".toList := rfl
  rw [marker_eq, List.append_assoc, List.singleton_append, rename_append_cons rfl, hword,
    List.append_assoc, List.singleton_append]

/-- The crate of the skeleton is renamed as a whole. -/
theorem rename_skeletonCrate : name.rename skeletonCrate.toList = name.snake.toList :=
  List.append_nil name.snake.toList

theorem rename_endsLine {tail : List Char} (h : EndsLine tail) : EndsLine (name.rename tail) := by
  rcases h with rfl | ⟨next, rfl⟩ | ⟨next, rfl⟩
  · exact Or.inl rfl
  · rw [rename_cons rfl]
    exact Or.inr (Or.inl ⟨_, rfl⟩)
  · rw [rename_cons rfl, rename_cons rfl]
    exact Or.inr (Or.inr ⟨_, rfl⟩)

/-- **The root package** carries the project's name. -/
theorem packageName_rename {rest : List Char}
    (h : packageName (marker ++ rest) = some skeletonCrate) :
    packageName (marker ++ name.rename rest) = some name.snake := by
  obtain ⟨_, tail, htail, rfl⟩ := packageName_eq_some.mp h
  rw [packageName_eq_some]
  constructor
  · intro hmem
    have hnewline := name.isNameCharacter_snake.2 '\n' hmem
    cases hnewline
  · refine ⟨name.rename tail, rename_endsLine htail, ?_⟩
    have hkey : name.rename "name = ".toList = "name = ".toList := rfl
    have hquote : ∀ text : List Char,
        "name = \"".toList ++ text = "name = ".toList ++ '"' :: text := fun _ => rfl
    rw [hquote, hquote, rename_append_cons rfl, hkey, rename_append_cons rfl,
      rename_skeletonCrate]

/-- **A source line** stays one. -/
theorem sourceLine_rename {block : List Char} (h : sourceLine <:+: block) :
    sourceLine <:+: name.rename block := by
  obtain ⟨front, back, rfl⟩ := h
  have hword : name.rename "source".toList = "source".toList := rfl
  have hline : front ++ sourceLine ++ back =
      front ++ '\n' :: ("source".toList ++ ' ' :: '=' :: ' ' :: back) := by
    rw [List.append_assoc]
    rfl
  refine ⟨name.rename front, name.rename back, ?_⟩
  rw [hline, rename_append_cons rfl, rename_append_cons rfl, hword, rename_cons rfl,
    rename_cons rfl, List.append_assoc]
  rfl

theorem isWhitespace_of_isNameCharacter (h : isNameCharacter c = true) :
    isWhitespace c = false := by
  simp only [isNameCharacter, isAsciiLowercase, isAsciiDigit, isSeparator, Bool.or_eq_true,
    decide_eq_true_eq] at h
  rcases h with (h | h) | h
  · exact isWhitespace_of_graphic (le_trans (by decide) h.1) (le_trans h.2 (by decide))
  · exact isWhitespace_of_graphic (le_trans (by decide) h.1) (le_trans h.2 (by decide))
  · rcases h with rfl | rfl <;> rfl

/-- The renaming leaves no whitespace at the end. -/
theorem trimmed_rename {text : List Char} (h : ∀ d ∈ text.getLast?, isWhitespace d = false) :
    ∀ d ∈ (name.rename text).getLast?, isWhitespace d = false := by
  rw [rename]
  refine List.getLast?_replaceAll (fun pair hpair => (replacement_of_mem_renames pair hpair).1)
    (fun pair hpair d hd => ?_) h
  exact isWhitespace_of_isNameCharacter
    ((replacement_of_mem_renames pair hpair).2 d (List.mem_of_mem_getLast? hd))

theorem rename_intercalate {blocks : List (List Char)} (hne : blocks ≠ []) :
    name.rename ("\n\n".toList.intercalate blocks ++ ['\n']) =
      "\n\n".toList.intercalate (blocks.map name.rename) ++ ['\n'] := by
  induction blocks with
  | nil => exact absurd rfl hne
  | cons block blocks ih =>
    cases blocks with
    | nil =>
      rw [List.map_singleton, List.intercalate_singleton, List.intercalate_singleton,
        rename_append_cons rfl]
      rfl
    | cons next blocks =>
      have hsep : "\n\n".toList = ['\n', '\n'] := rfl
      have hrest := ih (List.cons_ne_nil next blocks)
      rw [hsep, List.map_cons] at hrest
      simp only [hsep, List.map_cons, List.intercalate_cons_cons, List.append_assoc,
        List.cons_append, List.nil_append]
      rw [rename_append_cons rfl, rename_cons rfl, hrest]

/-- The text of the renamed packages below the renamed header. -/
def renamedLayout (name : ProjectName) (header : List Char) (packages : List Package) : String :=
  layout (name.rename header) (packages.map fun package => name.rename package.text)

/-- **The renamed text** has the renamed header and the renamed packages. -/
theorem rename_text (lock : Lockfile) :
    String.ofList (name.rename lock.text.toList) =
      name.renamedLayout lock.header lock.packages := by
  have hblocks : lock.packages.map Package.text ≠ [] := by
    rw [ne_eq, List.map_eq_nil_iff]
    exact lock.nonempty
  obtain ⟨rest, hrest⟩ : ∃ rest,
      "\n\n".toList.intercalate (lock.packages.map Package.text) ++ ['\n'] = '[' :: rest := by
    cases hpackages : lock.packages with
    | nil => exact absurd hpackages lock.nonempty
    | cons package packages =>
      cases packages <;> exact ⟨_, rfl⟩
  have hrenamed := @rename_intercalate name _ hblocks
  rw [List.map_map] at hrenamed
  rw [renamedLayout, layout, Lockfile.text, layout, String.toList_ofList, List.append_assoc, hrest,
    rename_append_cons rfl, ← rename_cons rfl, ← hrest, hrenamed, List.append_assoc]
  rfl

end ProjectName

/-- The renamer writes what is documented of its matcher. -/
theorem Renamer.apply_new {build : List String → AhoCorasick} (hbuild : IsLeftmostLongest build)
    (name : ProjectName) (text : String) :
    (Renamer.new build name).apply text = .ofList (name.rename text.toList) :=
  hbuild [skeletonCrate, skeletonImage, skeletonSnake, skeletonKebab]
    [name.snake, name.kebab, name.snake, name.kebab] text (by decide) (by decide) (by simp)

theorem render_toByteArray {relative text : String} {renamer : Renamer} {name : ProjectName} :
    render relative text.toByteArray renamer name =
      if relative = "Cargo.lock" then
        (repositionRootPackage (renamer.apply text) name.snake).map String.toByteArray
      else .ok (renamer.apply text).toByteArray := by
  have hdecode : String.fromUTF8? text.toByteArray = some text := dif_pos text.isValidUTF8
  rw [render, hdecode]

/-! ## The rendered lockfile

The renamed text is again the text of a lockfile, if the renaming writes no line a lockfile is read
by. -/

/-- Renamed packages are packages, when the renaming writes no marker. -/
theorem exists_renamed {name : ProjectName} {packages : List Package}
    (honce : ∀ package ∈ packages, ¬ marker <:+: name.rename package.rest ++ ['\n']) :
    ∃ renamed : List Package, renamed.map Package.text =
      packages.map fun package => name.rename package.text := by
  induction packages with
  | nil => exact ⟨[], rfl⟩
  | cons package packages ih =>
    rw [List.forall_mem_cons] at honce
    obtain ⟨renamed, hrenamed⟩ := ih honce.2
    have htrimmed : ∀ d ∈ (name.rename package.text).getLast?, isWhitespace d = false :=
      ProjectName.trimmed_rename package.trimmed
    rw [Package.text, ProjectName.rename_marker] at htrimmed
    refine ⟨⟨name.rename package.rest, honce.1, htrimmed⟩ :: renamed, ?_⟩
    rw [List.map_cons, List.map_cons, hrenamed, Package.text, Package.text,
      ProjectName.rename_marker]

/-- The renamed lockfile is a lockfile. -/
theorem exists_renamed_lockfile {name : ProjectName} {lock : Lockfile} {root : Package}
    {before after : List Package} (hpackages : lock.packages = before ++ root :: after)
    (hheader : ¬ marker <:+: name.rename lock.header)
    (honce : ∀ package ∈ lock.packages, ¬ marker <:+: name.rename package.rest ++ ['\n']) :
    ∃ (lock' : Lockfile) (root' : Package) (before' after' : List Package),
      lock'.header = name.rename lock.header ∧ lock'.packages = before' ++ root' :: after' ∧
      root'.text = name.rename root.text ∧
      before'.map Package.text = before.map (fun package => name.rename package.text) ∧
      after'.map Package.text = after.map fun package => name.rename package.text := by
  rw [hpackages, List.forall_mem_append, List.forall_mem_cons] at honce
  obtain ⟨before', hbefore⟩ := exists_renamed honce.1
  obtain ⟨after', hafter⟩ := exists_renamed honce.2.2
  have htrimmed : ∀ d ∈ (name.rename root.text).getLast?, isWhitespace d = false :=
    ProjectName.trimmed_rename root.trimmed
  rw [Package.text, ProjectName.rename_marker] at htrimmed
  let root' : Package := ⟨name.rename root.rest, honce.2.1, htrimmed⟩
  exact ⟨⟨_, hheader, before' ++ root' :: after', by simp⟩, root', before', after', rfl, rfl,
    (ProjectName.rename_marker _).symm, hbefore, hafter⟩

/-- A package with a source is not the root. -/
theorem isRootBlock_of_sourceLine {root : String} {block : List Char} (h : sourceLine <:+: block) :
    isRootBlock root block = false :=
  decide_eq_false fun hroot => hroot.2 h

/-- **A rendered lockfile** has the renamed header and packages: the root between the others, which
keep their order; and rewriting it once more changes nothing. -/
theorem render_lockfile {build : List String → AhoCorasick} (hbuild : IsLeftmostLongest build)
    {name : ProjectName} {lock : Lockfile} {root : Package} {before after : List Package}
    (hpackages : lock.packages = before ++ root :: after)
    (hsource : ∀ other ∈ before ++ after, sourceLine <:+: other.text)
    (hname : packageName root.text = some skeletonCrate)
    (hheader : ¬ marker <:+: name.rename lock.header)
    (honce : ∀ package ∈ lock.packages, ¬ marker <:+: name.rename package.rest ++ ['\n'])
    (hroot : ¬ sourceLine <:+: name.rename root.text) :
    ∃ front back output, before ++ after = front ++ back ∧
      output = name.renamedLayout lock.header (front ++ root :: back) ∧
      (Renamer.new build name).apply lock.text = name.renamedLayout lock.header lock.packages ∧
      render "Cargo.lock" lock.text.toByteArray (Renamer.new build name) name =
        .ok output.toByteArray ∧
      repositionRootPackage output name.snake = .ok output := by
  obtain ⟨lock', root', before', after', hheader', hpackages', hroot', hbefore, hafter⟩ :=
    exists_renamed_lockfile hpackages hheader honce
  have htext : name.renamedLayout lock.header lock.packages = lock'.text := by
    rw [ProjectName.renamedLayout, Lockfile.text, hpackages, hpackages', hheader']
    simp only [List.map_append, List.map_cons, hbefore, hafter, hroot']
  have hname' : packageName root'.text = some name.snake := by
    rw [hroot', Package.text, ProjectName.rename_marker]
    exact ProjectName.packageName_rename hname
  have hisRoot : isRootBlock name.snake root'.text = true := by
    rw [← hroot'] at hroot
    exact decide_eq_true ⟨hname', hroot⟩
  have hrenamed : (before' ++ after').map Package.text =
      (before ++ after).map fun package => name.rename package.text := by
    rw [List.map_append, List.map_append, hbefore, hafter]
  -- The source line of a dependency survives the renaming, so that only the root is a root block.
  have hothers : ∀ other ∈ before' ++ after', isRootBlock name.snake other.text = false := by
    intro other hother
    have hmem := List.mem_map_of_mem (f := Package.text) hother
    rw [hrenamed] at hmem
    obtain ⟨package, hpackage, htext⟩ := List.mem_map.mp hmem
    rw [← htext]
    exact isRootBlock_of_sourceLine (ProjectName.sourceLine_rename (hsource package hpackage))
  -- the packages the root is put between are renamed packages of the lockfile
  obtain ⟨front', back', hsplit', hmoved⟩ :=
    exists_packages_moveRoot lock' name.snake root' (before' ++ after')
  rw [hsplit', List.map_append] at hrenamed
  obtain ⟨front, back, hsplit, hfront, hback⟩ := List.map_eq_append_iff.mp hrenamed.symm
  have houtput : (lock'.moveRoot name.snake root' (before' ++ after')).text =
      name.renamedLayout lock.header (front ++ root :: back) := by
    rw [ProjectName.renamedLayout, Lockfile.text, hmoved, Lockfile.moveRoot, hheader']
    simp only [List.map_append, List.map_cons, hfront, hback, hroot']
  refine ⟨front, back, _, hsplit, rfl, ?_, ?_, ?_⟩
  · rw [Renamer.apply_new hbuild, ProjectName.rename_text]
  · have hmove := repositionRootPackage_text hpackages' hisRoot
      fun other hother => hothers other (List.mem_append_left after' hother)
    rw [render_toByteArray, if_pos rfl, Renamer.apply_new hbuild, ProjectName.rename_text, htext,
      hmove, houtput]
    rfl
  · rw [← houtput]
    exact repositionRootPackage_moveRoot hisRoot hothers

/-! ## Lockfiles of the skeleton

A lockfile whose root is in its place afterwards, and texts that the renaming turns into others. -/

/-- A matcher that does what is documented. -/
def leftmostLongest (patterns : List String) : AhoCorasick where
  replaceAll text replacements := .ofList (List.replaceAll
    ((patterns.map String.toList).zip (replacements.map String.toList)) text.toList)

theorem isLeftmostLongest : IsLeftmostLongest leftmostLongest :=
  fun _ _ _ _ _ _ => rfl

def skeletonRoot : Package :=
  ⟨"name = \"base_skeleton_rust\"\nversion = \"0.1.0\"".toList, by decide,
    fun _ hc => Option.some.inj hc ▸ rfl⟩

def skeletonLock : Lockfile :=
  ⟨"version = 4\n\n".toList, version_unmarked, [serdeDependency, skeletonRoot], by simp⟩

/-- A project of the name of its dependency. -/
theorem render_lockfile_serde :
    ∃ front back output, [serdeDependency] ++ [] = front ++ back ∧
      output = serdeName.renamedLayout skeletonLock.header (front ++ skeletonRoot :: back) ∧
      (Renamer.new leftmostLongest serdeName).apply skeletonLock.text =
        serdeName.renamedLayout skeletonLock.header skeletonLock.packages ∧
      render "Cargo.lock" skeletonLock.text.toByteArray (Renamer.new leftmostLongest serdeName)
        serdeName = .ok output.toByteArray ∧
      repositionRootPackage output serdeName.snake = .ok output := by
  have hpackages : skeletonLock.packages = [serdeDependency] ++ skeletonRoot :: [] := rfl
  have honce : ∀ package ∈ skeletonLock.packages,
      ¬ marker <:+: serdeName.rename package.rest ++ ['\n'] :=
    List.forall_mem_cons.mpr ⟨by decide, List.forall_mem_singleton.mpr (by decide)⟩
  exact render_lockfile isLeftmostLongest hpackages (List.forall_mem_singleton.mpr (by decide))
    (by decide) (by decide) honce (by decide)

def sourceName : ProjectName :=
  ⟨"source", by decide, ⟨'s', by decide, by decide⟩, List.all_eq_true.mp (by decide), by decide⟩

/-- A root package with a line that begins with the skeleton's name. -/
def sourceRoot : Package :=
  ⟨"name = \"base_skeleton_rust\"\nbase_skeleton = 1".toList, by decide,
    fun _ hc => Option.some.inj hc ▸ rfl⟩

def sourceLock : Lockfile :=
  ⟨"version = 4\n\n".toList, version_unmarked, [sourceRoot], by simp⟩

def packageProject : ProjectName :=
  ⟨"package", by decide, ⟨'p', by decide, by decide⟩, List.all_eq_true.mp (by decide), by decide⟩

/-- A header with a table of the skeleton's name. -/
def tableLock : Lockfile :=
  ⟨"[[base_skeleton]]\n".toList, by decide, [skeletonRoot], by simp⟩

/-- The renaming writes a source line into the root package, which is not found then, or a marker
into the header, which is taken for a package. -/
theorem renaming_writes_lines :
    (packageName sourceRoot.text = some skeletonCrate ∧ ¬ sourceLine <:+: sourceRoot.text ∧
      render "Cargo.lock" sourceLock.text.toByteArray (Renamer.new leftmostLongest sourceName)
        sourceName = .error ["Cargo.lock has no root package named source"]) ∧
    (packageName skeletonRoot.text = some skeletonCrate ∧ ¬ sourceLine <:+: skeletonRoot.text ∧
      render "Cargo.lock" tableLock.text.toByteArray (Renamer.new leftmostLongest packageProject)
        packageProject =
          .error ["repositioning the root package must not change the lockfile size"]) := by
  have hsource : sourceName.renamedLayout sourceLock.header sourceLock.packages =
      "version = 4\n\n[[package]]\nname = \"source\"\nsource = 1\n" := by
    decide
  have htable : packageProject.renamedLayout tableLock.header tableLock.packages =
      "[[package]]\n[[package]]\nname = \"package\"\nversion = \"0.1.0\"\n" := by
    decide
  refine ⟨⟨by decide, by decide, ?_⟩, by decide, by decide, ?_⟩
  · rw [render_toByteArray, if_pos rfl, Renamer.apply_new isLeftmostLongest,
      ProjectName.rename_text, hsource]
    rfl
  · rw [render_toByteArray, if_pos rfl, Renamer.apply_new isLeftmostLongest,
      ProjectName.rename_text, htable]
    rfl

end BaseSkeleton.Scaffold
