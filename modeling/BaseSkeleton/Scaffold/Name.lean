import Mathlib.Data.String.Basic
import BaseSkeleton.Config
import BaseSkeleton.Lib.Languages

/-!
# Project names

`ProjectName` of `scaffold/src/name.rs`: the name of a generated project, in the three forms it is
substituted in. A name carries what `parse` has checked.

* `parse_eq_ok` — which names are accepted.
* `coherent` — the forms differ in their separators only.
* `usable_iff` — which accepted names are usable wherever they are substituted.
-/

namespace BaseSkeleton.Scaffold

def maxLength : Nat := 64

/-- Rust keywords and crates every program already links against. -/
def reserved : List String :=
  ["abstract", "alloc", "as", "async", "await", "become", "box", "break", "const", "continue",
    "core", "crate", "do", "dyn", "else", "enum", "extern", "false", "final", "fn", "for", "gen",
    "if", "impl", "in", "let", "loop", "macro", "match", "mod", "move", "mut", "override", "priv",
    "proc_macro", "pub", "ref", "return", "self", "static", "std", "struct", "super", "test",
    "trait", "true", "try", "type", "typeof", "unsafe", "unsized", "use", "virtual", "where",
    "while", "yield"]

/-! ## Characters -/

/-- `char::is_ascii_lowercase`. -/
def isAsciiLowercase (c : Char) : Bool :=
  'a' ≤ c ∧ c ≤ 'z'

/-- `char::is_ascii_digit`. -/
def isAsciiDigit (c : Char) : Bool :=
  '0' ≤ c ∧ c ≤ '9'

def isSeparator (c : Char) : Bool :=
  c = '-' ∨ c = '_'

/-- The characters a name may contain. -/
def isNameCharacter (c : Char) : Bool :=
  isAsciiLowercase c || isAsciiDigit c || isSeparator c

/-- `str::replace` of a character. -/
def replace (old new : Char) (s : String) : String :=
  .ofList (s.toList.map fun c => if c = old then new else c)

/-! ## Names

The checks of `parse` in their order. What an accepted name carries is what all of them have found.
-/

/-- What `parse` checks of its input. -/
structure IsProjectName (s : String) : Prop where
  short : s.utf8ByteSize ≤ maxLength
  first : ∃ c ∈ s.toList.head?, isAsciiLowercase c = true
  characters : ∀ c ∈ s.toList, isNameCharacter c = true
  unreserved : replace '-' '_' s ∉ reserved

structure ProjectName where
  asStr : String
  valid : IsProjectName asStr

namespace ProjectName

/-- The name as a crate, a binary and a database. -/
def snake (name : ProjectName) : String :=
  replace '-' '_' name.asStr

/-- The name as an image, a service and a client id. -/
def kebab (name : ProjectName) : String :=
  replace '_' '-' name.asStr

/-- `parse`; `debug` is the `Debug` text of a character. -/
def parse (debug : Char → String) (input : String) : Except AnyhowError ProjectName :=
  match hinput : input.toList with
  | [] => .error ["the project name must not be empty"]
  | first :: characters =>
    if hshort : input.utf8ByteSize ≤ maxLength then
      if hfirst : isAsciiLowercase first then
        match hfind : characters.find? fun c => !isNameCharacter c with
        | some invalid =>
          .error ["the project name may only contain lowercase letters, digits, '-' and '_' (found "
            ++ debug invalid ++ ")"]
        | none =>
          if hreserved : replace '-' '_' input ∉ reserved then
            .ok
              { asStr := input
                valid :=
                  { short := hshort
                    first := ⟨first, by rw [hinput]; rfl, hfirst⟩
                    characters := by
                      rw [hinput, List.forall_mem_cons]
                      exact ⟨by simp [isNameCharacter, hfirst],
                        by simpa using List.find?_eq_none.mp hfind⟩
                    unreserved := hreserved } }
          else
            .error ["`" ++ input ++
              "` is a reserved Rust name and cannot be used as a crate name"]
      else .error ["the project name must start with a lowercase ASCII letter"]
    else .error ["the project name must be at most 64 characters"]

variable {debug : Char → String} {input : String} {name other : ProjectName}

/-- **Which names are accepted**: the ones that pass every check, unchanged. -/
theorem parse_eq_ok : parse debug input = .ok name ↔ name.asStr = input := by
  constructor
  · intro h
    unfold parse at h
    split at h
    · cases h
    · split at h
      · split at h
        · split at h
          · cases h
          · split at h
            · cases h
              rfl
            · cases h
        · cases h
      · cases h
  · intro h
    subst h
    -- The proofs a name carries pass the checks one by one.
    obtain ⟨hshort, ⟨c, hhead, hfirst⟩, hcharacters, hreserved⟩ := name.valid
    unfold parse
    split
    · next hempty =>
      rw [hempty] at hhead
      cases hhead
    · next first characters hinput =>
      rw [hinput] at hhead hcharacters
      cases hhead
      have hfind : characters.find? (fun c => !isNameCharacter c) = none := by
        rw [List.find?_eq_none]
        simpa using (List.forall_mem_cons.mp hcharacters).2
      rw [dif_pos hshort, dif_pos hfirst]
      split
      · next invalid hinvalid =>
        rw [hfind] at hinvalid
        cases hinvalid
      · rw [dif_pos hreserved]

/-! ## The forms

Both forms replace one separator by the other, so they are as long as the name and differ from it in
separators only. -/

theorem toList_replace {old new : Char} {s : String} :
    (replace old new s).toList = s.toList.map fun c => if c = old then new else c :=
  String.toList_ofList

theorem snake_replace {s : String} :
    replace '-' '_' (replace '_' '-' s) = replace '-' '_' s := by
  rw [← String.toList_inj]
  simp only [toList_replace, List.map_map]
  refine List.map_congr_left fun c _ => ?_
  show (if (if c = '_' then '-' else c) = '-' then '_' else if c = '_' then '-' else c) = _
  split_ifs <;> simp_all

theorem kebab_replace {s : String} :
    replace '_' '-' (replace '-' '_' s) = replace '_' '-' s := by
  rw [← String.toList_inj]
  simp only [toList_replace, List.map_map]
  refine List.map_congr_left fun c _ => ?_
  show (if (if c = '-' then '_' else c) = '_' then '-' else if c = '-' then '_' else c) = _
  split_ifs <;> simp_all

/-- **The forms differ in their separators only.** -/
theorem coherent :
    (parse debug name.kebab = .ok other → other.snake = name.snake) ∧
      (parse debug name.snake = .ok other → other.kebab = name.kebab) := by
  constructor
  · intro h
    rw [snake, parse_eq_ok.mp h]
    exact snake_replace
  · intro h
    rw [kebab, parse_eq_ok.mp h]
    exact kebab_replace

/-- Both separators are one byte long. -/
theorem utf8ByteSize_snake : name.snake.utf8ByteSize = name.asStr.utf8ByteSize := by
  rw [← String.utf8Len_toList, ← String.utf8Len_toList, snake, toList_replace]
  induction name.asStr.toList with
  | nil => rfl
  | cons c chars ih =>
    rw [List.map_cons, String.utf8Len_cons, String.utf8Len_cons, ih]
    split
    · next hdash =>
      rw [hdash]
      rfl
    · rfl

/-! ## Where a name is substituted

The grammars of the places a generated project has its name in: crates, images, directories, and
databases. -/

open Computability in
/-- `[a-z][a-z0-9_]*`. -/
def crateGrammar : Language Char :=
  .ofClass isAsciiLowercase *
    (Language.ofClass fun c => isAsciiLowercase c || isAsciiDigit c || c = '_')∗

/-- `[a-z0-9]+(-+[a-z0-9]+)*`. -/
def imageGrammar : Language Char :=
  .separated (fun c => isAsciiLowercase c || isAsciiDigit c) fun c => c = '-'

/-- A single component of a path that names an entry of its directory. -/
structure IsPathComponent (s : String) : Prop where
  nonempty : s ≠ ""
  unseparated : '/' ∉ s.toList ∧ '\\' ∉ s.toList
  noNul : '\x00' ∉ s.toList
  ordinary : s ≠ "." ∧ s ≠ ".."

/-- The name is usable as a directory, a crate, an image and a database, and its forms agree. -/
structure Usable (debug : Char → String) (name : ProjectName) : Prop where
  directory : IsPathComponent name.asStr
  crateName : name.snake.toList ∈ crateGrammar ∧ name.snake ∉ reserved
  image : name.kebab.toList ∈ imageGrammar
  database : name.snake.utf8ByteSize ≤ 63
  snakeOfKebab : ∀ other, parse debug name.kebab = .ok other → other.snake = name.snake
  kebabOfSnake : ∀ other, parse debug name.snake = .ok other → other.kebab = name.kebab

theorem toList_asStr (name : ProjectName) :
    ∃ c chars, name.asStr.toList = c :: chars ∧ isAsciiLowercase c = true ∧
      ∀ d ∈ chars, isNameCharacter d = true := by
  obtain ⟨c, hhead, hfirst⟩ := name.valid.first
  cases hchars : name.asStr.toList with
  | nil =>
    rw [hchars] at hhead
    cases hhead
  | cons d chars =>
    have hcharacters := name.valid.characters
    rw [hchars] at hhead hcharacters
    cases hhead
    exact ⟨c, chars, rfl, hfirst, (List.forall_mem_cons.mp hcharacters).2⟩

theorem isPathComponent (name : ProjectName) : IsPathComponent name.asStr where
  nonempty h := by
    obtain ⟨c, chars, hchars, _⟩ := name.toList_asStr
    rw [h] at hchars
    cases hchars
  unseparated := by
    constructor
    · intro hmem
      have hslash := name.valid.characters _ hmem
      revert hslash
      decide
    · intro hmem
      have hbackslash := name.valid.characters _ hmem
      revert hbackslash
      decide
  noNul hmem := by
    have hnul := name.valid.characters _ hmem
    revert hnul
    decide
  ordinary := by
    have hdot : '.' ∉ name.asStr.toList := by
      intro hmem
      have hdot := name.valid.characters _ hmem
      revert hdot
      decide
    constructor
    · intro h
      exact hdot (by simp [h])
    · intro h
      exact hdot (by simp [h])

theorem snake_mem_crateGrammar (name : ProjectName) : name.snake.toList ∈ crateGrammar := by
  obtain ⟨c, chars, hchars, hfirst, hrest⟩ := name.toList_asStr
  have hdash : c ≠ '-' := by
    rintro rfl
    cases hfirst
  rw [snake, toList_replace, hchars, List.map_cons, if_neg hdash]
  refine Language.append_mem_mul (a := [c]) ⟨c, rfl, hfirst⟩ (Language.mem_kstar_ofClass.mpr ?_)
  intro d hd
  obtain ⟨d', hd', rfl⟩ := List.mem_map.mp hd
  have hname := hrest d' hd'
  simp only [isNameCharacter, isSeparator] at hname
  split_ifs with h
  · rfl
  · simpa [h] using hname

/-- A separator becomes a dash, and everything else belongs to a word. -/
theorem kebab_letter {c : Char} (h : isNameCharacter c = true) :
    (isAsciiLowercase (if c = '_' then '-' else c) ||
      isAsciiDigit (if c = '_' then '-' else c)) = !isSeparator c := by
  by_cases hunderscore : c = '_'
  · subst hunderscore
    rfl
  · by_cases hdash : c = '-'
    · subst hdash
      rfl
    · have hseparator : isSeparator c = false := by simp [isSeparator, hdash, hunderscore]
      rw [if_neg hunderscore, hseparator]
      simpa [isNameCharacter, hseparator] using h

theorem kebab_dash {c : Char} (h : isSeparator c = true) :
    (if c = '_' then '-' else c) = '-' := by
  simp only [isSeparator, decide_eq_true_eq] at h
  rcases h with rfl | rfl <;> rfl

/-- **A name is an image name**, unless it ends in a separator. -/
theorem kebab_mem_imageGrammar_iff (name : ProjectName) :
    name.kebab.toList ∈ imageGrammar ↔
      ∀ c ∈ name.asStr.toList.getLast?, isSeparator c = false := by
  have hcharacters := name.valid.characters
  obtain ⟨c, chars, hchars, hfirst, hrest⟩ := name.toList_asStr
  have hunderscore : c ≠ '_' := by
    rintro rfl
    cases hfirst
  rw [imageGrammar, Language.mem_separated, kebab, toList_replace, List.getLast?_map]
  constructor
  · intro h d hd
    have hletter := h.2.2.2 _ (Option.mem_map_of_mem _ hd)
    rw [kebab_letter (hcharacters d (List.mem_of_mem_getLast? hd))] at hletter
    simpa using hletter
  · intro h
    refine ⟨by simp [hchars], ?_, ?_, ?_⟩
    · intro d hd
      obtain ⟨d', hd', rfl⟩ := List.mem_map.mp hd
      rw [kebab_letter (hcharacters d' hd')]
      cases hseparator : isSeparator d' with
      | true => exact Or.inr (decide_eq_true (kebab_dash hseparator))
      | false => exact Or.inl rfl
    · rw [hchars, List.map_cons, if_neg hunderscore]
      intro d hd
      cases hd
      simp [hfirst]
    · intro d hd
      obtain ⟨d', hd', rfl⟩ := Option.map_eq_some_iff.mp hd
      rw [kebab_letter (hcharacters d' (List.mem_of_mem_getLast? hd')), h d' hd']
      rfl

/-- **When an accepted name is usable.** It fits in 63 bytes, and does not end in a separator. -/
theorem usable_iff (h : parse debug input = .ok name) :
    Usable debug name ↔
      input.utf8ByteSize ≤ 63 ∧ ∀ c ∈ input.toList.getLast?, isSeparator c = false := by
  have hinput : name.asStr = input := parse_eq_ok.mp h
  rw [← hinput]
  constructor
  · intro husable
    refine ⟨?_, (kebab_mem_imageGrammar_iff name).mp husable.image⟩
    rw [← utf8ByteSize_snake]
    exact husable.database
  · intro hcondition
    exact
      { directory := name.isPathComponent
        crateName := ⟨name.snake_mem_crateGrammar, name.valid.unreserved⟩
        image := (kebab_mem_imageGrammar_iff name).mpr hcondition.2
        database := utf8ByteSize_snake.trans_le hcondition.1
        snakeOfKebab := fun other => coherent.1
        kebabOfSnake := fun other => coherent.2 }

/-! ## Names at the limits

A name that ends in a separator, and one of sixty-four characters. -/

/-- The `Debug` text of a printable character. -/
def quoted (c : Char) : String :=
  "'" ++ .singleton c ++ "'"

def sampleName : ProjectName :=
  ⟨"my-cool_app", by decide, ⟨'m', by decide, by decide⟩, List.all_eq_true.mp (by decide),
    by decide⟩

theorem usable_iff_sample : Usable quoted sampleName := by
  have hparse : parse quoted "my-cool_app" = .ok sampleName := parse_eq_ok.mpr rfl
  have hlast : "my-cool_app".toList.getLast? = some 'p' := by decide
  refine (usable_iff hparse).mpr ⟨by decide, fun c hc => ?_⟩
  rw [hlast] at hc
  cases hc
  rfl

def dashName : ProjectName :=
  ⟨"my-app-", by decide, ⟨'m', by decide, by decide⟩, List.all_eq_true.mp (by decide), by decide⟩

def longName : ProjectName :=
  ⟨"aaaaaaaaaaaaaaaaaaaaaaaaaaaaaaaaaaaaaaaaaaaaaaaaaaaaaaaaaaaaaaaa", by decide,
    ⟨'a', by decide, by decide⟩, List.all_eq_true.mp (by decide), by decide⟩

/-- A name that ends in a dash is no image name, and a name of 64 characters no identifier. -/
theorem unusable_names_accepted :
    (parse quoted "my-app-" = .ok dashName ∧ dashName.kebab.toList ∉ imageGrammar) ∧
    (parse quoted longName.asStr = .ok longName ∧ longName.snake.utf8ByteSize = 64) := by
  refine ⟨⟨parse_eq_ok.mpr rfl, ?_⟩, parse_eq_ok.mpr rfl, by decide⟩
  rw [kebab_mem_imageGrammar_iff]
  intro h
  have hdash : isSeparator '-' = false := h '-' (by decide)
  cases hdash

end ProjectName

end BaseSkeleton.Scaffold
