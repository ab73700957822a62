import BaseSkeleton.Text

/-!
# `str::to_lowercase`

The algorithm of the standard library over the tables of Unicode: every character is replaced by
its lowercase mapping, except that a capital sigma at the end of a word becomes a final one. The
tables are a `CaseMapping`, which carries what all versions of Unicode promise about them.

* `toLowercase_toLowercase` — lowercasing twice is lowercasing once.
* `mem_toLowercase_iff` — lowercasing neither adds nor removes a character that delimits.
-/

namespace BaseSkeleton.Text

/-- The characters that delimit something in a string: whitespace, the `@` and `.` of an email
address, and the NUL that PostgreSQL does not store. -/
def delimits (c : Char) : Bool :=
  isWhitespace c || c = '@' || c = '.' || c = '\x00'

/-- The Unicode data that lowercasing reads. -/
structure CaseMapping where
  /-- `conversions::to_lower` -/
  lower : Char → List Char
  /-- the property Cased -/
  cased : Char → Bool
  /-- the property Case_Ignorable -/
  caseIgnorable : Char → Bool
  lower_lower : ∀ c, ∀ d ∈ lower c, lower d = [d]
  lower_sigma : lower 'Σ' = ['σ']
  lower_finalSigma : lower 'ς' = ['ς']
  lower_delimits : ∀ c, ∀ d ∈ lower c, delimits d = true → d = c
  lower_of_delimits : ∀ c, delimits c = true → lower c = [c]

namespace CaseMapping

variable (u : CaseMapping)

/-- `case_ignorable_then_cased`. -/
def caseIgnorableThenCased (chars : List Char) : Bool :=
  (chars.dropWhile u.caseIgnorable).head?.any u.cased

/-- `map_uppercase_sigma`: `before` is what comes before the sigma, nearest first. -/
def mapUppercaseSigma (before rest : List Char) : Char :=
  if u.caseIgnorableThenCased before && !u.caseIgnorableThenCased rest then 'ς' else 'σ'

/-- The characters of the lowercase of `chars`, which come after `before`. -/
def lowercaseChars (before : List Char) : List Char → List Char
  | [] => []
  | c :: rest =>
    (if c = 'Σ' then [u.mapUppercaseSigma before rest] else u.lower c) ++
      lowercaseChars (c :: before) rest

/-- `str::to_lowercase`. -/
def toLowercase (s : String) : String :=
  .ofList (u.lowercaseChars [] s.toList)

variable {u} {c d : Char} {before chars : List Char}

/-- A character of a lowercase string is its own lowercase, and no capital sigma. -/
theorem lower_of_mem_lowercaseChars (h : d ∈ u.lowercaseChars before chars) :
    u.lower d = [d] ∧ d ≠ 'Σ' := by
  have hsmall : u.lower 'σ' = ['σ'] := u.lower_lower 'Σ' 'σ' (by simp [u.lower_sigma])
  have hfixed : u.lower d = [d] → d ≠ 'Σ' := by
    intro hd heq
    rw [heq, u.lower_sigma] at hd
    exact absurd hd (by decide)
  induction chars generalizing before with
  | nil => cases h
  | cons c rest ih =>
    rcases List.mem_append.mp h with h | h
    · split at h
      · -- both lowercase sigmas are lowercase
        rw [List.mem_singleton, mapUppercaseSigma] at h
        split at h
        · rw [h]
          exact ⟨u.lower_finalSigma, by decide⟩
        · rw [h]
          exact ⟨hsmall, by decide⟩
      · have hd := u.lower_lower c d h
        exact ⟨hd, hfixed hd⟩
    · exact ih h

/-- A text whose characters are their own lowercase stays as it is. -/
theorem lowercaseChars_of_lower (h : ∀ c ∈ chars, u.lower c = [c] ∧ c ≠ 'Σ') :
    u.lowercaseChars before chars = chars := by
  induction chars generalizing before with
  | nil => rfl
  | cons c rest ih =>
    rw [List.forall_mem_cons] at h
    obtain ⟨⟨hlower, hsigma⟩, hrest⟩ := h
    rw [lowercaseChars, if_neg hsigma, hlower, ih hrest]
    rfl

/-- **Lowercasing is idempotent.** -/
theorem toLowercase_toLowercase (s : String) :
    u.toLowercase (u.toLowercase s) = u.toLowercase s := by
  rw [toLowercase, toLowercase, String.toList_ofList]
  rw [lowercaseChars_of_lower fun d hd => lower_of_mem_lowercaseChars hd]

/-- A delimiter is lowercased to itself, and nothing else is lowercased to one. -/
theorem mem_lowercaseChars_iff (hd : delimits d = true) :
    d ∈ u.lowercaseChars before chars ↔ d ∈ chars := by
  have hsigma : d ≠ 'Σ' ∧ d ≠ 'σ' ∧ d ≠ 'ς' := by
    refine ⟨?_, ?_, ?_⟩ <;> (intro heq; rw [heq] at hd; exact absurd hd (by decide))
  induction chars generalizing before with
  | nil => rfl
  | cons c rest ih =>
    have hrest : d ∈ u.lowercaseChars (c :: before) rest ↔ d ∈ rest := ih
    rw [lowercaseChars, List.mem_append, List.mem_cons, hrest]
    refine or_congr_left ?_
    split
    · next hc =>
      rw [List.mem_singleton, mapUppercaseSigma, hc]
      constructor
      · intro h
        split at h
        · exact absurd h hsigma.2.2
        · exact absurd h hsigma.2.1
      · intro h
        exact absurd h hsigma.1
    · constructor
      · intro h
        exact u.lower_delimits c d h hd
      · intro h
        rw [← h, u.lower_of_delimits d hd]
        exact List.mem_singleton_self d

/-- Lowercasing neither adds nor removes a character that delimits. -/
theorem mem_toLowercase_iff {s : String} (hd : delimits d = true) :
    d ∈ (u.toLowercase s).toList ↔ d ∈ s.toList := by
  rw [toLowercase, String.toList_ofList, mem_lowercaseChars_iff hd]

end CaseMapping

/-! ## The tables of ASCII

A model of the tables, for the examples: the capitals of ASCII have the small letters they have, and
every other character is its own lowercase. -/

/-- The capital letters of ASCII, and the sigma. -/
def asciiCapitals : List (Char × Char) :=
  [('A', 'a'), ('B', 'b'), ('C', 'c'), ('D', 'd'), ('E', 'e'), ('F', 'f'), ('G', 'g'), ('H',
    'h'), ('I', 'i'), ('J', 'j'), ('K', 'k'), ('L', 'l'), ('M', 'm'), ('N', 'n'), ('O', 'o'),
    ('P', 'p'), ('Q', 'q'), ('R', 'r'), ('S', 's'), ('T', 't'), ('U', 'u'), ('V', 'v'), ('W',
    'w'), ('X', 'x'), ('Y', 'y'), ('Z', 'z'), ('Σ', 'σ')]

def asciiLower (c : Char) : List Char :=
  match asciiCapitals.find? fun p => p.1 = c with
  | some p => [p.2]
  | none => [c]

/-- The lowercase of a capital is a letter that stays as it is. -/
theorem asciiCapitals_lower : ∀ p ∈ asciiCapitals,
    asciiLower p.2 = [p.2] ∧ delimits p.1 = false ∧ delimits p.2 = false := by
  decide

/-- A capital is mapped to its small letter, anything else to itself. -/
theorem asciiLower_cases (c : Char) :
    (∃ p ∈ asciiCapitals, p.1 = c ∧ asciiLower c = [p.2]) ∨ asciiLower c = [c] := by
  unfold asciiLower
  split
  · next p h =>
    refine Or.inl ⟨p, List.mem_of_find?_eq_some h, ?_, rfl⟩
    simpa using List.find?_some h
  · exact Or.inr rfl

/-- What Unicode says of ASCII, and of the sigmas. -/
def asciiCase : CaseMapping where
  lower := asciiLower
  cased c := c.isAlpha || c = 'Σ' || c = 'σ' || c = 'ς'
  caseIgnorable c := c = '\'' || c = '.' || c = ':' || c = '^' || c = '\x60'
  lower_lower c d hd := by
    rcases asciiLower_cases c with ⟨p, hp, _, hlower⟩ | hlower
    · rw [hlower, List.mem_singleton] at hd
      rw [hd]
      exact (asciiCapitals_lower p hp).1
    · rw [hlower, List.mem_singleton] at hd
      rw [hd]
      exact hlower
  lower_sigma := by decide
  lower_finalSigma := by decide
  lower_delimits c d hd hdelimits := by
    rcases asciiLower_cases c with ⟨p, hp, _, hlower⟩ | hlower
    · rw [hlower, List.mem_singleton] at hd
      rw [hd, (asciiCapitals_lower p hp).2.2] at hdelimits
      cases hdelimits
    · rw [hlower, List.mem_singleton] at hd
      exact hd
  lower_of_delimits c hdelimits := by
    rcases asciiLower_cases c with ⟨p, hp, hc, _⟩ | hlower
    · rw [← hc, (asciiCapitals_lower p hp).2.1] at hdelimits
      cases hdelimits
    · exact hlower

end BaseSkeleton.Text
