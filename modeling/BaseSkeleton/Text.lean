import Mathlib.Data.Finset.Dedup
import Mathlib.Data.List.DropRight
import BaseSkeleton.Lib.Words

/-!
# Operations on `str`

The parts of Rust's `str` the code uses. A string is the list of its characters; `trim_eq_empty`,
`trim_trim` and `mem_splitAsciiWhitespace` say what the code asks of it without the computation.
-/

namespace BaseSkeleton.Text

/-- `char::is_whitespace`: the Unicode property White_Space. -/
def isWhitespace (c : Char) : Bool :=
  (9 ≤ c.val ∧ c.val ≤ 13) ∨ c.val = 0x20 ∨ c.val = 0x85 ∨ c.val = 0xA0 ∨ c.val = 0x1680 ∨
    (0x2000 ≤ c.val ∧ c.val ≤ 0x200A) ∨ c.val = 0x2028 ∨ c.val = 0x2029 ∨ c.val = 0x202F ∨
      c.val = 0x205F ∨ c.val = 0x3000

/-- `char::is_ascii_whitespace`: tab, line feed, form feed, carriage return and space; the
vertical tab is not one. -/
def isAsciiWhitespace (c : Char) : Bool :=
  c.val = 9 ∨ c.val = 10 ∨ c.val = 12 ∨ c.val = 13 ∨ c.val = 0x20

/-- `str::trim`. -/
def trim (s : String) : String :=
  .ofList ((s.toList.dropWhile isWhitespace).reverse.dropWhile isWhitespace).reverse

/-- `str::trim_end_matches` for a single character. -/
def trimEndMatches (c : Char) (s : String) : String :=
  .ofList (s.toList.reverse.dropWhile (· == c)).reverse

/-- `str::split_ascii_whitespace`. -/
def splitAsciiWhitespace (s : String) : List String :=
  (s.toList.words isAsciiWhitespace).map String.ofList

/-- `str::split` at a character. -/
def split (sep : Char) (s : String) : List String :=
  (s.toList.splitOnP (· == sep)).map String.ofList

/-- `str::rsplit` at a character: the same pieces, the last one first. -/
def rsplit (sep : Char) (s : String) : List String :=
  (split sep s).reverse

/-- `s` is made of whitespace. -/
def IsBlank (s : String) : Prop :=
  ∀ c ∈ s.toList, isWhitespace c = true

instance (s : String) : Decidable (IsBlank s) :=
  inferInstanceAs (Decidable (∀ c ∈ s.toList, isWhitespace c = true))

theorem trim_eq_empty {s : String} : trim s = "" ↔ IsBlank s := by
  have hempty : ∀ l : List Char, String.ofList l.reverse = "" ↔ l = [] := by
    intro l
    rw [← String.toList_inj, String.toList_ofList]
    simp
  rw [trim, hempty, List.dropWhile_eq_nil_iff, IsBlank]
  simp only [List.mem_reverse]
  constructor
  · intro h c hc
    rw [← List.takeWhile_append_dropWhile (p := isWhitespace) (l := s.toList)] at hc
    rcases List.mem_append.mp hc with hc | hc
    · exact List.mem_takeWhile_imp hc
    · exact h c hc
  · intro h c hc
    exact h c ((List.dropWhile_sublist _).mem hc)

/-! ## Trimmed strings

What is at both ends of a trimmed string is not whitespace, and what is not whitespace is not lost.
-/

theorem mem_of_mem_trim {c : Char} {s : String} (h : c ∈ (trim s).toList) : c ∈ s.toList := by
  rw [trim, String.toList_ofList, List.mem_reverse] at h
  have hdropped := (List.dropWhile_sublist _).mem h
  rw [List.mem_reverse] at hdropped
  exact (List.dropWhile_sublist _).mem hdropped

theorem mem_dropWhile_of_mem {p : Char → Bool} {l : List Char} {c : Char} (hc : p c = false)
    (h : c ∈ l) : c ∈ l.dropWhile p := by
  induction l with
  | nil => cases h
  | cons d l ih =>
    rw [List.dropWhile_cons]
    split
    · next hd =>
      rcases List.mem_cons.mp h with hcd | hrest
      · rw [hcd, hd] at hc
        cases hc
      · exact ih hrest
    · exact h

/-- Trimming removes whitespace only. -/
theorem mem_trim_of_mem {c : Char} {s : String} (hc : isWhitespace c = false)
    (h : c ∈ s.toList) : c ∈ (trim s).toList := by
  rw [trim, String.toList_ofList, List.mem_reverse]
  refine mem_dropWhile_of_mem hc ?_
  rw [List.mem_reverse]
  exact mem_dropWhile_of_mem hc h

/-- A string that begins and ends with other characters than whitespace is trimmed. -/
theorem trim_eq_self {s : String}
    (hfirst : ∀ c ∈ s.toList.head?, isWhitespace c = false)
    (hlast : ∀ c ∈ s.toList.getLast?, isWhitespace c = false) : trim s = s := by
  have hkeep : ∀ l : List Char, (∀ c ∈ l.head?, isWhitespace c = false) →
      l.dropWhile isWhitespace = l := by
    intro l hl
    cases l with
    | nil => rfl
    | cons c l =>
      have hc : ¬ isWhitespace c = true := by simp [hl c rfl]
      rw [List.dropWhile_cons_of_neg hc]
  have hreversed : ∀ c ∈ s.toList.reverse.head?, isWhitespace c = false := by
    rw [List.head?_reverse]
    exact hlast
  rw [trim, hkeep _ hfirst, hkeep _ hreversed, List.reverse_reverse, String.ofList_toList]

theorem head?_dropWhile {p : Char → Bool} {l : List Char} {c : Char}
    (h : c ∈ (l.dropWhile p).head?) : p c = false := by
  induction l with
  | nil => cases h
  | cons d l ih =>
    cases hd : p d with
    | true =>
      rw [List.dropWhile_cons_of_pos hd] at h
      exact ih h
    | false =>
      rw [List.dropWhile_cons_of_neg (by simp [hd])] at h
      obtain rfl : d = c := Option.some.inj h
      exact hd

theorem trim_trim (s : String) : trim (trim s) = trim s := by
  refine trim_eq_self ?_ ?_
  · intro c hc
    rw [trim, String.toList_ofList, List.head?_reverse] at hc
    -- what is cut off the end leaves the first character where it was
    have hkept : c ∈ (s.toList.dropWhile isWhitespace).reverse.getLast? := by
      obtain ⟨cut, hcut⟩ := List.dropWhile_suffix (l := (s.toList.dropWhile isWhitespace).reverse)
        isWhitespace
      rw [← hcut, List.getLast?_append, Option.mem_def.mp hc]
      rfl
    rw [List.getLast?_reverse] at hkept
    exact head?_dropWhile hkept
  · intro c hc
    rw [trim, String.toList_ofList, List.getLast?_reverse] at hc
    exact head?_dropWhile hc

/-! ## Words -/

/-- `word` is one of the words of `s`. -/
def IsWordOf (word s : String) : Prop :=
  List.IsWordOf isAsciiWhitespace word.toList s.toList

theorem mem_splitAsciiWhitespace {word s : String} :
    word ∈ splitAsciiWhitespace s ↔ IsWordOf word s := by
  rw [splitAsciiWhitespace, IsWordOf, ← List.mem_words, List.mem_map]
  constructor
  · rintro ⟨l, hl, rfl⟩
    rwa [String.toList_ofList]
  · intro h
    exact ⟨word.toList, h, String.ofList_toList⟩

/-! ## Pieces

A string is cut at every occurrence of a separator, so that `n` of them make `n + 1` pieces. -/

theorem split_append (sep : Char) (s t : List Char) :
    split sep (.ofList (s ++ sep :: t)) = split sep (.ofList s) ++ split sep (.ofList t) := by
  have hpieces := List.splitOnP_append_cons (p := (· == sep)) s t (beq_self_eq_true sep)
  simp only [split, String.toList_ofList]
  rw [hpieces, List.map_append]

/-! ## Lines

A slice of a text is its list of characters.
-/

/-- `str::trim_end`. -/
def trimEnd (s : List Char) : List Char :=
  s.rdropWhile isWhitespace

/-- `str::split_inclusive` at a newline. -/
def splitInclusive : List Char → List (List Char)
  | [] => []
  | c :: s =>
    if c = '\n' then [c] :: splitInclusive s
    else match splitInclusive s with
      | [] => [[c]]
      | line :: lines => (c :: line) :: lines

/-- A line without its `\n` or `\r\n`. -/
def stripLineEnd (line : List Char) : List Char :=
  match line.dropSuffix? ['\n'] with
  | none => line
  | some line => (line.dropSuffix? ['\r']).getD line

/-- `str::lines`. -/
def lines (s : List Char) : List (List Char) :=
  (splitInclusive s).map stripLineEnd

/-- Where a line ends. -/
def EndsLine (tail : List Char) : Prop :=
  tail = [] ∨ (∃ next, tail = '\n' :: next) ∨ ∃ next, tail = '\r' :: '\n' :: next

variable {s t line tail : List Char}

theorem splitInclusive_append (hline : '\n' ∉ line) :
    splitInclusive (line ++ '\n' :: tail) = (line ++ ['\n']) :: splitInclusive tail := by
  induction line with
  | nil => rfl
  | cons c line ih =>
    rw [List.mem_cons, not_or] at hline
    rw [List.cons_append, splitInclusive, if_neg (Ne.symm hline.1), ih hline.2]
    rfl

theorem splitInclusive_eq_singleton (hline : '\n' ∉ line) (hne : line ≠ []) :
    splitInclusive line = [line] := by
  induction line with
  | nil => exact absurd rfl hne
  | cons c line ih =>
    rw [List.mem_cons, not_or] at hline
    rw [splitInclusive, if_neg (Ne.symm hline.1)]
    cases line with
    | nil => rfl
    | cons d line => rw [ih hline.2 (List.cons_ne_nil d line)]

theorem dropSuffix?_eq_some : s.dropSuffix? t = some line ↔ s = line ++ t := by
  rw [List.dropSuffix?_eq_some_iff]
  constructor
  · rintro ⟨t', hs, ht⟩
    rw [hs, eq_of_beq ht]
  · intro hs
    exact ⟨t, hs, beq_self_eq_true t⟩

theorem dropPrefix?_eq_some : s.dropPrefix? t = some line ↔ s = t ++ line := by
  rw [List.dropPrefix?_eq_some_iff]
  constructor
  · rintro ⟨t', hs, ht⟩
    rw [hs, eq_of_beq ht]
  · intro hs
    exact ⟨t, hs, beq_self_eq_true t⟩

theorem stripLineEnd_newline (hreturn : '\r' ∉ line.getLast?) :
    stripLineEnd (line ++ ['\n']) = line := by
  have hnewline : (line ++ ['\n']).dropSuffix? ['\n'] = some line := dropSuffix?_eq_some.mpr rfl
  have hnone : line.dropSuffix? ['\r'] = none := by
    rw [Option.eq_none_iff_forall_ne_some]
    intro init hinit
    rw [dropSuffix?_eq_some.mp hinit] at hreturn
    exact hreturn (by simp)
  simp only [stripLineEnd, hnewline, hnone, Option.getD_none]

theorem stripLineEnd_return : stripLineEnd (line ++ ['\r', '\n']) = line := by
  have hnewline : (line ++ ['\r', '\n']).dropSuffix? ['\n'] = some (line ++ ['\r']) :=
    dropSuffix?_eq_some.mpr (by simp)
  have hreturn : (line ++ ['\r']).dropSuffix? ['\r'] = some line := dropSuffix?_eq_some.mpr rfl
  simp only [stripLineEnd, hnewline, hreturn, Option.getD_some]

theorem stripLineEnd_of_not_mem (hline : '\n' ∉ line) : stripLineEnd line = line := by
  have hnone : line.dropSuffix? ['\n'] = none := by
    rw [Option.eq_none_iff_forall_ne_some]
    intro init hinit
    rw [dropSuffix?_eq_some.mp hinit] at hline
    exact hline (by simp)
  simp only [stripLineEnd, hnone]

theorem lines_append (hline : '\n' ∉ line) (hreturn : '\r' ∉ line.getLast?) :
    lines (line ++ '\n' :: tail) = line :: lines tail := by
  rw [lines, splitInclusive_append hline, List.map_cons, stripLineEnd_newline hreturn, lines]

theorem head?_lines (hline : '\n' ∉ line) (hreturn : '\r' ∉ line.getLast?) (hne : line ≠ [])
    (htail : EndsLine tail) : (lines (line ++ tail)).head? = some line := by
  rcases htail with rfl | ⟨next, rfl⟩ | ⟨next, rfl⟩
  · rw [List.append_nil, lines, splitInclusive_eq_singleton hline hne, List.map_singleton,
      stripLineEnd_of_not_mem hline, List.head?_cons]
  · rw [lines_append hline hreturn, List.head?_cons]
  · have hline' : '\n' ∉ line ++ ['\r'] := by simp [hline]
    have hsplit : line ++ '\r' :: '\n' :: next = (line ++ ['\r']) ++ '\n' :: next := by simp
    rw [hsplit, lines, splitInclusive_append hline', List.append_assoc, List.map_cons,
      List.head?_cons]
    exact congrArg some stripLineEnd_return

/-- **The first line** of a text ends where the text does, or at its first newline. -/
theorem of_head?_lines (h : (lines s).head? = some line) :
    '\n' ∉ line ∧ ∃ tail, EndsLine tail ∧ s = line ++ tail := by
  by_cases hmem : '\n' ∈ s
  · obtain ⟨first, next, rfl, hfirst⟩ := List.eq_append_cons_of_mem hmem
    by_cases hreturn : '\r' ∈ first.getLast?
    · obtain ⟨init, rfl⟩ := List.getLast?_eq_some_iff.mp hreturn
      rw [lines, splitInclusive_append hfirst, List.map_cons, List.head?_cons,
        List.append_assoc] at h
      have hinit : init = line := stripLineEnd_return.symm.trans (Option.some.inj h)
      subst hinit
      exact ⟨fun hnewline => hfirst (by simp [hnewline]), _, Or.inr (Or.inr ⟨next, rfl⟩), by simp⟩
    · rw [lines_append hfirst hreturn, List.head?_cons] at h
      obtain rfl := Option.some.inj h
      exact ⟨hfirst, _, Or.inr (Or.inl ⟨next, rfl⟩), rfl⟩
  · cases s with
    | nil => cases h
    | cons c s =>
      rw [lines, splitInclusive_eq_singleton hmem (List.cons_ne_nil c s), List.map_singleton,
        stripLineEnd_of_not_mem hmem, List.head?_cons] at h
      obtain rfl := Option.some.inj h
      exact ⟨hmem, [], Or.inl rfl, (List.append_nil _).symm⟩

/-- The characters from `!` to `~` are no whitespace. -/
theorem isWhitespace_of_graphic {c : Char} (hlow : '!' ≤ c) (hhigh : c ≤ '~') :
    isWhitespace c = false := by
  rw [Char.le_def, UInt32.le_iff_toNat_le] at hlow hhigh
  have hlow' : 33 ≤ c.val.toNat := hlow
  have hhigh' : c.val.toNat ≤ 126 := hhigh
  simp only [isWhitespace, decide_eq_false_iff_not, UInt32.le_iff_toNat_le, ← UInt32.toNat_inj,
    UInt32.reduceToNat]
  omega

theorem trimEnd_append (hline : ∀ c ∈ line.getLast?, isWhitespace c = false)
    (htail : ∀ c ∈ tail, isWhitespace c = true) : trimEnd (line ++ tail) = line := by
  induction tail using List.reverseRecOn with
  | nil =>
    rw [List.append_nil, trimEnd, List.rdropWhile_eq_self_iff]
    intro hne
    simpa using hline _ (List.getLast_mem_getLast? hne)
  | append_singleton tail c ih =>
    rw [← List.append_assoc, trimEnd, List.rdropWhile_concat_pos _ _ c (htail c (by simp))]
    exact ih fun d hd => htail d (by simp [hd])

end BaseSkeleton.Text
