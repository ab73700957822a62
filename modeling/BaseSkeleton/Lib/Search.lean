import Mathlib.Algebra.BigOperators.Group.List.Lemmas
import Mathlib.Algebra.GroupWithZero.Nat
import Mathlib.Data.List.MinMax

/-!
# Searching and replacing in a text

A text is the list of its letters. `matchIndices` finds where a pattern begins, `slices` cuts a text
at such places, and `replaceAll` replaces the longest of several patterns wherever one begins.

* `slices_matchIndices` — a text whose pieces begin with the pattern, and begin it nowhere else, is
  cut into these pieces.
* `replaceAll_append_cons` — a letter of no pattern separates what is replaced.
* `getLast?_replaceAll` — the text ends as it did, or as a replacement does.
-/

namespace List

variable {α : Type*} {body p a b c : List α} {x z : α}

/-! ## Where a pattern begins

The patterns `body ++ [z]` of these lemmas end in a letter that is nowhere else in them, as a line
does in its break. -/

/-- A pattern ends in the first text, or reaches into the second one. -/
theorem prefix_append_cases (h : p <+: a ++ b) :
    p <+: a ∨ ∃ reach, reach ≠ [] ∧ p = a ++ reach ∧ reach <+: b := by
  obtain ⟨rest, hrest⟩ := h
  rcases append_eq_append_iff.mp hrest with ⟨reach, ha, _⟩ | ⟨reach, hp, hb⟩
  · exact Or.inl ⟨reach, ha.symm⟩
  · by_cases hne : reach = []
    · rw [hne, append_nil] at hp
      exact Or.inl (hp ▸ prefix_rfl)
    · exact Or.inr ⟨reach, hne, hp, rest, hb.symm⟩

/-- A pattern that ends in its only `z` does not reach beyond a `z`. -/
theorem prefix_of_append_cons (hbody : z ∉ body) (h : body ++ [z] <+: a ++ z :: b) :
    body ++ [z] <+: a ++ [z] := by
  have hsplit : body ++ [z] <+: (a ++ [z]) ++ b := by
    rwa [append_assoc, singleton_append]
  rcases prefix_append_cases hsplit with hshort | ⟨reach, hne, hpattern, _⟩
  · exact hshort
  · obtain ⟨init, last, rfl⟩ := (eq_nil_or_concat' reach).resolve_left hne
    rw [← append_assoc] at hpattern
    have hinit : body = a ++ [z] ++ init := append_inj_left' hpattern rfl
    exact absurd (by simp [hinit]) hbody

/-- A pattern that ends in `z` does not reach into a text without `z`. -/
theorem prefix_of_append (hb : z ∉ b) (h : body ++ [z] <+: a ++ b) : body ++ [z] <+: a := by
  rcases prefix_append_cases h with hshort | ⟨reach, hne, hpattern, hreach⟩
  · exact hshort
  · obtain ⟨init, last, rfl⟩ := (eq_nil_or_concat' reach).resolve_left hne
    rw [← append_assoc] at hpattern
    have hlast : z = last := (cons.inj (append_inj_right' hpattern rfl)).1
    exact absurd (hreach.subset (by simp [hlast])) hb

/-- A pattern without `x` ends before an `x`. -/
theorem prefix_append_cons_iff (hx : x ∉ p) : p <+: a ++ x :: b ↔ p <+: a := by
  constructor
  · intro h
    rcases prefix_append_cases h with hshort | ⟨reach, hne, hpattern, hreach⟩
    · exact hshort
    · cases reach with
      | nil => exact absurd rfl hne
      | cons y reach =>
        have hy : y = x := (cons_prefix_cons.mp hreach).1
        exact absurd (by simp [hpattern, hy]) hx
  · intro h
    exact h.trans (prefix_append a (x :: b))

/-- `p` begins nowhere in `a`, when `b` follows. -/
def BeginsNowhere (p a b : List α) : Prop :=
  ∀ d e, a = d ++ e → e ≠ [] → ¬ p <+: e ++ b

theorem BeginsNowhere.append (ha : BeginsNowhere p a (c ++ b)) (hc : BeginsNowhere p c b) :
    BeginsNowhere p (a ++ c) b := by
  intro d e hsplit he
  rcases append_eq_append_iff.mp hsplit with ⟨as, _, hc'⟩ | ⟨as, ha', he'⟩
  · exact hc as e hc' he
  · cases as with
    | nil =>
      rw [nil_append] at he'
      rw [he'] at he ⊢
      exact hc [] c rfl he
    | cons y as =>
      rw [he', append_assoc]
      exact ha d (y :: as) ha' (cons_ne_nil y as)

theorem BeginsNowhere.of_cons (h : BeginsNowhere p (x :: a) b) : BeginsNowhere p a b := by
  intro d e hsplit
  exact h (x :: d) e (by rw [hsplit, cons_append])

/-- A text that does not contain the pattern, before the pattern. -/
theorem beginsNowhere_of_not_infix (hbody : z ∉ body) (h : ¬ body ++ [z] <:+: a) :
    BeginsNowhere (body ++ [z]) a (body ++ [z] ++ b) := by
  rintro d e rfl he hprefix
  have hlength : (body ++ [z]).length ≤ (e ++ body).length := by
    have hpos : 0 < e.length := length_pos_iff.mpr he
    simp only [length_append, length_singleton]
    omega
  have hshort : body ++ [z] <+: e ++ body := by
    refine prefix_of_prefix_length_le hprefix ?_ hlength
    rw [append_assoc, ← append_assoc e]
    exact prefix_append _ _
  have hpart : body ++ [z] <:+: e := (prefix_of_append hbody hshort).isInfix
  exact h (hpart.trans (suffix_append d e).isInfix)

/-- A text that ends where the pattern does, and does not contain it. -/
theorem beginsNowhere_concat (hbody : z ∉ body) (h : ¬ body ++ [z] <:+: a ++ [z]) :
    BeginsNowhere (body ++ [z]) (a ++ [z]) b := by
  intro d e hsplit he hprefix
  rcases eq_nil_or_concat e with rfl | ⟨e', z', rfl⟩
  · exact he rfl
  · rw [concat_eq_append] at hsplit hprefix
    rw [← append_assoc] at hsplit
    have hz : z' = z := by
      have hlast := append_inj_right' hsplit rfl
      exact (cons.inj hlast).1.symm
    rw [hz] at hsplit hprefix
    rw [append_assoc, singleton_append] at hprefix
    have hpart : body ++ [z] <:+: e' ++ [z] := (prefix_of_append_cons hbody hprefix).isInfix
    rw [hsplit, append_assoc] at h
    exact h (hpart.trans (suffix_append d _).isInfix)

theorem beginsNowhere_singleton (hbody : z ∉ body) (hne : body ≠ []) :
    BeginsNowhere (body ++ [z]) [z] b := by
  have hshort : ¬ body ++ [z] <:+: [] ++ [z] := by
    intro hpart
    have hlength := hpart.length_le
    have hpos : 0 < body.length := length_pos_iff.mpr hne
    simp only [length_append, length_nil, length_singleton] at hlength
    omega
  exact beginsNowhere_concat hbody hshort

/-! ## Offsets

They are found from left to right, and do not overlap. -/

section Offsets

variable [BEq α] {pattern : List α}

/-- The offsets at which `pattern` begins, without overlaps; `skip` letters belong to the last
match, and the head of the text has offset `i`. -/
def matchIndicesFrom (pattern : List α) : Nat → Nat → List α → List Nat
  | _, _, [] => []
  | skip + 1, i, _ :: text => matchIndicesFrom pattern skip (i + 1) text
  | 0, i, x :: text =>
    if pattern.isPrefixOf (x :: text) then
      i :: matchIndicesFrom pattern (pattern.length - 1) (i + 1) text
    else matchIndicesFrom pattern 0 (i + 1) text

/-- `str::match_indices`. -/
def matchIndices (pattern text : List α) : List Nat :=
  matchIndicesFrom pattern 0 0 text

/-- The slices of a text, from each of the offsets to the next one. -/
def slices (starts : List Nat) (text : List α) : List (List α) :=
  starts.mapIdx fun n start => (text.take (starts[n + 1]?.getD text.length)).drop start

theorem matchIndicesFrom_skip (a b : List α) (i : Nat) :
    matchIndicesFrom pattern a.length i (a ++ b) =
      matchIndicesFrom pattern 0 (i + a.length) b := by
  induction a generalizing i with
  | nil => rfl
  | cons x a ih =>
    rw [length_cons, cons_append, matchIndicesFrom, ih]
    congr 1
    omega

variable [LawfulBEq α]

theorem matchIndicesFrom_of_beginsNowhere (h : BeginsNowhere pattern a b) (i : Nat) :
    matchIndicesFrom pattern 0 i (a ++ b) = matchIndicesFrom pattern 0 (i + a.length) b := by
  induction a generalizing i with
  | nil => rfl
  | cons x a ih =>
    have hhead : ¬ pattern.isPrefixOf (x :: (a ++ b)) = true := by
      intro hmatch
      have hbegins := isPrefixOf_iff_prefix.mp hmatch
      exact h [] (x :: a) rfl (cons_ne_nil x a) hbegins
    rw [cons_append, matchIndicesFrom, if_neg hhead, ih h.of_cons, length_cons]
    congr 1
    omega

theorem matchIndicesFrom_match (hpattern : pattern ≠ []) (b : List α) (i : Nat) :
    matchIndicesFrom pattern 0 i (pattern ++ b) =
      i :: matchIndicesFrom pattern 0 (i + pattern.length) b := by
  cases pattern with
  | nil => exact absurd rfl hpattern
  | cons x rest =>
    have hhead : (x :: rest).isPrefixOf (x :: (rest ++ b)) = true := by
      have hbegins : x :: rest <+: x :: (rest ++ b) := prefix_append _ _
      exact isPrefixOf_iff_prefix.mpr hbegins
    rw [cons_append, matchIndicesFrom, if_pos hhead, length_cons, Nat.add_sub_cancel,
      matchIndicesFrom_skip]
    congr 2
    omega

/-- The first match is where the pattern first begins. -/
theorem head?_matchIndices (hpattern : pattern ≠ [])
    (h : BeginsNowhere pattern a (pattern ++ b)) :
    (matchIndices pattern (a ++ (pattern ++ b))).head? = some a.length := by
  rw [matchIndices, matchIndicesFrom_of_beginsNowhere h, matchIndicesFrom_match hpattern,
    head?_cons, Nat.zero_add]

/-- A piece of a text: the pattern begins it, and nothing else in it. -/
def IsPiece (pattern piece : List α) : Prop :=
  ∃ tail, piece = pattern ++ tail ∧ ∀ b, BeginsNowhere pattern tail b

variable {pieces : List (List α)}

/-- The matches are the places where the pieces begin. -/
theorem matchIndicesFrom_flatten (hpattern : pattern ≠ [])
    (hpieces : ∀ piece ∈ pieces, IsPiece pattern piece) (i : Nat) :
    matchIndicesFrom pattern 0 i pieces.flatten =
      (range pieces.length).map fun n => i + ((pieces.map length).take n).sum := by
  induction pieces generalizing i with
  | nil => rfl
  | cons piece pieces ih =>
    rw [forall_mem_cons] at hpieces
    obtain ⟨tail, rfl, htail⟩ := hpieces.1
    rw [flatten_cons, append_assoc, matchIndicesFrom_match hpattern,
      matchIndicesFrom_of_beginsNowhere (htail _), ih hpieces.2, length_cons, range_succ_eq_map,
      map_cons, map_map]
    congr 1
    refine map_congr_left fun n _ => ?_
    simp only [Function.comp_apply, map_cons, take_succ_cons, sum_cons, length_append]
    omega

/-- **A text is cut into its pieces.** -/
theorem slices_matchIndices (hpattern : pattern ≠ [])
    (hpieces : ∀ piece ∈ pieces, IsPiece pattern piece) :
    slices (matchIndices pattern pieces.flatten) pieces.flatten = pieces := by
  have hstarts : matchIndices pattern pieces.flatten =
      (range pieces.length).map fun n => ((pieces.map length).take n).sum := by
    simpa [matchIndices] using matchIndicesFrom_flatten hpattern hpieces 0
  rw [hstarts]
  refine ext_getElem (by simp [slices]) fun n _ hn => ?_
  -- a slice ends where the next piece begins, and the last one where the text ends
  have hend : ((range pieces.length).map fun k => ((pieces.map length).take k).sum)[n + 1]?.getD
      pieces.flatten.length = ((pieces.map length).take (n + 1)).sum := by
    by_cases hlast : n + 1 < pieces.length
    · simp [hlast]
    · have hall : (pieces.map length).take (n + 1) = pieces.map length := by
        refine take_of_length_le ?_
        rw [length_map]
        omega
      rw [hall, ← length_flatten, getElem?_eq_none (by simpa using hlast), Option.getD_none]
  rw [← drop_take_succ_flatten_eq_getElem pieces n hn]
  simp only [slices, getElem_mapIdx, hend, getElem_map, getElem_range]

end Offsets

/-! ## Replacements

At each place the longest pattern that begins there is replaced, and the search goes on behind it.
-/

section Replacements

variable [BEq α] {pairs : List (List α × List α)}

/-- The longest of the patterns that a text begins with, and what replaces it. -/
def longestMatch (pairs : List (List α × List α)) (text : List α) : Option (List α × List α) :=
  (pairs.filter fun pair => pair.1.isPrefixOf text).argmax fun pair => pair.1.length

/-- The replaced text; `skip` letters belong to the last match. -/
def replaceAllFrom (pairs : List (List α × List α)) : Nat → List α → List α
  | _, [] => []
  | skip + 1, _ :: text => replaceAllFrom pairs skip text
  | 0, x :: text =>
    match longestMatch pairs (x :: text) with
    | some (pattern, replacement) =>
      replacement ++ replaceAllFrom pairs (pattern.length - 1) text
    | none => x :: replaceAllFrom pairs 0 text

/-- The text with the leftmost and longest occurrences of the patterns replaced, in one pass. -/
def replaceAll (pairs : List (List α × List α)) (text : List α) : List α :=
  replaceAllFrom pairs 0 text

theorem replaceAllFrom_of_none {text : List α} (h : longestMatch pairs (x :: text) = none) :
    replaceAllFrom pairs 0 (x :: text) = x :: replaceAllFrom pairs 0 text := by
  rw [replaceAllFrom, h]

theorem replaceAllFrom_of_some {pair : List α × List α} {text : List α}
    (h : longestMatch pairs (x :: text) = some pair) :
    replaceAllFrom pairs 0 (x :: text) =
      pair.2 ++ replaceAllFrom pairs (pair.1.length - 1) text := by
  rw [replaceAllFrom, h]

/-- Every pattern has a letter. -/
def HavePatterns (pairs : List (List α × List α)) : Prop :=
  ∀ pair ∈ pairs, pair.1 ≠ []

variable [LawfulBEq α]

theorem longestMatch_nil (hpairs : HavePatterns pairs) : longestMatch pairs [] = none := by
  have hnone : (pairs.filter fun pair => pair.1.isPrefixOf []) = [] := by
    rw [filter_eq_nil_iff]
    intro pair hpair hmatch
    have hbegins := isPrefixOf_iff_prefix.mp hmatch
    exact hpairs pair hpair (prefix_nil.mp hbegins)
  rw [longestMatch, hnone]
  rfl

theorem prefix_of_longestMatch {pair : List α × List α} {text : List α}
    (h : longestMatch pairs text = some pair) : pair ∈ pairs ∧ pair.1 <+: text := by
  have hmem := mem_filter.mp (argmax_mem h)
  exact ⟨hmem.1, isPrefixOf_iff_prefix.mp hmem.2⟩

/-- A letter of no pattern ends every match before it. -/
theorem longestMatch_append_cons (hx : ∀ pair ∈ pairs, x ∉ pair.1) :
    longestMatch pairs (a ++ x :: b) = longestMatch pairs a := by
  have hfilter : (pairs.filter fun pair => pair.1.isPrefixOf (a ++ x :: b)) =
      pairs.filter fun pair => pair.1.isPrefixOf a := by
    refine filter_congr fun pair hpair => ?_
    rw [Bool.eq_iff_iff, isPrefixOf_iff_prefix, isPrefixOf_iff_prefix]
    exact prefix_append_cons_iff (hx pair hpair)
  rw [longestMatch, hfilter, longestMatch]

theorem replaceAllFrom_append_cons (hpairs : HavePatterns pairs)
    (hx : ∀ pair ∈ pairs, x ∉ pair.1) {skip : Nat} (hskip : skip ≤ a.length) :
    replaceAllFrom pairs skip (a ++ x :: b) =
      replaceAllFrom pairs skip a ++ x :: replaceAllFrom pairs 0 b := by
  induction a generalizing skip with
  | nil =>
    have hzero : skip = 0 := Nat.le_zero.mp hskip
    have hnone : longestMatch pairs (x :: b) = none :=
      (longestMatch_append_cons (a := []) hx).trans (longestMatch_nil hpairs)
    subst hzero
    exact replaceAllFrom_of_none hnone
  | cons y a ih =>
    rw [length_cons] at hskip
    cases skip with
    | succ skip =>
      rw [cons_append, replaceAllFrom, replaceAllFrom]
      exact ih (by omega)
    | zero =>
      have hmatch : longestMatch pairs (y :: (a ++ x :: b)) = longestMatch pairs (y :: a) :=
        longestMatch_append_cons (a := y :: a) hx
      cases hlongest : longestMatch pairs (y :: a) with
      | none =>
        rw [cons_append, replaceAllFrom_of_none (hmatch.trans hlongest),
          replaceAllFrom_of_none hlongest, ih (Nat.zero_le _), cons_append]
      | some pair =>
        -- the match ends before `x`
        have hlength := (prefix_of_longestMatch hlongest).2.length_le
        rw [length_cons] at hlength
        rw [cons_append, replaceAllFrom_of_some (hmatch.trans hlongest),
          replaceAllFrom_of_some hlongest, ih (by omega), append_assoc]

/-- **A letter of no pattern separates what is replaced.** -/
theorem replaceAll_append_cons (hpairs : HavePatterns pairs) (hx : ∀ pair ∈ pairs, x ∉ pair.1) :
    replaceAll pairs (a ++ x :: b) = replaceAll pairs a ++ x :: replaceAll pairs b :=
  replaceAllFrom_append_cons hpairs hx (Nat.zero_le _)

/-- Replacements with letters leave nothing empty. -/
theorem replaceAllFrom_ne_nil {text : List α} (hne : ∀ pair ∈ pairs, pair.2 ≠ []) :
    replaceAllFrom pairs 0 (x :: text) ≠ [] := by
  cases hlongest : longestMatch pairs (x :: text) with
  | none =>
    rw [replaceAllFrom_of_none hlongest]
    exact cons_ne_nil _ _
  | some pair =>
    rw [replaceAllFrom_of_some hlongest]
    exact append_ne_nil_of_left_ne_nil (hne pair (prefix_of_longestMatch hlongest).1) _

theorem getLast?_replaceAllFrom {P : α → Prop} {text : List α}
    (hne : ∀ pair ∈ pairs, pair.2 ≠ []) (hpairs : ∀ pair ∈ pairs, ∀ y ∈ pair.2.getLast?, P y)
    (htext : ∀ y ∈ text.getLast?, P y) (skip : Nat) :
    ∀ y ∈ (replaceAllFrom pairs skip text).getLast?, P y := by
  induction text generalizing skip with
  | nil =>
    cases skip with
    | zero => exact htext
    | succ skip => exact htext
  | cons x text ih =>
    have hrest : ∀ y ∈ text.getLast?, P y := by
      intro y hy
      refine htext y ?_
      rw [getLast?_cons, Option.mem_def.mp hy]
      rfl
    cases skip with
    | succ skip => exact ih hrest skip
    | zero =>
      intro y hy
      cases hlongest : longestMatch pairs (x :: text) with
      | none =>
        rw [replaceAllFrom_of_none hlongest] at hy
        cases text with
        | nil => exact htext y hy
        | cons x' text =>
          rw [getLast?_cons_of_ne_nil (replaceAllFrom_ne_nil hne)] at hy
          exact ih hrest 0 y hy
      | some pair =>
        rw [replaceAllFrom_of_some hlongest, getLast?_append, Option.mem_def,
          Option.or_eq_some_iff] at hy
        rcases hy with hy | ⟨_, hy⟩
        · exact ih hrest _ y hy
        · exact hpairs pair (prefix_of_longestMatch hlongest).1 y hy

/-- **A text ends as it did, or as a replacement does.** -/
theorem getLast?_replaceAll {P : α → Prop} {text : List α} (hne : ∀ pair ∈ pairs, pair.2 ≠ [])
    (hpairs : ∀ pair ∈ pairs, ∀ y ∈ pair.2.getLast?, P y) (htext : ∀ y ∈ text.getLast?, P y) :
    ∀ y ∈ (replaceAll pairs text).getLast?, P y :=
  getLast?_replaceAllFrom hne hpairs htext 0

end Replacements

end List
