/-!
# Computations that may fail

Fallible code is written in the monad `Except ε`. The lemmas here say when such a computation
succeeds, one for each way of building it, so that a successful run of a long `do` block is taken
apart into the facts its steps checked.
-/

namespace Except

variable {ε ε' α β : Type _}

/-- The value of an option, or `error` where there is none. -/
def ofOption (error : ε) : Option α → Except ε α
  | some a => .ok a
  | none => .error error

/-- Go on if `c` holds, stop with `error` otherwise. -/
def ensure (c : Prop) [Decidable c] (error : ε) : Except ε Unit :=
  if c then .ok () else .error error

theorem bind_eq_ok {x : Except ε α} {f : α → Except ε β} {b : β} :
    (x >>= f) = .ok b ↔ ∃ a, x = .ok a ∧ f a = .ok b := by
  cases x with
  | error e => exact ⟨nofun, nofun⟩
  | ok a =>
    constructor
    · intro h
      exact ⟨a, rfl, h⟩
    · rintro ⟨a', ha, h⟩
      cases ha
      exact h

theorem pure_eq_ok {a b : α} : (pure a : Except ε α) = .ok b ↔ a = b := by
  constructor
  · intro h
    exact Except.ok.inj h
  · rintro rfl
    rfl

theorem ofOption_eq_ok {error : ε} {x : Option α} {a : α} :
    ofOption error x = .ok a ↔ x = some a := by
  cases x <;> simp [ofOption]

theorem ensure_eq_ok {c : Prop} [Decidable c] {error : ε} {u : Unit} :
    ensure c error = .ok u ↔ c := by
  unfold ensure
  split
  · exact ⟨fun _ => ‹c›, fun _ => rfl⟩
  · exact ⟨nofun, fun h => absurd h ‹¬ c›⟩

theorem mapError_eq_ok {f : ε → ε'} {x : Except ε α} {a : α} :
    x.mapError f = .ok a ↔ x = .ok a := by
  cases x with
  | error e => exact ⟨nofun, nofun⟩
  | ok a' =>
    constructor
    · intro h
      exact congrArg Except.ok (Except.ok.inj h)
    · intro h
      exact congrArg Except.ok (Except.ok.inj h)

theorem map_eq_ok {f : α → β} {x : Except ε α} {b : β} :
    x.map f = .ok b ↔ ∃ a, x = .ok a ∧ f a = b := by
  cases x with
  | error e =>
    constructor
    · intro h
      cases h
    · intro h
      obtain ⟨a, ha, _⟩ := h
      cases ha
  | ok a =>
    constructor
    · intro h
      exact ⟨a, rfl, Except.ok.inj h⟩
    · intro h
      obtain ⟨a', ha, hb⟩ := h
      cases ha
      exact congrArg Except.ok hb

/-- What every step of a loop keeps holds at its end, if the loop gets there. -/
theorem foldlM_invariant {f : β → α → Except ε β} {P : β → Prop}
    (hstep : ∀ b a b', P b → f b a = .ok b' → P b') {l : List α} {b b' : β} (hb : P b)
    (h : l.foldlM f b = .ok b') : P b' := by
  induction l generalizing b with
  | nil =>
    cases h
    exact hb
  | cons a l ih =>
    rw [List.foldlM_cons, bind_eq_ok] at h
    obtain ⟨mid, hmid, hrest⟩ := h
    exact ih (hstep b a mid hb hmid) hrest

/-- The same for a statement that speaks of the part of the list the loop has `seen`. -/
theorem foldlM_seen_invariant {f : β → α → Except ε β} {P : List α → β → Prop}
    (hstep : ∀ seen b a b', P seen b → f b a = .ok b' → P (seen ++ [a]) b') {l seen : List α}
    {b b' : β} (hb : P seen b) (h : l.foldlM f b = .ok b') : P (seen ++ l) b' := by
  induction l generalizing seen b with
  | nil =>
    cases h
    rwa [List.append_nil]
  | cons a l ih =>
    rw [List.foldlM_cons, bind_eq_ok] at h
    obtain ⟨mid, hmid, hrest⟩ := h
    have hdone := ih (hstep seen b a mid hb hmid) hrest
    rwa [List.append_assoc] at hdone

/-- A loop that fails has come as far as the element it fails at. -/
theorem foldlM_eq_error {f : β → α → Except ε β} {l : List α} {b : β} {error : ε}
    (h : l.foldlM f b = .error error) :
    ∃ before a after mid, l = before ++ a :: after ∧ before.foldlM f b = .ok mid ∧
      f mid a = .error error := by
  induction l generalizing b with
  | nil => cases h
  | cons a l ih =>
    rw [List.foldlM_cons] at h
    cases hmid : f b a with
    | error error' =>
      rw [hmid] at h
      cases h
      exact ⟨[], a, l, b, rfl, rfl, hmid⟩
    | ok mid =>
      rw [hmid] at h
      obtain ⟨before, a', after, mid', rfl, hbefore, herror⟩ := ih h
      refine ⟨a :: before, a', after, mid', rfl, ?_, herror⟩
      rw [List.foldlM_cons, bind_eq_ok]
      exact ⟨mid, hmid, hbefore⟩

/-! ## Conversions of whole lists

`mapM` succeeds with the list of what each element is converted to, and fails with the first element
that cannot be. -/

theorem mapM_cons_eq_ok {f : α → Except ε β} {a : α} {l : List α} {bs : List β} :
    (a :: l).mapM f = .ok bs ↔ ∃ b rest, f a = .ok b ∧ l.mapM f = .ok rest ∧ bs = b :: rest := by
  rw [List.mapM_cons, bind_eq_ok]
  simp only [bind_eq_ok, pure_eq_ok]
  constructor
  · intro h
    obtain ⟨b, hb, rest, hrest, hbs⟩ := h
    exact ⟨b, rest, hb, hrest, hbs.symm⟩
  · intro h
    obtain ⟨b, rest, hb, hrest, hbs⟩ := h
    exact ⟨b, hb, rest, hrest, hbs.symm⟩

theorem mapM_append_ok {f : α → Except ε β} {l l' : List α} {bs bs' : List β}
    (h : l.mapM f = .ok bs) (h' : l'.mapM f = .ok bs') : (l ++ l').mapM f = .ok (bs ++ bs') := by
  induction l generalizing bs with
  | nil =>
    rw [← Except.ok.inj h]
    exact h'
  | cons a l ih =>
    obtain ⟨b, rest, hb, hrest, hbs⟩ := mapM_cons_eq_ok.mp h
    rw [List.cons_append, mapM_cons_eq_ok]
    exact ⟨b, rest ++ bs', hb, ih hrest, by rw [hbs, List.cons_append]⟩

/-- A list is converted if all its elements are. -/
theorem mapM_of_forall {f : α → Except ε β} {l : List α} (h : ∀ a ∈ l, ∃ b, f a = .ok b) :
    ∃ bs, l.mapM f = .ok bs := by
  induction l with
  | nil => exact ⟨[], rfl⟩
  | cons a l ih =>
    obtain ⟨b, hb⟩ := h a List.mem_cons_self
    obtain ⟨rest, hrest⟩ := ih fun a' ha' => h a' (List.mem_cons_of_mem _ ha')
    exact ⟨b :: rest, mapM_cons_eq_ok.mpr ⟨b, rest, hb, hrest, rfl⟩⟩

theorem eq_nil_of_mapM {f : α → Except ε β} {l : List α} (h : l.mapM f = .ok []) : l = [] := by
  cases l with
  | nil => rfl
  | cons a l =>
    obtain ⟨b, rest, _, _, hnil⟩ := mapM_cons_eq_ok.mp h
    cases hnil

end Except
