import BaseSkeleton.Basic
import BaseSkeleton.CaseMapping

/-!
# Users

`src/domain/user`: the value objects and the entity. An `Email` and a `DisplayName` carry the
proof that they are what their `parse` makes of a string, so a value that was parsed once is
accepted again unchanged (`Email.parse_asStr`, `DisplayName.parse_asStr`): the rows of the database
and the entries of the cache are read back through the same `parse`.
-/

namespace BaseSkeleton.Users

open Text (CaseMapping trim isWhitespace)

inductive UserError where
  | invalidEmail
  | invalidDisplayName
deriving DecidableEq

/-- What `Display` prints. -/
def UserError.message : UserError → String
  | invalidEmail => "email address is invalid"
  | invalidDisplayName => "display name must contain between 2 and 100 characters"

/-! ## Value objects

The fields of each hold its text with what `parse` has checked of it. -/

abbrev UserId := Uuid

namespace Email

/-- `str::split_once`: the parts before and after the first `c`. -/
def splitOnce (c : Char) (chars : List Char) : Option (List Char × List Char) :=
  if c ∈ chars then some (chars.takeWhile (· ≠ c), (chars.dropWhile (· ≠ c)).tail) else none

/-- The checks of `Email::parse` on the normalized address. -/
def isWellFormed (normalized : String) : Bool :=
  match splitOnce '@' normalized.toList with
  | none => false
  | some (localPart, domain) =>
    !(localPart.isEmpty
      || domain.isEmpty
      || '.' ∉ domain
      || '@' ∈ domain
      || (domain.splitOnP (· == '.')).any List.isEmpty
      || 254 < normalized.utf8ByteSize
      || normalized.toList.any isWhitespace)

end Email

/-- `Email`: a normalized address that passed the checks. -/
structure Email (u : CaseMapping) where
  asStr : String
  lowercase : u.toLowercase asStr = asStr
  wellFormed : Email.isWellFormed asStr = true

/-- `DisplayName`: a trimmed name of 2 to 100 characters. -/
structure DisplayName where
  asStr : String
  trimmed : trim asStr = asStr
  length : 2 ≤ asStr.toList.length ∧ asStr.toList.length ≤ 100

variable {u : CaseMapping}

def Email.parse (value : String) : Except UserError (Email u) :=
  let normalized := u.toLowercase (trim value)
  if h : isWellFormed normalized then
    .ok ⟨normalized, CaseMapping.toLowercase_toLowercase _, h⟩
  else .error .invalidEmail

def DisplayName.parse (value : String) : Except UserError DisplayName :=
  if h : 2 ≤ (trim value).toList.length ∧ (trim value).toList.length ≤ 100 then
    .ok ⟨trim value, Text.trim_trim value, h⟩
  else .error .invalidDisplayName

/-! ## Parsed values parse to themselves

`parse` trims and normalizes. What it returns is trimmed and normalized, so that it is parsed to
itself. -/

/-- A well-formed address has no whitespace. -/
theorem Email.not_whitespace {normalized : String} (h : isWellFormed normalized = true) {c : Char}
    (hc : c ∈ normalized.toList) : isWhitespace c = false := by
  unfold isWellFormed at h
  split at h
  · cases h
  · simp only [Bool.not_eq_true', Bool.or_eq_false_iff] at h
    simpa using List.any_eq_false.mp h.2 c hc

theorem Email.trim_asStr (email : Email u) : trim email.asStr = email.asStr := by
  refine Text.trim_eq_self ?_ ?_
  · intro c hc
    exact not_whitespace email.wellFormed (List.mem_of_mem_head? hc)
  · intro c hc
    exact not_whitespace email.wellFormed (List.mem_of_getLast? hc)

/-- A string with the normal form of an address is parsed to it. -/
theorem Email.parse_of_normalized {value : String} {email : Email u}
    (h : u.toLowercase (trim value) = email.asStr) : Email.parse value = .ok email := by
  unfold parse
  simp only [h]
  exact dif_pos email.wellFormed

theorem DisplayName.parse_of_trimmed {value : String} {name : DisplayName}
    (h : trim value = name.asStr) : DisplayName.parse value = .ok name := by
  unfold parse
  simp only [h]
  exact dif_pos name.length

@[simp] theorem Email.parse_asStr (email : Email u) : Email.parse email.asStr = .ok email :=
  parse_of_normalized (by rw [email.trim_asStr, email.lowercase])

@[simp] theorem DisplayName.parse_asStr (name : DisplayName) :
    DisplayName.parse name.asStr = .ok name :=
  parse_of_trimmed name.trimmed

/-- What `Email::parse` stores. -/
theorem Email.asStr_of_parse {value : String} {email : Email u}
    (h : Email.parse value = .ok email) : email.asStr = u.toLowercase (trim value) := by
  unfold parse at h
  simp only at h
  split at h
  · rw [← Except.ok.inj h]
  · cases h

/-- What `DisplayName::parse` stores. -/
theorem DisplayName.asStr_of_parse {value : String} {name : DisplayName}
    (h : DisplayName.parse value = .ok name) : name.asStr = trim value := by
  unfold parse at h
  split at h
  · rw [← Except.ok.inj h]
  · cases h

/-- A parsed value holds a NUL only if the string it was parsed from does. -/
theorem Email.nul_of_parse {value : String} {email : Email u} (h : Email.parse value = .ok email)
    (hnul : '\x00' ∈ email.asStr.toList) : '\x00' ∈ value.toList := by
  rw [Email.asStr_of_parse h, CaseMapping.mem_toLowercase_iff rfl] at hnul
  exact Text.mem_of_mem_trim hnul

theorem DisplayName.nul_of_parse {value : String} {name : DisplayName}
    (h : DisplayName.parse value = .ok name) (hnul : '\x00' ∈ name.asStr.toList) :
    '\x00' ∈ value.toList := by
  rw [DisplayName.asStr_of_parse h] at hnul
  exact Text.mem_of_mem_trim hnul

/-! ## The entity -/

structure User (u : CaseMapping) where
  id : UserId
  email : Email u
  displayName : DisplayName
  createdAt : Instant
  updatedAt : Instant

/-- `User::new`, with the identifier and the time it draws. -/
def User.new (id : UserId) (now : Instant) (email : Email u) (displayName : DisplayName) :
    User u :=
  ⟨id, email, displayName, now, now⟩

end BaseSkeleton.Users
