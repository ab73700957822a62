import BaseSkeleton.Users.Registration

/-!
# What the value objects accept, and how users are restored

The grammar of an address, apart from the checks of `Email::parse`; the JSON record of a cached
user; the rows a user is read back from.

* `isWellFormed_iff` — the checks accept the grammar and nothing else.
* `restore_record` — the record of a user is read back as that user.
* `value_objects_exact` — acceptance, idempotence and restoration together.
-/

namespace BaseSkeleton.Users

open Text (CaseMapping trim isWhitespace)

/-! ## Splitting at a character

`splitOnce` and `splitOn`, said without the computation. -/

/-- No piece holds the character the list was split at. -/
theorem not_mem_of_mem_splitOn {c : Char} {chars piece : List Char}
    (h : piece ∈ chars.splitOn c) : c ∉ piece := by
  induction chars generalizing piece with
  | nil => simp_all [List.splitOn_nil]
  | cons d chars ih =>
    rw [List.splitOn_cons_eq_if_modifyHead] at h
    split at h
    · rcases List.mem_cons.mp h with hempty | hrest
      · simp [hempty]
      · exact ih hrest
    · next hd =>
      cases hpieces : chars.splitOn c with
      | nil => exact absurd hpieces (List.splitOn_ne_nil c chars)
      | cons first rest =>
        rw [hpieces, List.modifyHead_cons] at h
        rcases List.mem_cons.mp h with hfirst | hrest
        · have hold : c ∉ first := ih (by simp [hpieces])
          have hne : c ≠ d := fun he => hd (by simp [he])
          simp [hfirst, hne, hold]
        · exact ih (by simp [hpieces, hrest])

/-- There are two pieces or more exactly if the character is there. -/
theorem two_le_length_splitOn {c : Char} {chars : List Char} :
    2 ≤ (chars.splitOn c).length ↔ c ∈ chars := by
  constructor
  · intro h
    by_contra hc
    rw [List.splitOn_eq_singleton hc] at h
    simp at h
  · intro hc
    cases hpieces : chars.splitOn c with
    | nil => exact absurd hpieces (List.splitOn_ne_nil c chars)
    | cons first rest =>
      cases rest with
      | cons second rest => simp
      | nil =>
        -- a single piece is the whole list, and does not hold the character
        have hwhole : [c].intercalate (chars.splitOn c) = chars := List.intercalate_splitOn c
        rw [hpieces, List.intercalate_singleton] at hwhole
        have hmem : first ∈ chars.splitOn c := by simp [hpieces]
        have hfirst : c ∉ first := not_mem_of_mem_splitOn hmem
        exact absurd (hwhole ▸ hc) hfirst

namespace Email

theorem splitOnce_eq_some {c : Char} {chars before after : List Char} :
    splitOnce c chars = some (before, after) ↔ chars = before ++ c :: after ∧ c ∉ before := by
  unfold splitOnce
  constructor
  · intro h
    split at h
    · next hc =>
      obtain ⟨hbefore, hafter⟩ := Prod.mk.inj (Option.some.inj h)
      have hcut := List.takeWhile_append_dropWhile (p := (· ≠ c)) (l := chars)
      cases hdrop : chars.dropWhile (· ≠ c) with
      | nil =>
        have hall := List.dropWhile_eq_nil_iff.mp hdrop c hc
        simp at hall
      | cons d rest =>
        have hd : d = c := by
          have hhead := Text.head?_dropWhile (p := (· ≠ c)) (l := chars) (c := d)
            (by rw [hdrop]; rfl)
          simpa using hhead
        rw [hdrop] at hcut hafter
        refine ⟨?_, ?_⟩
        · rw [← hcut, hbefore, ← hafter, hd, List.tail_cons]
        · rw [← hbefore]
          intro hmem
          simpa using List.mem_takeWhile_imp hmem
    · cases h
  · rintro ⟨rfl, hc⟩
    have hkeep : ∀ d ∈ before, decide (d ≠ c) = true := by
      intro d hd
      exact decide_eq_true fun he => hc (he ▸ hd)
    rw [if_pos (by simp), List.takeWhile_append_of_pos hkeep, List.dropWhile_append_of_pos hkeep]
    simp

/-! ## The grammar

A local part, an at sign, and labels that are joined by dots. The checks look at single characters
and at the labels of the domain. -/

/-- `local '@' label '.' .. '.' label`, without whitespace and in at most 254 bytes. -/
structure Grammar (address : String) (localPart : List Char) (labels : List (List Char)) :
    Prop where
  form : address.toList = localPart ++ '@' :: ['.'].intercalate labels
  localPart : localPart ≠ [] ∧ '@' ∉ localPart
  twoLabels : 2 ≤ labels.length
  labels : ∀ label ∈ labels, label ≠ [] ∧ '.' ∉ label ∧ '@' ∉ label
  noWhitespace : ∀ c ∈ address.toList, isWhitespace c = false
  bytes : address.utf8ByteSize ≤ 254

theorem mem_intercalate {c : Char} {labels : List (List Char)} :
    c ∈ ['.'].intercalate labels → c = '.' ∨ ∃ label ∈ labels, c ∈ label := by
  intro h
  induction labels with
  | nil => cases h
  | cons label labels ih =>
    cases labels with
    | nil =>
      rw [List.intercalate_singleton] at h
      exact Or.inr ⟨label, List.mem_cons_self, h⟩
    | cons next rest =>
      rw [List.intercalate_cons_cons] at h
      simp only [List.mem_append, List.mem_singleton] at h
      rcases h with (hlabel | hdot) | hrest
      · exact Or.inr ⟨label, List.mem_cons_self, hlabel⟩
      · exact Or.inl hdot
      · rcases ih hrest with hdot | ⟨later, hmem, hc⟩
        · exact Or.inl hdot
        · exact Or.inr ⟨later, List.mem_cons_of_mem _ hmem, hc⟩

theorem mem_intercalate_of_mem {c : Char} {label : List Char} {labels : List (List Char)}
    (hlabel : label ∈ labels) (hc : c ∈ label) : c ∈ ['.'].intercalate labels := by
  induction labels with
  | nil => cases hlabel
  | cons first labels ih =>
    cases labels with
    | nil =>
      rw [List.intercalate_singleton, ← List.mem_singleton.mp hlabel]
      exact hc
    | cons next rest =>
      rw [List.intercalate_cons_cons]
      rcases List.mem_cons.mp hlabel with rfl | hrest
      · simp [hc]
      · simp [ih hrest]

/-- The domain of an address in the grammar has one `@` before it and none inside. -/
theorem Grammar.splitOnce {address : String} {localPart : List Char} {labels : List (List Char)}
    (h : Grammar address localPart labels) :
    splitOnce '@' address.toList = some (localPart, ['.'].intercalate labels) ∧
      '@' ∉ ['.'].intercalate labels := by
  refine ⟨splitOnce_eq_some.mpr ⟨h.form, h.localPart.2⟩, fun hat => ?_⟩
  rcases mem_intercalate hat with hdot | ⟨label, hlabel, hat⟩
  · exact absurd hdot (by decide)
  · exact (h.labels label hlabel).2.2 hat

/-- The labels are what the domain is split into. -/
theorem Grammar.splitOn {address : String} {localPart : List Char} {labels : List (List Char)}
    (h : Grammar address localPart labels) : (['.'].intercalate labels).splitOn '.' = labels := by
  refine List.splitOn_intercalate '.' (fun label hlabel => (h.labels label hlabel).2.1) ?_
  intro hnil
  have htwo := h.twoLabels
  simp [hnil] at htwo

/-- **The checks accept the grammar, and nothing else.** -/
theorem isWellFormed_iff {address : String} :
    isWellFormed address = true ↔ ∃ localPart labels, Grammar address localPart labels := by
  constructor
  · intro h
    unfold isWellFormed at h
    split at h
    · cases h
    · next localPart domain hsplit =>
      obtain ⟨hform, hat⟩ := splitOnce_eq_some.mp hsplit
      rw [← List.splitOn_eq_splitOnP] at h
      simp only [Bool.not_eq_true', Bool.or_eq_false_iff, List.isEmpty_eq_false_iff,
        decide_eq_false_iff_not, not_not, not_lt, List.any_eq_false] at h
      obtain ⟨⟨⟨⟨⟨⟨hlocal, hdomain⟩, hdot⟩, hat'⟩, hlabels⟩, hbytes⟩, hspace⟩ := h
      refine ⟨localPart, domain.splitOn '.', ?_, ⟨hlocal, hat⟩, two_le_length_splitOn.mpr hdot,
        fun label hlabel => ⟨?_, not_mem_of_mem_splitOn hlabel, ?_⟩, fun c hc => ?_, hbytes⟩
      · rw [List.intercalate_splitOn]
        exact hform
      · simpa using hlabels label hlabel
      · intro hmem
        have hdomain := mem_intercalate_of_mem hlabel hmem
        rw [List.intercalate_splitOn] at hdomain
        exact hat' hdomain
      · simpa using hspace c hc
  · intro h
    obtain ⟨localPart, labels, h⟩ := h
    obtain ⟨hsplit, hat⟩ := h.splitOnce
    have hdot : '.' ∈ ['.'].intercalate labels := by
      rw [← two_le_length_splitOn, h.splitOn]
      exact h.twoLabels
    have hempty : ∀ label ∈ labels, ¬ label.isEmpty = true := fun label hlabel => by
      simp [(h.labels label hlabel).1]
    have hspace : ∀ c ∈ address.toList, ¬ isWhitespace c = true := fun c hc => by
      simp [h.noWhitespace c hc]
    unfold isWellFormed
    rw [hsplit]
    show (!(_ || _ || _ || _ || (List.splitOnP (· == '.') _).any _ || _ || _)) = true
    rw [← List.splitOn_eq_splitOnP, h.splitOn, List.any_eq_false.mpr hempty,
      List.any_eq_false.mpr hspace]
    simp [h.localPart.1, List.ne_nil_of_mem hdot, hdot, hat, h.bytes]

end Email

variable {u : CaseMapping}

theorem Email.parse_isOk_iff {value : String} :
    (∃ email : Email u, Email.parse value = .ok email) ↔
      ∃ localPart labels, Email.Grammar (u.toLowercase (trim value)) localPart labels := by
  rw [← Email.isWellFormed_iff]
  constructor
  · intro h
    obtain ⟨email, hparse⟩ := h
    rw [← Email.asStr_of_parse hparse]
    exact email.wellFormed
  · intro h
    let email : Email u := ⟨_, CaseMapping.toLowercase_toLowercase _, h⟩
    exact ⟨email, Email.parse_of_normalized rfl⟩

theorem DisplayName.parse_isOk_iff {value : String} :
    (∃ name, DisplayName.parse value = .ok name) ↔
      2 ≤ (trim value).toList.length ∧ (trim value).toList.length ≤ 100 := by
  constructor
  · intro h
    obtain ⟨name, hparse⟩ := h
    rw [← DisplayName.asStr_of_parse hparse]
    exact name.length
  · intro h
    let name : DisplayName := ⟨_, Text.trim_trim value, h⟩
    exact ⟨name, DisplayName.parse_of_trimmed rfl⟩

/-! ## The record in Redis

What `serde_json` writes for a cached user, and what it reads: the fields may come in any order, and
each has to be there once. -/

/-- How `chrono` writes and reads a `DateTime<Utc>`. -/
structure DateTimeText where
  toString : Instant → String
  parseStr : String → Option Instant

namespace CachedUser

/-- `Serialize`. -/
def toValue (uuid : UuidText) (dateTime : DateTimeText) (record : CachedUser) : Value :=
  .object
    [("id", .string (uuid.toString record.id)),
      ("email", .string record.email),
      ("display_name", .string record.displayName),
      ("created_at", .string (dateTime.toString record.createdAt)),
      ("updated_at", .string (dateTime.toString record.updatedAt))]

/-- The text of a JSON string. -/
def text : Value → Option String
  | .string s => some s
  | _ => none

def ofFields (uuid : UuidText) (dateTime : DateTimeText)
    (id email displayName createdAt updatedAt : Value) : Option CachedUser := do
  let id ← (text id).bind uuid.parseStr
  let email ← text email
  let displayName ← text displayName
  let createdAt ← (text createdAt).bind dateTime.parseStr
  let updatedAt ← (text updatedAt).bind dateTime.parseStr
  return ⟨id, email, displayName, createdAt, updatedAt⟩

/-- The field of a map; one that is missing, or occurs twice, is an error. -/
def field (name : String) (entries : List (String × Value)) : Option Value :=
  match entries.filter fun entry => entry.1 = name with
  | [(_, value)] => some value
  | _ => none

/-- `Deserialize`: a map with the fields, or the sequence of the fields. -/
def fromValue (uuid : UuidText) (dateTime : DateTimeText) : Value → Option CachedUser
  | .object entries => do
    ofFields uuid dateTime (← field "id" entries) (← field "email" entries)
      (← field "display_name" entries) (← field "created_at" entries)
      (← field "updated_at" entries)
  | .array [id, email, displayName, createdAt, updatedAt] =>
    ofFields uuid dateTime id email displayName createdAt updatedAt
  | _ => none

/-- What `get` makes of a record; `reject` is the text of the error. -/
def restore (u : CaseMapping) (uuid : UuidText) (dateTime : DateTimeText)
    (reject : Value → String) (value : Value) : Except CacheError (User u) :=
  match fromValue uuid dateTime value with
  | none => .error ⟨reject value⟩
  | some record => record.tryInto u

variable {uuid : UuidText} {dateTime : DateTimeText} {user : User u}

/-- **The record of a user is read back as that user.** -/
theorem restore_record (reject : Value → String)
    (hid : uuid.parseStr (uuid.toString user.id) = some user.id)
    (hcreated : dateTime.parseStr (dateTime.toString user.createdAt) = some user.createdAt)
    (hupdated : dateTime.parseStr (dateTime.toString user.updatedAt) = some user.updatedAt) :
    restore u uuid dateTime reject ((CachedUser.from user).toValue uuid dateTime) = .ok user := by
  have hrecord : fromValue uuid dateTime ((CachedUser.from user).toValue uuid dateTime) =
      some (CachedUser.from user) := by
    simp [fromValue, toValue, CachedUser.from, ofFields, text, field, hid, hcreated, hupdated]
  unfold restore
  rw [hrecord]
  exact tryInto_from user

end CachedUser

/-! ## The rows a user is read back from

A row that was inserted or updated holds the texts of the value objects, and these are parsed to
themselves. -/

/-- The same user, at other times. -/
def User.SameAs (user other : User u) : Prop :=
  user.id = other.id ∧ user.email = other.email ∧ user.displayName = other.displayName

theorem restore_inserted {T T' : UserTable} {user : User u} (h : T.insert (.bound user) = .ok T') :
    ∃ row restored, T'.find user.id = some row ∧ row.intoDomain u = .ok restored ∧
      restored.SameAs user := by
  have hfind : T'.find user.id = some (.bound user) := by
    rw [UserTable.find_insert h]
    exact if_pos rfl
  exact ⟨.bound user, user.stored, hfind, intoDomain_bound user, rfl, rfl, rfl⟩

theorem restore_updated {T T' : UserTable} {user : User u} {now : Instant} {row : UserRow}
    (h : T.update user.id user.email.asStr user.displayName.asStr now = .ok (T', some row)) :
    T'.find user.id = some row ∧ ∃ restored, row.intoDomain u = .ok restored ∧
      restored.SameAs user := by
  have hfind : T'.find user.id = some row := by
    rw [UserTable.find_update h]
    exact if_pos rfl
  obtain ⟨before, hbefore, hrow⟩ := Option.map_eq_some_iff.mp (UserTable.update_eq_ok h).2.symm
  have hid : before.id = user.id := (UserTable.find_eq_some.mp hbefore).2
  have hdomain := intoDomain_parsed before.id user.email user.displayName before.createdAt now
  refine ⟨hfind, ?_⟩
  rw [← hrow]
  exact ⟨_, hdomain, hid, rfl, rfl⟩

/-- Addresses with one normal form are one address, and UNIQUE keeps it in one row. -/
theorem row_of_normal_form (T : UserTable) {value value' : String} {email email' : Email u}
    (hparse : Email.parse value = .ok email) (hparse' : Email.parse value' = .ok email')
    (hnormal : u.toLowercase (trim value) = u.toLowercase (trim value')) {row row' : UserRow}
    (hrow : row ∈ T.rows) (hrow' : row' ∈ T.rows) (hemail : row.email = email.asStr)
    (hemail' : row'.email = email'.asStr) : row = row' := by
  have hsame : row.email = row'.email := by
    rw [hemail, hemail', Email.asStr_of_parse hparse, Email.asStr_of_parse hparse', hnormal]
  exact List.inj_on_of_nodup_map T.unique hrow hrow' hsame

/-- **Value objects accept their grammar, and are restored unchanged.**

* `Email::parse` accepts what is an address in lower case without the blanks around it, and stores
  that; `DisplayName::parse` accepts 2 to 100 characters between blanks, and stores them.
* What is stored is parsed to itself.
* A user is read back from its record in Redis, and from the row that an INSERT or an UPDATE
  leaves; the row keeps everything but the times.
* Two rows never hold addresses with one normal form. -/
theorem value_objects_exact {uuid : UuidText} {dateTime : DateTimeText} {user : User u}
    (reject : Value → String) (hid : uuid.parseStr (uuid.toString user.id) = some user.id)
    (hcreated : dateTime.parseStr (dateTime.toString user.createdAt) = some user.createdAt)
    (hupdated : dateTime.parseStr (dateTime.toString user.updatedAt) = some user.updatedAt) :
    (∀ value : String,
      ((∃ email : Email u, Email.parse value = .ok email) ↔
        ∃ localPart labels, Email.Grammar (u.toLowercase (trim value)) localPart labels) ∧
      ∀ email : Email u, Email.parse value = .ok email →
        email.asStr = u.toLowercase (trim value) ∧ Email.parse email.asStr = .ok email) ∧
    (∀ value : String,
      ((∃ name, DisplayName.parse value = .ok name) ↔
        2 ≤ (trim value).toList.length ∧ (trim value).toList.length ≤ 100) ∧
      ∀ name, DisplayName.parse value = .ok name →
        name.asStr = trim value ∧ DisplayName.parse name.asStr = .ok name) ∧
    CachedUser.restore u uuid dateTime reject ((CachedUser.from user).toValue uuid dateTime) =
      .ok user ∧
    (∀ T T' : UserTable, T.insert (.bound user) = .ok T' →
      ∃ row restored, T'.find user.id = some row ∧ row.intoDomain u = .ok restored ∧
        restored.SameAs user) ∧
    (∀ (T T' : UserTable) (now : Instant) (row : UserRow),
      T.update user.id user.email.asStr user.displayName.asStr now = .ok (T', some row) →
      T'.find user.id = some row ∧ ∃ restored, row.intoDomain u = .ok restored ∧
        restored.SameAs user) ∧
    ∀ (T : UserTable) (value value' : String) (email email' : Email u),
      Email.parse value = .ok email → Email.parse value' = .ok email' →
      u.toLowercase (trim value) = u.toLowercase (trim value') →
      ∀ row ∈ T.rows, ∀ row' ∈ T.rows, row.email = email.asStr → row'.email = email'.asStr →
      row = row' := by
  refine ⟨fun value => ⟨Email.parse_isOk_iff, ?_⟩, fun value => ⟨DisplayName.parse_isOk_iff, ?_⟩,
    CachedUser.restore_record reject hid hcreated hupdated, ?_, ?_, ?_⟩
  · intro email hparse
    exact ⟨Email.asStr_of_parse hparse, email.parse_asStr⟩
  · intro name hparse
    exact ⟨DisplayName.asStr_of_parse hparse, name.parse_asStr⟩
  · intro T T' hinsert
    exact restore_inserted hinsert
  · intro T T' now row hupdate
    exact restore_updated hupdate
  · intro T value value' email email' hparse hparse' hnormal row hrow row' hrow' hemail hemail'
    exact row_of_normal_form T hparse hparse' hnormal hrow hrow' hemail hemail'

/-- The `chrono` crate on one microsecond. -/
def sampleDateTime : DateTimeText where
  toString _ := "1970-01-01T00:00:00.000001Z"
  parseStr s := if s = "1970-01-01T00:00:00.000001Z" then some 1000 else none

theorem value_objects_exact_sample :
    CachedUser.restore Text.asciiCase sampleUuid sampleDateTime (fun _ => "")
      ((CachedUser.from (.new sampleId 1000 sampleEmail sampleName)).toValue sampleUuid
        sampleDateTime) = .ok (.new sampleId 1000 sampleEmail sampleName) :=
  (value_objects_exact (fun _ => "") rfl rfl rfl).2.2.1

end BaseSkeleton.Users
