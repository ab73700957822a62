import BaseSkeleton.Oidc.Metadata

/-!
# The limit on a metadata response

`fetchJson` reads the body chunk by chunk and gives up on the first chunk that does not fit. What
it has accumulated is never more than the limit, so that the room it computes by a subtraction is
the room there is, and whether all chunks fit is a matter of their sum.

* `readChunks_pieces` — the loop, from what it has accumulated so far.
* `readChunksChecked_eq` — no subtraction underflows.
* `fetch_json_size_bound` — the limit, for any way of cutting a body into chunks.
-/

namespace BaseSkeleton.Oidc

/-- `usize` subtraction; there is no result where it would underflow. -/
def checkedSub (a b : Nat) : Option Nat :=
  if b ≤ a then some (a - b) else none

/-- The loop with its subtraction; `none` is the panic of an underflow. -/
def readChunksChecked : List (Option (List UInt8)) → List UInt8 →
    Option (Except AnyhowError (List UInt8))
  | [], bytes => some (.ok bytes)
  | none :: _, _ => some (.error ["could not read OIDC metadata response"])
  | some chunk :: rest, bytes =>
    match checkedSub maxMetadataResponseBytes bytes.length with
    | none => none
    | some room =>
      if chunk.length ≤ room then readChunksChecked rest (bytes ++ chunk)
      else some (.error ["OIDC metadata response exceeds the 1 MiB limit"])

variable {T : Type} {chunks before : List (Option (List UInt8))} {bytes result : List UInt8}

/-! ## The loop

What was accumulated is within the limit before each chunk, and a chunk is appended only if it stays
so. -/

/-- A chunk that fits into the room left. -/
theorem length_append_le {chunk : List UInt8} (hbytes : bytes.length ≤ maxMetadataResponseBytes)
    (hchunk : chunk.length ≤ maxMetadataResponseBytes - bytes.length) :
    (bytes ++ chunk).length ≤ maxMetadataResponseBytes := by
  rw [List.length_append]
  omega

/-- **No subtraction underflows.** -/
theorem readChunksChecked_eq (hbytes : bytes.length ≤ maxMetadataResponseBytes) :
    readChunksChecked chunks bytes = some (readChunks chunks bytes) := by
  induction chunks generalizing bytes with
  | nil => rfl
  | cons chunk rest ih =>
    cases chunk with
    | none => rfl
    | some chunk =>
      have hroom : checkedSub maxMetadataResponseBytes bytes.length =
          some (maxMetadataResponseBytes - bytes.length) := if_pos hbytes
      rw [readChunksChecked, readChunks, hroom]
      by_cases hchunk : chunk.length ≤ maxMetadataResponseBytes - bytes.length
      · rw [if_pos hchunk, ← ih (length_append_le hbytes hchunk)]
        exact if_pos hchunk
      · rw [if_neg hchunk]
        exact if_neg hchunk

/-- **The limit is kept** at every point the loop gets to. -/
theorem length_readChunks_le (hbytes : bytes.length ≤ maxMetadataResponseBytes)
    (h : readChunks chunks bytes = .ok result) : result.length ≤ maxMetadataResponseBytes := by
  induction chunks generalizing bytes with
  | nil =>
    rw [← Except.ok.inj h]
    exact hbytes
  | cons chunk rest ih =>
    cases chunk with
    | none => cases h
    | some chunk =>
      rw [readChunks] at h
      split at h
      · next hchunk => exact ih (length_append_le hbytes hchunk) h
      · cases h

/-- The loop goes on with what it has accumulated. -/
theorem readChunks_append {after : List (Option (List UInt8))}
    (h : readChunks before bytes = .ok result) :
    readChunks (before ++ after) bytes = readChunks after result := by
  induction before generalizing bytes with
  | nil => rw [Except.ok.inj h, List.nil_append]
  | cons chunk rest ih =>
    cases chunk with
    | none => cases h
    | some chunk =>
      rw [readChunks] at h
      split at h
      · next hchunk =>
        rw [List.cons_append, readChunks, if_pos hchunk]
        exact ih h
      · cases h

/-- A body that was read without an error. -/
theorem readChunks_pieces (pieces : List (List UInt8))
    (hbytes : bytes.length ≤ maxMetadataResponseBytes) :
    readChunks (pieces.map some) bytes =
      if bytes.length + pieces.flatten.length ≤ maxMetadataResponseBytes then
        .ok (bytes ++ pieces.flatten)
      else .error ["OIDC metadata response exceeds the 1 MiB limit"] := by
  induction pieces generalizing bytes with
  | nil =>
    show Except.ok bytes = _
    rw [List.flatten_nil, List.append_nil, if_pos (by simpa using hbytes)]
  | cons piece pieces ih =>
    rw [List.map_cons, readChunks, List.flatten_cons, List.length_append]
    by_cases hpiece : piece.length ≤ maxMetadataResponseBytes - bytes.length
    · rw [if_pos hpiece, ih (length_append_le hbytes hpiece), List.length_append,
        List.append_assoc, Nat.add_assoc]
    · rw [if_neg hpiece, if_neg (by omega)]

/-! ## The whole call

Where a body is cut does not matter: what counts is its length, and whether all of it arrives. -/

/-- What a fetch makes of its response: the bytes reach the parser, or an error is returned. -/
theorem fetchJson_eq (fromSlice : List UInt8 → Option T) (sent : Option Response) :
    fetchJson fromSlice sent = (do
      let bytes ← fetchJson some sent
      .ofOption ["OIDC metadata response contains invalid JSON"] (fromSlice bytes)) := by
  unfold fetchJson
  simp only [bind_assoc, Except.ofOption]
  rfl

/-- A response to a request that succeeded, with its body in `pieces`. -/
def Response.ofPieces (contentLength : Option Nat) (pieces : List (List UInt8)) : Response :=
  ⟨true, contentLength, pieces.map some⟩

/-- **When the body reaches the parser**, and with which bytes. -/
theorem fetchJson_ofPieces (fromSlice : List UInt8 → Option T) (contentLength : Option Nat)
    (pieces : List (List UInt8)) :
    fetchJson fromSlice (some (.ofPieces contentLength pieces)) =
      if contentLength.all (· ≤ maxMetadataResponseBytes) ∧
          pieces.flatten.length ≤ maxMetadataResponseBytes then
        .ofOption ["OIDC metadata response contains invalid JSON"] (fromSlice pieces.flatten)
      else .error ["OIDC metadata response exceeds the 1 MiB limit"] := by
  have hnil : ([] : List UInt8).length ≤ maxMetadataResponseBytes := Nat.zero_le _
  have hread := readChunks_pieces pieces hnil
  rw [List.length_nil, Nat.zero_add, List.nil_append] at hread
  show (do
    Except.ensure (contentLength.all (· ≤ maxMetadataResponseBytes))
      ["OIDC metadata response exceeds the 1 MiB limit"]
    let bytes ← readChunks (pieces.map some) []
    Except.ofOption ["OIDC metadata response contains invalid JSON"] (fromSlice bytes)) = _
  rw [hread, Except.ensure]
  by_cases hfits : contentLength.all (· ≤ maxMetadataResponseBytes) ∧
      pieces.flatten.length ≤ maxMetadataResponseBytes
  · rw [if_pos hfits, if_pos hfits.1, if_pos hfits.2]
    rfl
  · rw [if_neg hfits]
    by_cases hdeclared : contentLength.all (· ≤ maxMetadataResponseBytes)
    · rw [if_pos hdeclared, if_neg fun hbody => hfits ⟨hdeclared, hbody⟩]
      rfl
    · rw [if_neg hdeclared]
      rfl

/-- **The limit holds for every chunking.** -/
theorem fetch_json_size_bound {T : Type} (fromSlice : List UInt8 → Option T)
    (contentLength : Option Nat) (pieces : List (List UInt8)) :
    -- no subtraction underflows, whatever is read, and the limit is kept all along
    (∀ chunks, readChunksChecked chunks [] = some (readChunks chunks [])) ∧
    (∀ before after bytes, readChunks before [] = .ok bytes →
      readChunks (before ++ after) [] = readChunks after bytes ∧
        bytes.length ≤ maxMetadataResponseBytes) ∧
    -- what reaches the parser
    (∀ bytes, fetchJson some (some (.ofPieces contentLength pieces)) = .ok bytes ↔
      (∀ length ∈ contentLength, length ≤ maxMetadataResponseBytes) ∧
        (pieces.map List.length).sum ≤ maxMetadataResponseBytes ∧ bytes = pieces.flatten) ∧
    fetchJson fromSlice (some (.ofPieces contentLength pieces)) = (do
      let bytes ← fetchJson some (some (.ofPieces contentLength pieces))
      .ofOption ["OIDC metadata response contains invalid JSON"] (fromSlice bytes)) ∧
    -- another chunking of the same body
    (∀ pieces', pieces'.flatten = pieces.flatten →
      fetchJson fromSlice (some (.ofPieces contentLength pieces')) =
        fetchJson fromSlice (some (.ofPieces contentLength pieces))) := by
  have hnil : ([] : List UInt8).length ≤ maxMetadataResponseBytes := Nat.zero_le _
  refine ⟨fun chunks => readChunksChecked_eq hnil, fun before after bytes h => ?_, fun bytes => ?_,
    fetchJson_eq fromSlice _, fun pieces' hbody => ?_⟩
  · exact ⟨readChunks_append h, length_readChunks_le hnil h⟩
  · have hdeclared : contentLength.all (· ≤ maxMetadataResponseBytes) = true ↔
        ∀ length ∈ contentLength, length ≤ maxMetadataResponseBytes := by
      cases contentLength <;> simp
    rw [fetchJson_ofPieces, ← List.length_flatten, ← hdeclared]
    split
    · next hfits =>
      constructor
      · intro h
        exact ⟨hfits.1, hfits.2, (Except.ok.inj h).symm⟩
      · intro h
        rw [h.2.2]
        rfl
    · next hlarge =>
      constructor
      · intro h
        cases h
      · intro h
        exact absurd ⟨h.1, h.2.1⟩ hlarge
  · rw [fetchJson_ofPieces, fetchJson_ofPieces, hbody]

end BaseSkeleton.Oidc
