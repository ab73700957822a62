import BaseSkeleton.RateLimit.Extractor

/-!
# Several field lines

A proxy may append to the `X-Forwarded-For` line it receives, or add a line of its own; HTTP means
the same by both. `extract` looks at the first line only, so that the two differ whenever the first
line and the ones after it disagree about the client. `FirstLineDecides` says exactly when they do
not.
-/

namespace BaseSkeleton.RateLimit

/-- One line with the values of several. -/
def joined (lines : List HeaderValue) : HeaderValue :=
  [44].intercalate lines

/-- The first line says as much about the client as all of them. -/
def FirstLineDecides (trusted : IpAddr → Bool) (peer : IpAddr) : List HeaderValue → Prop
  | [] => True
  | first :: later =>
    trusted peer = false ∨
      if (first :: later).all fun line => line.all isVisibleAscii then
        -- the later lines hold nothing but hops, or the same client
        (∀ hop ∈ later.flatMap fun line => chainOf (ascii line), IsHop trusted hop) ∨
          ∀ ip, Client trusted (chainOf (ascii first)) ip ↔
            Client trusted (later.flatMap fun line => chainOf (ascii line)) ip
      else
        -- all lines together are not text
        ∀ ip, ¬ Names trusted first ip ∧
          ∀ line ∈ (first :: later).getLast?, ¬ Names trusted line ip

/-! ## All lines in one

Joined with commas the lines are one chain, in which the later lines stand to the right. -/

theorem joined_cons (first second : HeaderValue) (later : List HeaderValue) :
    joined (first :: second :: later) = first ++ 44 :: joined (second :: later) := by
  simp [joined, List.intercalate]

theorem visible_joined (lines : List HeaderValue) :
    (joined lines).all isVisibleAscii = lines.all fun line => line.all isVisibleAscii := by
  induction lines with
  | nil => rfl
  | cons first later ih =>
    cases later with
    | nil => simp [joined]
    | cons second later => rw [joined_cons, visible_append, ih, List.all_cons (a := first)]

theorem chainOf_joined (first : HeaderValue) (later : List HeaderValue) :
    chainOf (ascii (joined (first :: later))) =
      chainOf (ascii first) ++ later.flatMap fun line => chainOf (ascii line) := by
  induction later generalizing first with
  | nil => simp [joined]
  | cons second later ih => rw [joined_cons, chainOf_append, ih, List.flatMap_cons]

/-- A line without entries names nobody. -/
theorem not_names_nil {trusted : IpAddr → Bool} (ip : IpAddr) : ¬ Names trusted [] ip := by
  intro hnames
  have hscan := scan_reverse.mpr hnames.2
  have hchain : chainOf (ascii []) = [""] := by decide
  have hempty : IpAddr.fromStr "" = none := by decide
  rw [hchain] at hscan
  simp [scan, hempty] at hscan

section FirstLine

variable {trusted : IpAddr → Bool} {first : HeaderValue} {later : List HeaderValue} {ip : IpAddr}

/-- Lines that are text have the client of their chains in a row. -/
theorem names_joined
    (hvisible : ((first :: later).all fun line => line.all isVisibleAscii) = true) :
    Names trusted (joined (first :: later)) ip ↔
      Client trusted (later.flatMap fun line => chainOf (ascii line)) ip ∨
        ((∀ hop ∈ later.flatMap fun line => chainOf (ascii line), IsHop trusted hop) ∧
          Client trusted (chainOf (ascii first)) ip) := by
  rw [Names, visible_joined, hvisible, chainOf_joined, client_append]
  simp

/-- The last line has the last word. -/
theorem names_joined_of_last {last : HeaderValue}
    (hvisible : ((first :: later).all fun line => line.all isVisibleAscii) = true)
    (hlast : (first :: later).getLast? = some last) (hnames : Names trusted last ip) :
    Names trusted (joined (first :: later)) ip := by
  rw [Names, visible_joined, hvisible]
  refine ⟨rfl, ?_⟩
  clear hvisible
  induction later generalizing first with
  | nil =>
    rw [List.getLast?_singleton] at hlast
    rw [Option.some.inj hlast, joined, List.intercalate_singleton]
    exact hnames.2
  | cons second later ih =>
    rw [List.getLast?_cons_cons] at hlast
    rw [joined_cons, chainOf_append]
    exact client_append.mpr (Or.inl (ih hlast))

/-- A chain that is all hops has no client. -/
theorem not_client_of_hops {chain : List String} (hhops : ∀ hop ∈ chain, IsHop trusted hop) :
    ¬ Client trusted chain ip := by
  rintro ⟨before, entry, after, hclient⟩
  refine not_isHop hclient.parses hclient.untrusted (hhops entry ?_)
  rw [hclient.chain_eq]
  simp

/-- What the first line decides behind a trusted proxy. -/
theorem firstLineDecides_cons {peer : IpAddr} (hpeer : trusted peer = true) :
    FirstLineDecides trusted peer (first :: later) ↔
      (∀ ip, Names trusted first ip ↔ Names trusted (joined (first :: later)) ip) ∧
        ∀ line ip, (first :: later).getLast? = some line → Names trusted line ip →
          Names trusted first ip := by
  rw [FirstLineDecides, hpeer, or_iff_right (by decide)]
  cases hvisible : (first :: later).all fun line => line.all isVisibleAscii with
  | false =>
    -- One line that is no text spoils the joined value: it names nobody.
    have hjoined : ∀ ip, ¬ Names trusted (joined (first :: later)) ip := by
      intro ip hnames
      have htext := hnames.1
      rw [visible_joined, hvisible] at htext
      exact absurd htext (by decide)
    rw [if_neg (by decide)]
    constructor
    · intro hnobody
      refine ⟨fun ip => iff_of_false (hnobody ip).1 (hjoined ip), ?_⟩
      intro line ip hline hnames
      exact absurd hnames ((hnobody ip).2 line hline)
    · rintro ⟨hsame, hlast⟩ ip
      have hfirst : ¬ Names trusted first ip := fun hnames => hjoined ip ((hsame ip).mp hnames)
      exact ⟨hfirst, fun line hline hnames => hfirst (hlast line ip hline hnames)⟩
  | true =>
    have htext : first.all isVisibleAscii = true := by
      rw [List.all_cons, Bool.and_eq_true] at hvisible
      exact hvisible.1
    have hfirst : ∀ ip, Names trusted first ip ↔ Client trusted (chainOf (ascii first)) ip :=
      fun ip => and_iff_right htext
    rw [if_pos rfl]
    simp only [hfirst, names_joined hvisible]
    constructor
    · intro hagree
      -- The joined chain is read from the right: through the later lines first, and into the first
      -- line only if all of their entries are hops.
      have hsame : ∀ ip, Client trusted (chainOf (ascii first)) ip ↔
          Client trusted (later.flatMap fun line => chainOf (ascii line)) ip ∨
            ((∀ hop ∈ later.flatMap fun line => chainOf (ascii line), IsHop trusted hop) ∧
              Client trusted (chainOf (ascii first)) ip) := by
        intro ip
        rcases hagree with hhops | hclient
        · rw [or_iff_right (not_client_of_hops hhops), and_iff_right hhops]
        · rw [← hclient ip]
          simp
      refine ⟨hsame, fun line ip hline hnames => ?_⟩
      exact (hsame ip).mpr ((names_joined hvisible).mp (names_joined_of_last hvisible hline hnames))
    · rintro ⟨hsame, _⟩
      by_cases hhops : ∀ hop ∈ later.flatMap fun line => chainOf (ascii line), IsHop trusted hop
      · exact Or.inl hhops
      · right
        intro ip
        rw [hsame ip, or_iff_left fun hboth => hhops hboth.1]

end FirstLine

/-! ## The theorem -/

section Extract

variable {IpNet : Type} {contains : IpNet → IpAddr → Bool} {toStr : HeaderValue → Option String}
  {extractor : TrustedProxyIpKeyExtractor IpNet} {request request' : Request}

/-- Two requests of one trusted peer have the same key just if their first lines name the same
client. -/
theorem extract_eq_extract_iff (htoStr : ReadsVisibleAscii toStr)
    (hpeer : extractor.isTrusted contains request.peer = true)
    (hsame : request'.peer = request.peer) :
    extractor.extract contains toStr request = extractor.extract contains toStr request' ↔
      ∀ ip, (∃ line, request.forwardedFor.head? = some line ∧
          Names (extractor.isTrusted contains) line ip) ↔
        ∃ line, request'.forwardedFor.head? = some line ∧
          Names (extractor.isTrusted contains) line ip := by
  have hpeer' : extractor.isTrusted contains request'.peer = true := by rw [hsame, hpeer]
  constructor
  · intro hkey ip
    cases hip : extractor.isTrusted contains ip with
    | false =>
      rw [← extract_eq_iff htoStr hpeer hip, ← extract_eq_iff htoStr hpeer' hip, hkey]
    | true =>
      have hnot : ∀ line, ¬ Names (extractor.isTrusted contains) line ip := by
        intro line hnames
        rw [hnames.2.untrusted] at hip
        exact absurd hip (by decide)
      simp [hnot]
  · intro hnamed
    rcases extract_trusted htoStr hpeer with ⟨line, hline, hnames⟩ | ⟨hnone, hkey⟩
    · exact ((extract_eq_iff htoStr hpeer' hnames.2.untrusted).mpr
        ((hnamed _).mp ⟨line, hline, hnames⟩)).symm
    · rcases extract_trusted htoStr hpeer' with ⟨line, hline, hnames⟩ | ⟨_, hkey'⟩
      · obtain ⟨line', hline', hnames'⟩ := (hnamed _).mpr ⟨line, hline, hnames⟩
        exact absurd hnames' (hnone line' _ hline')
      · rw [hkey, hkey', hsame]

/-- **Several field lines as one list.** The key of a request is the one its lines have joined with
commas, and the client a trusted proxy names in the last line, exactly if the first line decides. -/
theorem field_lines_as_one_iff (htoStr : ReadsVisibleAscii toStr) :
    (extractor.extract contains toStr request =
        extractor.extract contains toStr
          { request with forwardedFor := [joined request.forwardedFor] } ∧
      (extractor.isTrusted contains request.peer = true →
        ∀ line ip, request.forwardedFor.getLast? = some line →
          Names (extractor.isTrusted contains) line ip →
          extractor.extract contains toStr request = ip)) ↔
      FirstLineDecides (extractor.isTrusted contains) request.peer request.forwardedFor := by
  -- `one` is the same request with its lines joined, so that only the peer and the first line of it
  -- matter.
  generalize hone : { request with forwardedFor := [joined request.forwardedFor] } = one
  have hsame : one.peer = request.peer := by
    rw [← hone]
    rfl
  have hjoined : one.forwardedFor.head? = some (joined request.forwardedFor) := by
    rw [← hone]
    rfl
  cases hpeer : extractor.isTrusted contains request.peer with
  | false =>
    have hpeer' := hpeer
    rw [← hsame] at hpeer'
    rw [extract_untrusted hpeer, extract_untrusted hpeer', hsame]
    cases request.forwardedFor with
    | nil => simp [FirstLineDecides]
    | cons first later => simp [FirstLineDecides, hpeer]
  | true =>
    rw [extract_eq_extract_iff htoStr hpeer hsame, hjoined]
    have hkey : ∀ {line ip}, Names (extractor.isTrusted contains) line ip →
        (extractor.extract contains toStr request = ip ↔
          ∃ line, request.forwardedFor.head? = some line ∧
            Names (extractor.isTrusted contains) line ip) :=
      fun hnames => extract_eq_iff htoStr hpeer hnames.2.untrusted
    cases hlines : request.forwardedFor with
    | nil =>
      simp [FirstLineDecides, joined, not_names_nil]
    | cons first later =>
      rw [firstLineDecides_cons hpeer]
      simp only [hlines, List.head?_cons, Option.some.injEq, exists_eq_left'] at hkey ⊢
      -- The first parts of both sides are the same; the second ones name the client of the last
      -- line.
      refine and_congr_right fun _ => ?_
      constructor
      · intro hlast line ip hline hnames
        exact (hkey hnames).mp (hlast trivial line ip hline hnames)
      · intro hlast _ line ip hline hnames
        exact (hkey hnames).mpr (hlast line ip hline hnames)

end Extract

/-- The second line adds a proxy. -/
theorem field_lines_as_one_iff_hops :
    privateNet.extract Ipv4Net.contains visibleText
        (behindProxy [bytesOf "203.0.113.7", bytesOf "10.2.3.4"]) =
      privateNet.extract Ipv4Net.contains visibleText
        (behindProxy [bytesOf "203.0.113.7,10.2.3.4"]) := by
  have hiff := @field_lines_as_one_iff Ipv4Net Ipv4Net.contains visibleText privateNet
    (behindProxy [bytesOf "203.0.113.7", bytesOf "10.2.3.4"]) readsVisibleAscii_visibleText
  refine (hiff.mpr ?_).1
  right
  rw [if_pos (by decide)]
  left
  intro hop hhop
  have hchain : ([bytesOf "10.2.3.4"].flatMap fun line => chainOf (ascii line)) = ["10.2.3.4"] := by
    decide
  rw [hchain] at hhop
  rw [List.mem_singleton.mp hhop]
  exact ⟨.v4 (IpAddr.ofOctets 10 2 3 4), by decide, by decide⟩

/-- The client sends a line of its own, and the proxy adds one: the client chooses the key. -/
theorem appended_line_ignored :
    privateNet.extract Ipv4Net.contains visibleText
        (behindProxy [bytesOf "198.51.100.9", bytesOf "203.0.113.7, 10.2.3.4"]) =
      .v4 (IpAddr.ofOctets 198 51 100 9) ∧
    privateNet.extract Ipv4Net.contains visibleText
        (behindProxy [joined [bytesOf "198.51.100.9", bytesOf "203.0.113.7, 10.2.3.4"]]) =
      client ∧
    client ≠ .v4 (IpAddr.ofOctets 198 51 100 9) := by
  decide

end BaseSkeleton.RateLimit
