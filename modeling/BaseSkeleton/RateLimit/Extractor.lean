import BaseSkeleton.Text
import BaseSkeleton.RateLimit.IpAddr

/-!
# The key of the rate limiter

`TrustedProxyIpKeyExtractor` of `src/presentation/http/rate_limit.rs`: a request counts against its
peer, unless the peer is a trusted proxy that forwards an address.

`ipnet` and `http` are not part of the repository. `contains` stands for `IpNet::contains`, of which
nothing is assumed, and `toStr` for `HeaderValue::to_str`, of which `ReadsVisibleAscii` is.

* `scan_eq_some` — what the loop finds, without the loop.
* `extract_eq_iff` — the key of a request behind a trusted proxy.
* `rightmost_untrusted_key` — the key of a request with one `X-Forwarded-For` line.
-/

namespace BaseSkeleton.RateLimit

/-- `std::net::SocketAddr`. -/
structure SocketAddr where
  ip : IpAddr
  port : UInt16

/-- The bytes of an `http::HeaderValue`. -/
abbrev HeaderValue := List UInt8

/-- What the extractor reads of a request: two extensions, and the values of the `X-Forwarded-For`
field lines in order. -/
structure Request where
  connectInfo : Option SocketAddr
  socketAddr : Option SocketAddr
  forwardedFor : List HeaderValue

/-- The address of the connection; the fallback is for tests. -/
def Request.peer (request : Request) : IpAddr :=
  ((request.connectInfo.map SocketAddr.ip).or (request.socketAddr.map SocketAddr.ip)).getD
    .localhost

/-- A printable ASCII character or a tab. -/
def isVisibleAscii (b : UInt8) : Bool :=
  (32 ≤ b ∧ b < 127) ∨ b = 9

/-- The string of ASCII bytes. -/
def ascii (value : HeaderValue) : String :=
  .ofList (value.map fun b => .ofNat b.toNat)

/-- `HeaderValue::to_str` yields a string if the value only contains visible ASCII characters. -/
def ReadsVisibleAscii (toStr : HeaderValue → Option String) : Prop :=
  ∀ value, toStr value = if value.all isVisibleAscii then some (ascii value) else none

/-! ## The loop

The entries are read from the right. An entry that is not an address ends the search, and one that
is trusted continues it. -/

/-- The loop over the entries, the last one first. -/
def scan (trusted : IpAddr → Bool) : List String → Option IpAddr
  | [] => none
  | entry :: entries =>
    match IpAddr.fromStr entry with
    -- `break`
    | none => none
    | some ip => if trusted ip then scan trusted entries else some ip

structure TrustedProxyIpKeyExtractor (IpNet : Type) where
  trustedProxyCidrs : List IpNet

namespace TrustedProxyIpKeyExtractor

variable {IpNet : Type} (contains : IpNet → IpAddr → Bool) (toStr : HeaderValue → Option String)
  (extractor : TrustedProxyIpKeyExtractor IpNet) (request : Request)

def isTrusted (ip : IpAddr) : Bool :=
  extractor.trustedProxyCidrs.any fun network => contains network ip

/-- `extract`; every path of it is `Ok`. -/
def extract : IpAddr :=
  if extractor.isTrusted contains request.peer = false then request.peer
  else
    -- `HeaderMap::get` returns the first of several values
    match request.forwardedFor.head?.bind toStr with
    | none => request.peer
    | some value =>
      (scan (extractor.isTrusted contains) ((Text.rsplit ',' value).map Text.trim)).getD
        request.peer

end TrustedProxyIpKeyExtractor

/-! ## Chains

What the loop finds, said of the chain as a whole: an untrusted address to whose right there are
trusted ones only. -/

variable {trusted : IpAddr → Bool} {chain near far : List String} {ip : IpAddr}

/-- The entries of a forwarded chain, the farthest hop first. -/
def chainOf (text : String) : List String :=
  (Text.split ',' text).map Text.trim

/-- The entry is the address of a trusted proxy. -/
def IsHop (trusted : IpAddr → Bool) (entry : String) : Prop :=
  ∃ ip, IpAddr.fromStr entry = some ip ∧ trusted ip = true

/-- `entry` is an address that is not trusted, with trusted addresses only to its right. -/
structure ClientAt (trusted : IpAddr → Bool) (chain before : List String) (entry : String)
    (after : List String) (ip : IpAddr) : Prop where
  chain_eq : chain = before ++ entry :: after
  parses : IpAddr.fromStr entry = some ip
  untrusted : trusted ip = false
  hops : ∀ hop ∈ after, IsHop trusted hop

/-- The client of a chain: its rightmost address that is not trusted. -/
def Client (trusted : IpAddr → Bool) (chain : List String) (ip : IpAddr) : Prop :=
  ∃ before entry after, ClientAt trusted chain before entry after ip

theorem not_isHop {entry : String} (hparses : IpAddr.fromStr entry = some ip)
    (huntrusted : trusted ip = false) : ¬ IsHop trusted entry := by
  intro hhop
  obtain ⟨hop, hhop, htrusted⟩ := hhop
  rw [hparses] at hhop
  rw [← Option.some.inj hhop, huntrusted] at htrusted
  exact absurd htrusted (by decide)

/-- What the loop finds. -/
theorem scan_eq_some {entries : List String} :
    scan trusted entries = some ip ↔
      ∃ hops entry rest, entries = hops ++ entry :: rest ∧ (∀ hop ∈ hops, IsHop trusted hop) ∧
        IpAddr.fromStr entry = some ip ∧ trusted ip = false := by
  induction entries with
  | nil => simp [scan]
  | cons first entries ih =>
    constructor
    · intro h
      simp only [scan] at h
      split at h
      · exact absurd h (by simp)
      · next address hparses =>
        split at h
        · next htrusted =>
          obtain ⟨hops, entry, rest, rfl, hhops, hentry⟩ := ih.mp h
          refine ⟨first :: hops, entry, rest, rfl, ?_, hentry⟩
          exact List.forall_mem_cons.mpr ⟨⟨address, hparses, htrusted⟩, hhops⟩
        · next huntrusted =>
          rw [← Option.some.inj h]
          exact ⟨[], first, entries, rfl, by simp, hparses, by simpa using huntrusted⟩
    · rintro ⟨hops, entry, rest, hsplit, hhops, hparses, huntrusted⟩
      cases hops with
      | nil =>
        obtain ⟨rfl, _⟩ := List.cons.inj hsplit
        simp [scan, hparses, huntrusted]
      | cons hop hops =>
        obtain ⟨rfl, hrest⟩ := List.cons.inj hsplit
        obtain ⟨⟨address, hfirst, htrusted⟩, hhops⟩ := List.forall_mem_cons.mp hhops
        simp only [scan, hfirst, htrusted, if_true]
        exact ih.mpr ⟨hops, entry, rest, hrest, hhops, hparses, huntrusted⟩

/-- The loop goes through the chain from the right. -/
theorem scan_reverse : scan trusted chain.reverse = some ip ↔ Client trusted chain ip := by
  rw [scan_eq_some]
  constructor
  · rintro ⟨hops, entry, rest, hsplit, hhops, hparses, huntrusted⟩
    refine ⟨rest.reverse, entry, hops.reverse, ?_, hparses, huntrusted, by simpa using hhops⟩
    rw [← List.reverse_reverse chain, hsplit]
    simp
  · rintro ⟨before, entry, after, hclient⟩
    refine ⟨after.reverse, entry, before.reverse, ?_, ?_, hclient.parses, hclient.untrusted⟩
    · rw [hclient.chain_eq]
      simp
    · simpa using hclient.hops

/-- There is at most one entry a client can be at. -/
theorem ClientAt.unique {before before' after after' : List String} {entry entry' : String}
    {ip' : IpAddr} (h : ClientAt trusted chain before entry after ip)
    (h' : ClientAt trusted chain before' entry' after' ip') :
    before = before' ∧ entry = entry' ∧ after = after' ∧ ip = ip' := by
  have hsplit := h.chain_eq.symm.trans h'.chain_eq
  rcases List.append_eq_append_iff.mp hsplit with ⟨middle, hbefore, hrest⟩ |
    ⟨middle, hbefore, hrest⟩
  · cases middle with
    | nil =>
      obtain ⟨rfl, rfl⟩ := List.cons.inj hrest
      have hip := h.parses.symm.trans h'.parses
      exact ⟨by simpa using hbefore.symm, rfl, rfl, Option.some.inj hip⟩
    | cons hop middle =>
      -- the other client would be one of the hops to the right
      obtain ⟨_, hafter⟩ := List.cons.inj hrest
      have hmem : entry' ∈ after := by
        rw [hafter]
        simp
      exact absurd (h.hops entry' hmem) (not_isHop h'.parses h'.untrusted)
  · cases middle with
    | nil =>
      obtain ⟨rfl, rfl⟩ := List.cons.inj hrest
      have hip := h.parses.symm.trans h'.parses
      exact ⟨by simpa using hbefore, rfl, rfl, Option.some.inj hip⟩
    | cons hop middle =>
      obtain ⟨_, hafter⟩ := List.cons.inj hrest
      have hmem : entry ∈ after' := by
        rw [hafter]
        simp
      exact absurd (h'.hops entry hmem) (not_isHop h.parses h.untrusted)

theorem Client.unique {ip' : IpAddr} (h : Client trusted chain ip)
    (h' : Client trusted chain ip') : ip = ip' := by
  obtain ⟨_, _, _, hclient⟩ := h
  obtain ⟨_, _, _, hclient'⟩ := h'
  exact (hclient.unique hclient').2.2.2

theorem Client.untrusted (h : Client trusted chain ip) : trusted ip = false := by
  obtain ⟨_, _, _, hclient⟩ := h
  exact hclient.untrusted

/-- Of two chains one after the other, the right one decides unless it consists of hops. -/
theorem client_append : Client trusted (far ++ near) ip ↔
    Client trusted near ip ∨ ((∀ hop ∈ near, IsHop trusted hop) ∧ Client trusted far ip) := by
  constructor
  · rintro ⟨before, entry, after, hclient⟩
    rcases List.append_eq_append_iff.mp hclient.chain_eq with ⟨middle, hbefore, hnear⟩ |
      ⟨middle, hfar, hrest⟩
    · exact Or.inl ⟨middle, entry, after, hnear, hclient.parses, hclient.untrusted, hclient.hops⟩
    · cases middle with
      | nil =>
        left
        exact ⟨[], entry, after, by simpa using hrest.symm, hclient.parses, hclient.untrusted,
          hclient.hops⟩
      | cons first middle =>
        obtain ⟨rfl, hafter⟩ := List.cons.inj hrest
        have hhops := hclient.hops
        rw [show after = middle ++ near from hafter, List.forall_mem_append] at hhops
        exact Or.inr ⟨hhops.2, before, entry, middle, hfar, hclient.parses, hclient.untrusted,
          hhops.1⟩
  · rintro (⟨before, entry, after, hclient⟩ | ⟨hnear, before, entry, after, hclient⟩)
    · refine ⟨far ++ before, entry, after, ?_, hclient.parses, hclient.untrusted, hclient.hops⟩
      rw [hclient.chain_eq, List.append_assoc]
    · refine ⟨before, entry, after ++ near, ?_, hclient.parses, hclient.untrusted, ?_⟩
      · rw [hclient.chain_eq, List.append_assoc, List.cons_append]
      · exact List.forall_mem_append.mpr ⟨hclient.hops, hnear⟩

/-! ## Lines

A line that holds a byte `to_str` does not read forwards nothing, whatever stands in the rest of it.
-/

/-- The client of a field line that is text. -/
def Names (trusted : IpAddr → Bool) (line : HeaderValue) (ip : IpAddr) : Prop :=
  line.all isVisibleAscii = true ∧ Client trusted (chainOf (ascii line)) ip

/-- A comma between two lines separates their chains. -/
theorem chainOf_append (line line' : HeaderValue) :
    chainOf (ascii (line ++ 44 :: line')) = chainOf (ascii line) ++ chainOf (ascii line') := by
  have hcomma : Char.ofNat (44 : UInt8).toNat = ',' := by decide
  simp only [chainOf, ascii, List.map_append, List.map_cons, hcomma]
  rw [Text.split_append, List.map_append]

theorem visible_append (line line' : HeaderValue) :
    (line ++ 44 :: line').all isVisibleAscii =
      (line.all isVisibleAscii && line'.all isVisibleAscii) := by
  rw [List.all_append, List.all_cons, show isVisibleAscii 44 = true by decide, Bool.true_and]

/-! ## The key

The peer, unless it is trusted and the first line names a client. -/

section Extract

variable {IpNet : Type} {contains : IpNet → IpAddr → Bool} {toStr : HeaderValue → Option String}
  {extractor : TrustedProxyIpKeyExtractor IpNet} {request : Request}

theorem extract_untrusted (hpeer : extractor.isTrusted contains request.peer = false) :
    extractor.extract contains toStr request = request.peer :=
  if_pos hpeer

/-- The key behind a trusted proxy is the client of the first line, or the peer. -/
theorem extract_trusted (htoStr : ReadsVisibleAscii toStr)
    (hpeer : extractor.isTrusted contains request.peer = true) :
    (∃ line, request.forwardedFor.head? = some line ∧
        Names (extractor.isTrusted contains) line (extractor.extract contains toStr request)) ∨
      ((∀ line ip, request.forwardedFor.head? = some line →
          ¬ Names (extractor.isTrusted contains) line ip) ∧
        extractor.extract contains toStr request = request.peer) := by
  unfold TrustedProxyIpKeyExtractor.extract
  rw [if_neg (by simp [hpeer])]
  cases request.forwardedFor.head? with
  | none => simp
  | some line =>
    simp only [Option.bind_some, htoStr line, Option.some.injEq, exists_eq_left']
    cases hvisible : line.all isVisibleAscii with
    | false =>
      right
      refine ⟨fun line' ip hline hnames => ?_, by simp⟩
      rw [← hline, Names, hvisible] at hnames
      exact absurd hnames.1 (by decide)
    | true =>
      -- The code splits from the right, which is the chain backwards.
      have hchain : (Text.rsplit ',' (ascii line)).map Text.trim =
          (chainOf (ascii line)).reverse := by
        rw [Text.rsplit, chainOf, List.map_reverse]
      simp only [if_true, hchain]
      cases hscan : scan (extractor.isTrusted contains) (chainOf (ascii line)).reverse with
      | some ip =>
        left
        exact ⟨hvisible, scan_reverse.mp hscan⟩
      | none =>
        right
        refine ⟨fun line' ip hline hnames => ?_, rfl⟩
        rw [← hline] at hnames
        rw [scan_reverse.mpr hnames.2] at hscan
        exact absurd hscan (by simp)

/-- An address that is not trusted is the key just if the first line names it. -/
theorem extract_eq_iff (htoStr : ReadsVisibleAscii toStr)
    (hpeer : extractor.isTrusted contains request.peer = true) {ip : IpAddr}
    (hip : extractor.isTrusted contains ip = false) :
    extractor.extract contains toStr request = ip ↔
      ∃ line, request.forwardedFor.head? = some line ∧
        Names (extractor.isTrusted contains) line ip := by
  rcases extract_trusted htoStr hpeer with ⟨line, hline, hnames⟩ | ⟨hnone, hkey⟩
  · constructor
    · intro hkey
      exact ⟨line, hline, hkey ▸ hnames⟩
    · rintro ⟨line', hline', hnames'⟩
      rw [hline] at hline'
      rw [← Option.some.inj hline'] at hnames'
      exact hnames.2.unique hnames'.2
  · constructor
    · intro hkey'
      rw [hkey] at hkey'
      rw [hkey', hip] at hpeer
      exact absurd hpeer (by decide)
    · rintro ⟨line, hline, hnames⟩
      exact absurd hnames (hnone line ip hline)

/-- The key is the peer or an address of the header that is not trusted. -/
theorem extract_origin (htoStr : ReadsVisibleAscii toStr) :
    extractor.extract contains toStr request = request.peer ∨
      ∃ line, request.forwardedFor.head? = some line ∧
        Names (extractor.isTrusted contains) line (extractor.extract contains toStr request) := by
  cases hpeer : extractor.isTrusted contains request.peer with
  | false => exact Or.inl (extract_untrusted hpeer)
  | true =>
    rcases extract_trusted htoStr hpeer with hnames | ⟨_, hkey⟩
    · exact Or.inr hnames
    · exact Or.inl hkey

/-- **Rightmost-untrusted key selection.** The key of a request with one `X-Forwarded-For` line: the
client of the line if the peer is trusted and the line is text that has one, and the peer otherwise.
Whatever text is put in front of a line with a client, the key is the same. -/
theorem rightmost_untrusted_key (htoStr : ReadsVisibleAscii toStr) {value : HeaderValue}
    (hvalue : request.forwardedFor = [value]) :
    (extractor.isTrusted contains request.peer = false →
      extractor.extract contains toStr request = request.peer) ∧
    (extractor.isTrusted contains request.peer = true → value.all isVisibleAscii = false →
      extractor.extract contains toStr request = request.peer) ∧
    (extractor.isTrusted contains request.peer = true → value.all isVisibleAscii = true →
      (∀ ip, Client (extractor.isTrusted contains) (chainOf (ascii value)) ip →
        extractor.extract contains toStr request = ip) ∧
      ((∀ ip, ¬ Client (extractor.isTrusted contains) (chainOf (ascii value)) ip) →
        extractor.extract contains toStr request = request.peer)) ∧
    (∀ before entry after ip before' entry' after' ip',
      ClientAt (extractor.isTrusted contains) (chainOf (ascii value)) before entry after ip →
      ClientAt (extractor.isTrusted contains) (chainOf (ascii value)) before' entry' after' ip' →
      before = before' ∧ entry = entry' ∧ after = after' ∧ ip = ip') ∧
    (extractor.extract contains toStr request = request.peer ∨
      extractor.isTrusted contains (extractor.extract contains toStr request) = false ∧
        ∃ entry ∈ chainOf (ascii value),
          IpAddr.fromStr entry = some (extractor.extract contains toStr request)) ∧
    ∀ (text : HeaderValue) (ip : IpAddr), text.all isVisibleAscii = true →
      Names (extractor.isTrusted contains) value ip →
      extractor.extract contains toStr { request with forwardedFor := [text ++ 44 :: value] } =
        extractor.extract contains toStr request := by
  -- With a single field line, the line that is read is that one.
  have hline : request.forwardedFor.head? = some value := by rw [hvalue, List.head?_cons]
  have hsame : ∀ {line ip}, request.forwardedFor.head? = some line →
      Names (extractor.isTrusted contains) line ip →
      Names (extractor.isTrusted contains) value ip := by
    intro line ip hline' hnames
    rw [hline] at hline'
    rwa [Option.some.inj hline']
  refine ⟨extract_untrusted, ?_, ?_, ?_, ?_, ?_⟩
  · -- A value that is not visible ASCII is no text to the code, and the peer is all there is.
    intro hpeer hvisible
    rcases extract_trusted htoStr hpeer with ⟨line, hline', hnames⟩ | ⟨_, hkey⟩
    · have hvisible' := (hsame hline' hnames).1
      rw [hvisible] at hvisible'
      exact absurd hvisible' (by decide)
    · exact hkey
  · intro hpeer hvisible
    refine ⟨fun ip hclient => ?_, fun hnone => ?_⟩
    · exact (extract_eq_iff htoStr hpeer hclient.untrusted).mpr
        ⟨value, hline, hvisible, hclient⟩
    · rcases extract_trusted htoStr hpeer with ⟨line, hline', hnames⟩ | ⟨_, hkey⟩
      · exact absurd (hsame hline' hnames).2 (hnone _)
      · exact hkey
  · intro before entry after ip before' entry' after' ip' h h'
    exact h.unique h'
  · rcases extract_origin htoStr with hkey | ⟨line, hline', hnames⟩
    · exact Or.inl hkey
    · obtain ⟨_, before, entry, after, hclient⟩ := hsame hline' hnames
      refine Or.inr ⟨hclient.untrusted, entry, ?_, hclient.parses⟩
      rw [hclient.chain_eq]
      simp
  · -- A client may send any list of its own, but it stands to the left of what the proxies append,
    -- and the chain is read from the right.
    intro text ip htext hnames
    generalize hlonger : { request with forwardedFor := [text ++ 44 :: value] } = longer
    have hpeer_eq : longer.peer = request.peer := by
      rw [← hlonger]
      rfl
    have hfirst : longer.forwardedFor.head? = some (text ++ 44 :: value) := by
      rw [← hlonger]
      rfl
    cases hpeer : extractor.isTrusted contains request.peer with
    | false =>
      have hpeer' := hpeer
      rw [← hpeer_eq] at hpeer'
      rw [extract_untrusted hpeer, extract_untrusted hpeer', hpeer_eq]
    | true =>
      have hpeer' := hpeer
      rw [← hpeer_eq] at hpeer'
      have hkey := (extract_eq_iff htoStr hpeer hnames.2.untrusted).mpr ⟨value, hline, hnames⟩
      rw [hkey]
      refine (extract_eq_iff htoStr hpeer' hnames.2.untrusted).mpr ⟨_, hfirst, ?_, ?_⟩
      · rw [visible_append, htext, hnames.1]
        rfl
      · rw [chainOf_append]
        exact client_append.mpr (Or.inl hnames.2)

end Extract

/-! ## A proxy in 10.0.0.0/8 -/

/-- An IPv4 network with a prefix of at most 32 bits. -/
structure Ipv4Net where
  address : BitVec 32
  prefixLen : Nat

/-- `IpNet::contains` of an IPv4 network. -/
def Ipv4Net.contains (network : Ipv4Net) : IpAddr → Bool
  | .v4 bits => bits >>> (32 - network.prefixLen) = network.address >>> (32 - network.prefixLen)
  | .v6 _ => false

def privateNet : TrustedProxyIpKeyExtractor Ipv4Net := ⟨[⟨IpAddr.ofOctets 10 0 0 0, 8⟩]⟩

/-- `HeaderValue::to_str`. -/
def visibleText (value : HeaderValue) : Option String :=
  if value.all isVisibleAscii then some (ascii value) else none

theorem readsVisibleAscii_visibleText : ReadsVisibleAscii visibleText :=
  fun _ => rfl

/-- A request of 10.1.2.3 with these `X-Forwarded-For` lines. -/
def behindProxy (lines : List HeaderValue) : Request where
  connectInfo := some ⟨.v4 (IpAddr.ofOctets 10 1 2 3), 1234⟩
  socketAddr := none
  forwardedFor := lines

/-- The bytes of an ASCII string. -/
def bytesOf (s : String) : HeaderValue :=
  s.toList.map fun c => .ofNat c.toNat

def client : IpAddr := .v4 (IpAddr.ofOctets 203 0 113 7)

theorem rightmost_untrusted_key_forwarded :
    privateNet.extract Ipv4Net.contains visibleText
      (behindProxy [bytesOf "198.51.100.9, 203.0.113.7, 10.2.3.4"]) = client := by
  have hkeys := @rightmost_untrusted_key Ipv4Net Ipv4Net.contains visibleText privateNet
    (behindProxy [bytesOf "198.51.100.9, 203.0.113.7, 10.2.3.4"]) readsVisibleAscii_visibleText
    (bytesOf "198.51.100.9, 203.0.113.7, 10.2.3.4") rfl
  refine (hkeys.2.2.1 (by decide) (by decide)).1 client ?_
  refine ⟨["198.51.100.9"], "203.0.113.7", ["10.2.3.4"], by decide, by decide, by decide, ?_⟩
  intro hop hhop
  rw [List.mem_singleton.mp hhop]
  exact ⟨.v4 (IpAddr.ofOctets 10 2 3 4), by decide, by decide⟩

/-- A byte that is not ASCII hides an address that is not trusted and stands last; it is what was
put in front of a header that named this address. -/
theorem high_byte_hides_client :
    privateNet.isTrusted Ipv4Net.contains (behindProxy []).peer = true ∧
      (255 :: 44 :: bytesOf "203.0.113.7").splitOn 44 = [[255], bytesOf "203.0.113.7"] ∧
      visibleText (bytesOf "203.0.113.7") = some "203.0.113.7" ∧
      IpAddr.fromStr "203.0.113.7" = some client ∧
      privateNet.isTrusted Ipv4Net.contains client = false ∧
      privateNet.extract Ipv4Net.contains visibleText (behindProxy [bytesOf "203.0.113.7"]) =
        client ∧
      privateNet.extract Ipv4Net.contains visibleText
        (behindProxy [255 :: 44 :: bytesOf "203.0.113.7"]) = (behindProxy []).peer ∧
      (behindProxy []).peer ≠ client := by
  decide

end BaseSkeleton.RateLimit
