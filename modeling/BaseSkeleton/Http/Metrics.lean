import Mathlib.Logic.Function.Basic
import BaseSkeleton.Basic
import BaseSkeleton.Lib.Indexed
import BaseSkeleton.Lib.Machine

/-!
# The HTTP metrics

`record_http_metrics` of `src/presentation/http/router.rs` under the `TimeoutLayer`, and the
instruments of `src/telemetry/mod.rs` it writes to. Requests are futures that are polled next to
each other. A future that is dropped runs no more of its code, so that a request the `TimeoutLayer`
answers, or whose client goes away, leaves `record_http_metrics` at its `await`.

* `Steps` — what one step does to the requests and to the gauge.
* `reachable_counted` — the gauge counts the requests in progress and all that were dropped.
* `gauge_balances_iff` — when the gauge shows the requests in progress.
-/

namespace BaseSkeleton.Http

/-! ## Instruments

An instrument has one value for each set of attributes. Without an exporter there are none, and the
calls do nothing. -/

/-- The attributes of the gauge. -/
structure Attributes where
  method : String
  route : String
deriving DecidableEq

/-- The attributes with `http.response.status_code`. -/
structure ResponseAttributes extends Attributes where
  status : UInt16
deriving DecidableEq

/-- What was added to the HTTP instruments, and what the histogram recorded. -/
structure Metrics where
  httpRequests : ResponseAttributes → Nat
  httpDuration : List (Duration × ResponseAttributes)
  httpActive : Attributes → Int
  rateLimitRejections : ResponseAttributes → Nat

def Metrics.zero : Metrics :=
  ⟨fun _ => 0, [], fun _ => 0, fun _ => 0⟩

/-- `Counter::add` and `UpDownCounter::add`. -/
def add {κ M : Type} [DecidableEq κ] [Add M] (instrument : κ → M) (value : M) (attributes : κ) :
    κ → M :=
  Function.update instrument attributes (instrument attributes + value)

/-- `METRICS`: the instruments, once telemetry has set them up. -/
abbrev Telemetry := Option Metrics

def httpRequestStarted (telemetry : Telemetry) (attributes : Attributes) : Telemetry :=
  telemetry.map fun metrics =>
    { metrics with httpActive := add metrics.httpActive 1 attributes }

def httpRequestFinished (telemetry : Telemetry) (attributes : ResponseAttributes)
    (duration : Duration) : Telemetry :=
  telemetry.map fun metrics =>
    { metrics with
      httpActive := add metrics.httpActive (-1) attributes.toAttributes
      httpRequests := add metrics.httpRequests 1 attributes
      httpDuration := (duration, attributes) :: metrics.httpDuration }

def recordRateLimitRejection (telemetry : Telemetry) (attributes : ResponseAttributes) :
    Telemetry :=
  telemetry.map fun metrics =>
    { metrics with rateLimitRejections := add metrics.rateLimitRejections 1 attributes }

/-! ## Requests

A request is polled, answered or dropped; what `record_http_metrics` does after its `await` is done
only in the poll in which the rest of the router returns. -/

/-- What `record_http_metrics` reads of a response: the status, and whether `RateLimitRejection` is
among the extensions. -/
structure Response where
  status : UInt16
  rateLimitRejection : Bool

/-- How far the future of `record_http_metrics` has come. -/
inductive Stage where
  /-- at `next.run(request).await` -/
  | running
  | returned
  /-- dropped by the `TimeoutLayer`, which answers in its place -/
  | timedOut
  /-- dropped with the connection -/
  | disconnected
deriving DecidableEq

/-- A request: the deadline of its `TimeoutLayer` and the variables of `record_http_metrics`. -/
structure Request where
  attributes : Attributes
  deadline : Instant
  started : Instant
  stage : Stage

/-- The end of `record_http_metrics`, with the response of `next`. -/
def Request.finish (request : Request) (now : Instant) (response : Response)
    (telemetry : Telemetry) : Telemetry :=
  let attributes : ResponseAttributes := { request.attributes with status := response.status }
  let telemetry := httpRequestFinished telemetry attributes (now - request.started)
  if response.rateLimitRejection then recordRateLimitRejection telemetry attributes else telemetry

/-- The server: the clock, the instruments, and every request since it started. -/
structure Server where
  now : Instant
  telemetry : Telemetry
  requests : List Request

inductive Event where
  /-- the first poll of a request; `matched` is its `MatchedPath` -/
  | request (method : String) (matched : Option String)
  /-- another poll; `next` is what `next.run(request)` shows -/
  | poll (i : Nat) (next : Option Response)
  /-- the `TimeoutLayer` finds its deadline passed -/
  | timeout (i : Nat)
  /-- the connection is closed -/
  | disconnect (i : Nat)

structure HttpInput where
  now : Instant
  event : Event

/-- Replace request `i`, which `record_http_metrics` has not returned from. -/
def Server.advance (s : Server) (now : Instant) (i : Nat)
    (f : Request → Telemetry → Option (Stage × Telemetry)) : Option Server :=
  match s.requests[i]? with
  | none => none
  | some request =>
    match request.stage with
    | .running =>
      (f request s.telemetry).map fun (stage, telemetry) =>
        ⟨now, telemetry, s.requests.set i { request with stage := stage }⟩
    | _ => none

/-- One step of the server; the `TimeoutLayer` gives every request `requestTimeout`. -/
def Server.step (requestTimeout : Duration) (s : Server) (input : HttpInput) : Option Server :=
  let now := input.now
  if now < s.now then none
  else
    match input.event with
    | .request method matched =>
      let attributes : Attributes := ⟨method, matched.getD "unmatched"⟩
      some ⟨now, httpRequestStarted s.telemetry attributes,
        s.requests ++ [⟨attributes, now + requestTimeout, now, .running⟩]⟩
    | .poll i none => s.advance now i fun _ telemetry => some (.running, telemetry)
    | .poll i (some response) =>
      s.advance now i fun request telemetry =>
        some (.returned, request.finish now response telemetry)
    | .timeout i =>
      s.advance now i fun request telemetry =>
        -- a timer does not fire early
        if request.deadline ≤ now then some (.timedOut, telemetry) else none
    | .disconnect i => s.advance now i fun _ telemetry => some (.disconnected, telemetry)

/-- A server whose instruments are set up before it starts. -/
def server (requestTimeout : Duration) (start : Instant) : Machine Server HttpInput where
  init := ⟨start, some .zero, []⟩
  step := Server.step requestTimeout

variable {requestTimeout : Duration} {start now : Instant} {s s' : Server} {input : HttpInput}
  {i : Nat} {request : Request} {stage : Stage}

/-! ## What a step can do

A request comes, or one that is running is polled, answered or dropped: no step touches more than
one request and the instruments. -/

/-- Request `i` moves on from its `await`. -/
def Server.moved (s : Server) (now : Instant) (telemetry : Telemetry) (i : Nat)
    (request : Request) (stage : Stage) : Server :=
  ⟨now, telemetry, s.requests.set i { request with stage := stage }⟩

/-- **Inversion of `step`.** -/
inductive Steps (requestTimeout : Duration) (s : Server) : HttpInput → Server → Prop where
  | request (now : Instant) (method : String) (matched : Option String) :
      Steps requestTimeout s ⟨now, .request method matched⟩
        ⟨now, httpRequestStarted s.telemetry ⟨method, matched.getD "unmatched"⟩,
          s.requests ++
            [⟨⟨method, matched.getD "unmatched"⟩, now + requestTimeout, now, .running⟩]⟩
  | pending (now : Instant) (i : Nat) (request : Request) (h : s.requests[i]? = some request)
      (hrunning : request.stage = .running) :
      Steps requestTimeout s ⟨now, .poll i none⟩ (s.moved now s.telemetry i request .running)
  | returned (now : Instant) (i : Nat) (request : Request) (response : Response)
      (h : s.requests[i]? = some request) (hrunning : request.stage = .running) :
      Steps requestTimeout s ⟨now, .poll i (some response)⟩
        (s.moved now (request.finish now response s.telemetry) i request .returned)
  | timedOut (now : Instant) (i : Nat) (request : Request) (h : s.requests[i]? = some request)
      (hrunning : request.stage = .running) (hdeadline : request.deadline ≤ now) :
      Steps requestTimeout s ⟨now, .timeout i⟩ (s.moved now s.telemetry i request .timedOut)
  | disconnected (now : Instant) (i : Nat) (request : Request)
      (h : s.requests[i]? = some request) (hrunning : request.stage = .running) :
      Steps requestTimeout s ⟨now, .disconnect i⟩
        (s.moved now s.telemetry i request .disconnected)

/-- Only a request that is running goes on, and nothing but it and the instruments changes. -/
theorem advance_eq_some {f : Request → Telemetry → Option (Stage × Telemetry)}
    (h : s.advance now i f = some s') :
    ∃ request stage telemetry, s.requests[i]? = some request ∧ request.stage = .running ∧
      f request s.telemetry = some (stage, telemetry) ∧
      s' = s.moved now telemetry i request stage := by
  unfold Server.advance at h
  split at h
  · cases h
  · next request hrequest =>
    split at h
    · next hrunning =>
      obtain ⟨⟨stage, telemetry⟩, hf, hs'⟩ := Option.map_eq_some_iff.mp h
      exact ⟨request, stage, telemetry, hrequest, hrunning, hf, hs'.symm⟩
    · cases h

/-- **Inversion of `step`.** -/
theorem step_steps (h : s.step requestTimeout input = some s') :
    Steps requestTimeout s input s' := by
  obtain ⟨now, event⟩ := input
  unfold Server.step at h
  simp only at h
  split at h
  · cases h
  · cases event with
    | request method matched =>
      cases h
      exact .request now method matched
    | poll i next =>
      cases next with
      | none =>
        obtain ⟨request, stage, telemetry, hrequest, hrunning, hf, rfl⟩ := advance_eq_some h
        cases hf
        exact .pending now i request hrequest hrunning
      | some response =>
        obtain ⟨request, stage, telemetry, hrequest, hrunning, hf, rfl⟩ := advance_eq_some h
        cases hf
        exact .returned now i request response hrequest hrunning
    | timeout i =>
      obtain ⟨request, stage, telemetry, hrequest, hrunning, hf, rfl⟩ := advance_eq_some h
      split at hf
      · next hdeadline =>
        cases hf
        exact .timedOut now i request hrequest hrunning hdeadline
      · cases hf
    | disconnect i =>
      obtain ⟨request, stage, telemetry, hrequest, hrunning, hf, rfl⟩ := advance_eq_some h
      cases hf
      exact .disconnected now i request hrequest hrunning

/-! ## What the gauge counts

A request is counted when it starts, and uncounted when it returns. Counting the requests that have
not returned is therefore an invariant, and the dropped ones never leave that count. -/

def Stage.isDropped : Stage → Bool
  | timedOut => true
  | disconnected => true
  | _ => false

/-- The request is in progress, for the given method and route. -/
def Request.inProgress (attributes : Attributes) (request : Request) : Bool :=
  request.stage = .running ∧ request.attributes = attributes

/-- The request was dropped, for the given method and route. -/
def Request.wasDropped (attributes : Attributes) (request : Request) : Bool :=
  request.stage.isDropped ∧ request.attributes = attributes

/-- `record_http_metrics` has not returned from the request. -/
def Request.unreturned (attributes : Attributes) (request : Request) : Bool :=
  request.stage ≠ .returned ∧ request.attributes = attributes

/-- A request that has not returned is in progress, or was dropped. -/
theorem countP_unreturned (requests : List Request) (attributes : Attributes) :
    requests.countP (Request.unreturned attributes) =
      requests.countP (Request.inProgress attributes) +
        requests.countP (Request.wasDropped attributes) := by
  induction requests with
  | nil => rfl
  | cons request requests ih =>
    rw [List.countP_cons, List.countP_cons, List.countP_cons, ih]
    unfold Request.unreturned Request.inProgress Request.wasDropped
    cases request.stage with
    | running => simp [Stage.isDropped]; omega
    | returned => simp [Stage.isDropped]
    | timedOut => simp [Stage.isDropped]; omega
    | disconnected => simp [Stage.isDropped]; omega

/-- What a request that moves on changes: nothing, unless it returns. -/
theorem countP_unreturned_set {requests : List Request} (h : requests[i]? = some request)
    (hrunning : request.stage = .running) (stage : Stage) (attributes : Attributes) :
    (requests.set i { request with stage := stage }).countP (Request.unreturned attributes) +
        (if stage = .returned ∧ request.attributes = attributes then 1 else 0) =
      requests.countP (Request.unreturned attributes) := by
  have hset := Indexed.countP_set (a := { request with stage := stage })
    (Request.unreturned attributes) h
  unfold Request.unreturned at hset ⊢
  rw [hrunning] at hset
  by_cases hattributes : request.attributes = attributes
  · by_cases hreturned : stage = .returned
    · simp [hattributes, hreturned] at hset ⊢
      omega
    · simp [hattributes, hreturned] at hset ⊢
      omega
  · simp [hattributes] at hset ⊢
    omega

/-- A request that returns is taken off the gauge, whatever the response. -/
theorem finish_some (request : Request) (now : Instant) (response : Response)
    (metrics : Metrics) :
    ∃ finished, request.finish now response (some metrics) = some finished ∧
      finished.httpActive = add metrics.httpActive (-1) request.attributes := by
  unfold Request.finish
  by_cases hlimited : response.rateLimitRejection = true
  · exact ⟨_, by rw [if_pos hlimited]; rfl, rfl⟩
  · exact ⟨_, by rw [if_neg hlimited]; rfl, rfl⟩

/-- Every unreturned request is counted once. -/
def Server.Counted (s : Server) : Prop :=
  ∃ metrics, s.telemetry = some metrics ∧
    ∀ attributes, metrics.httpActive attributes =
      s.requests.countP (Request.unreturned attributes)

/-- The step lemma of `Counted`. -/
theorem steps_counted (h : Steps requestTimeout s input s') (hs : s.Counted) : s'.Counted := by
  obtain ⟨metrics, hmetrics, hcount⟩ := hs
  cases h with
  -- A request is counted from its arrival to the end of its `call`; a request that is dropped is
  -- never taken off again.
  | request now method matched =>
    rw [hmetrics]
    refine ⟨_, rfl, fun attributes => ?_⟩
    rw [List.countP_append, List.countP_singleton]
    by_cases hattributes : attributes = ⟨method, matched.getD "unmatched"⟩
    · simp [add, hattributes, Request.unreturned, hcount]
    · simp [add, hattributes, Ne.symm hattributes, Request.unreturned, hcount]
  | pending now i request h hrunning =>
    refine ⟨metrics, hmetrics, fun attributes => ?_⟩
    simp [Server.moved, hcount, ← countP_unreturned_set h hrunning .running attributes]
  | returned now i request response h hrunning =>
    obtain ⟨finished, hfinished, hactive⟩ := finish_some request now response metrics
    refine ⟨finished, by rw [← hfinished, ← hmetrics]; rfl, fun attributes => ?_⟩
    have hset := countP_unreturned_set h hrunning .returned attributes
    simp only [true_and] at hset
    show finished.httpActive attributes = ((s.requests.set i { request with stage := .returned
      }).countP (Request.unreturned attributes) : Int)
    rw [hactive]
    by_cases hattributes : request.attributes = attributes
    · subst hattributes
      rw [if_pos rfl] at hset
      rw [add, Function.update_self, hcount]
      omega
    · rw [if_neg hattributes] at hset
      rw [add, Function.update_of_ne (Ne.symm hattributes), hcount]
      omega
  | timedOut now i request h hrunning hdeadline =>
    refine ⟨metrics, hmetrics, fun attributes => ?_⟩
    simp [Server.moved, hcount, ← countP_unreturned_set h hrunning .timedOut attributes]
  | disconnected now i request h hrunning =>
    refine ⟨metrics, hmetrics, fun attributes => ?_⟩
    simp [Server.moved, hcount, ← countP_unreturned_set h hrunning .disconnected attributes]

/-- **The run lemma.** -/
theorem reachable_counted (h : (server requestTimeout start).Reachable s) : s.Counted := by
  refine Machine.Reachable.invariant ?_ ?_ h
  · exact ⟨.zero, rfl, fun attributes => rfl⟩
  · intro s input s' _ hs hstep
    exact steps_counted (step_steps hstep) hs

/-! ## When the gauge balances

It shows the requests in progress as long as no request was dropped, and from the first one that was
it shows too many, for good. -/

/-- The net value that was added to the gauge. -/
def Server.gauge (s : Server) (attributes : Attributes) : Int :=
  match s.telemetry with
  | some metrics => metrics.httpActive attributes
  | none => 0

/-- The gauge shows the requests in progress, and nothing when there are none. -/
structure Server.Balanced (s : Server) : Prop where
  counts : ∀ attributes, s.gauge attributes = s.requests.countP (Request.inProgress attributes)
  idle : (∀ request ∈ s.requests, request.stage ≠ .running) → ∀ attributes, s.gauge attributes = 0

/-- The gauge counts the dropped requests, too. -/
theorem gauge_eq (h : (server requestTimeout start).Reachable s) (attributes : Attributes) :
    s.gauge attributes = s.requests.countP (Request.inProgress attributes) +
      s.requests.countP (Request.wasDropped attributes) := by
  obtain ⟨metrics, hmetrics, hcount⟩ := reachable_counted h
  unfold Server.gauge
  rw [hmetrics]
  show metrics.httpActive attributes = _
  rw [hcount, countP_unreturned]
  omega

/-- **A state is balanced exactly if no request was dropped.** -/
theorem balanced_iff (h : (server requestTimeout start).Reachable s) :
    s.Balanced ↔ s.requests.countP (·.stage.isDropped) = 0 := by
  constructor
  · intro hbalanced
    refine List.countP_eq_zero.mpr fun request hrequest hdropped => ?_
    have hgauge := gauge_eq h request.attributes
    rw [hbalanced.counts] at hgauge
    have hpos : 0 < s.requests.countP (Request.wasDropped request.attributes) :=
      List.countP_pos_iff.mpr ⟨request, hrequest, by simp [Request.wasDropped, hdropped]⟩
    omega
  · intro hnone
    have hcounts : ∀ attributes,
        s.gauge attributes = s.requests.countP (Request.inProgress attributes) := by
      intro attributes
      have hzero : s.requests.countP (Request.wasDropped attributes) = 0 := by
        refine List.countP_eq_zero.mpr fun request hrequest hdropped => ?_
        simp only [Request.wasDropped, decide_eq_true_eq] at hdropped
        exact List.countP_eq_zero.mp hnone request hrequest hdropped.1
      rw [gauge_eq h, hzero]
      omega
    refine ⟨hcounts, fun hidle attributes => ?_⟩
    have hzero : s.requests.countP (Request.inProgress attributes) = 0 := by
      refine List.countP_eq_zero.mpr fun request hrequest hprogress => ?_
      simp only [Request.inProgress, decide_eq_true_eq] at hprogress
      exact hidle request hrequest hprogress.1
    rw [hcounts, hzero]
    rfl

/-- The `TimeoutLayer` or the connection drops a request inside `record_http_metrics`. -/
def Event.drops : Event → Bool
  | timeout _ => true
  | disconnect _ => true
  | _ => false

/-- A request that is dropped is one more. -/
theorem countP_isDropped_set {requests : List Request} (h : requests[i]? = some request)
    (hrunning : request.stage = .running) (stage : Stage) :
    (requests.set i { request with stage := stage }).countP (·.stage.isDropped) =
      requests.countP (·.stage.isDropped) + if stage.isDropped then 1 else 0 := by
  have hset := Indexed.countP_set (a := { request with stage := stage })
    (fun request => request.stage.isDropped) h
  simpa [hrunning, Stage.isDropped] using hset

/-- A step drops one request, or none. -/
theorem steps_dropped (h : Steps requestTimeout s input s') :
    s'.requests.countP (·.stage.isDropped) =
      s.requests.countP (·.stage.isDropped) + if input.event.drops then 1 else 0 := by
  cases h with
  | request now method matched => simp [Event.drops, Stage.isDropped]
  | pending now i request h hrunning => exact countP_isDropped_set h hrunning .running
  | returned now i request response h hrunning => exact countP_isDropped_set h hrunning .returned
  | timedOut now i request h hrunning hdeadline => exact countP_isDropped_set h hrunning .timedOut
  | disconnected now i request h hrunning => exact countP_isDropped_set h hrunning .disconnected

/-- A run has dropped as many requests as its inputs drop. -/
theorem run_dropped {inputs : List HttpInput}
    (h : (server requestTimeout start).run inputs = some s) :
    s.requests.countP (·.stage.isDropped) = inputs.countP (·.event.drops) := by
  induction inputs generalizing s with
  | nil =>
    cases h
    rfl
  | cons input older ih =>
    obtain ⟨r, hr, hstep⟩ := Machine.run_cons.mp h
    rw [steps_dropped (step_steps hstep), ih hr, List.countP_cons]

/-- **When the gauge balances.** In a run of any number of requests every state is balanced exactly
if no request is dropped while `record_http_metrics` awaits its response. -/
theorem gauge_balances_iff {inputs : List HttpInput}
    (h : (server requestTimeout start).run inputs = some s) :
    (∀ older r, older <:+ inputs → (server requestTimeout start).run older = some r →
      r.Balanced) ↔ ∀ input ∈ inputs, input.event.drops = false := by
  constructor
  · intro hbalanced input hinput
    have hnone := (balanced_iff ⟨inputs, h⟩).mp (hbalanced inputs s (List.suffix_refl _) h)
    rw [run_dropped h, List.countP_eq_zero] at hnone
    exact Bool.eq_false_iff.mpr (hnone input hinput)
  · intro hnone older r holder hr
    refine (balanced_iff ⟨older, hr⟩).mpr ?_
    rw [run_dropped hr, List.countP_eq_zero]
    intro input hinput hdrops
    rw [hnone input (holder.subset hinput)] at hdrops
    cases hdrops

theorem gauge_balances_iff_returned :
    ∃ s, (server 10 0).run [⟨3, .poll 0 (some ⟨200, false⟩)⟩,
        ⟨0, .request "GET" (some "/api/v1/users")⟩] = some s ∧ s.Balanced := by
  have hrun : (server 10 0).run [⟨3, .poll 0 (some ⟨200, false⟩)⟩,
      ⟨0, .request "GET" (some "/api/v1/users")⟩] = some _ := rfl
  have hbalanced := (gauge_balances_iff hrun).mpr (by simp [Event.drops])
  exact ⟨_, hrun, hbalanced _ _ (List.suffix_refl _) hrun⟩

/-- A request that is cut off at its deadline, and one whose client goes away. -/
theorem dropped_requests_counted :
    ∃ s, (server 10 0).run
        [⟨12, .disconnect 1⟩, ⟨10, .timeout 0⟩, ⟨1, .request "PUT" (some "/api/v1/users/{id}")⟩,
          ⟨0, .request "GET" (some "/api/v1/users")⟩] = some s ∧
      (∀ request ∈ s.requests, request.stage ≠ .running) ∧
      s.gauge ⟨"GET", "/api/v1/users"⟩ = 1 ∧ s.gauge ⟨"PUT", "/api/v1/users/{id}"⟩ = 1 :=
  ⟨_, rfl, by decide, by decide, by decide⟩

end BaseSkeleton.Http
