import Afkak.Client.BootstrapProtocol
import Afkak.Client.Metadata
import Afkak.Responses

/-!
# Bootstrapping (`_send_bootstrap_request`) and the end of `load_metadata_for_topics`

The hosts of the configuration are tried one after the other, on a connection each, until one of them answers. The
loop catches whatever goes wrong on the way to a host, a cancellation too: `cancel` ends the attempt under way, and the
call goes on to the next host.
-/

open Lib

namespace Afkak.Client

/-- What the generator waits for. -/
inductive Attempt
  /-- `ep.connect` -/
  | connecting
  /-- The first request of the connection. -/
  | requesting (protocol : KafkaBootstrapProtocol)
  | ended (result : Except Exc Bytes)

def Attempt.connections : Attempt → Nat
  | .requesting _ => 1
  | .connecting | .ended _ => 0

structure Bootstrap where
  /-- The hosts that are still to come. -/
  hosts : List (String × Int)
  tried : List (String × Int) := []
  attempt : Attempt := .connecting
  connections : Nat := 0
  /-- The calls of `loseConnection` in the `finally` clause. -/
  dropped : Nat := 0

namespace Bootstrap

def nextHost (s : Bootstrap) : Bootstrap :=
  match s.hosts with
  | [] => { s with attempt := .ended (.error .kafkaUnavailable) }
  | host :: hosts => { s with hosts, tried := s.tried ++ [host], attempt := .connecting }

/-- `hostports` are the hosts as they were shuffled. -/
def sendBootstrapRequest (hostports : List (String × Int)) : Bootstrap := nextHost { hosts := hostports }

/-- The generator goes on once the `Deferred` of its request has fired. -/
def resume (s : Bootstrap) (p : KafkaBootstrapProtocol) : Bootstrap :=
  match p.fired.lookup 0 with
  | none => { s with attempt := .requesting p }
  | some (.ok response) => { s with attempt := .ended (.ok response), dropped := s.dropped + 1 }
  | some (.error _) => nextHost { s with dropped := s.dropped + 1 }

def connected (s : Bootstrap) (request : Bytes) : Bootstrap :=
  let s := { s with connections := s.connections + 1 }
  match KafkaBootstrapProtocol.request {} request with
  | (p, .ok _) => s.resume p
  | (_, .error _) => nextHost { s with dropped := s.dropped + 1 }

inductive Progress
  | connected
  | connectFailed
  | stringReceived (response : Bytes)
  | connectionLost (reason : Exc)
  | lengthLimitExceeded
  /-- `addTimeout` cancels the request. -/
  | timeout
  /-- The caller cancels. -/
  | cancel
deriving DecidableEq

/-- `connectionLost` has one `Deferred` to fail at most. -/
def step (request : Bytes) (s : Bootstrap) (e : Progress) : Option Bootstrap :=
  match s.attempt, e with
  | .connecting, .connected => some (s.connected request)
  | .connecting, .connectFailed | .connecting, .cancel => some s.nextHost
  | .requesting p, .stringReceived response => some (s.resume (p.stringReceived response))
  | .requesting p, .connectionLost reason => (p.connectionLost reason).errback.map s.resume
  | .requesting p, .lengthLimitExceeded => some (s.resume p.lengthLimitExceeded)
  | .requesting p, .timeout | .requesting p, .cancel => some (s.resume (p.cancel 0))
  | .ended _, .cancel => some s
  | _, _ => none

end Bootstrap

def handleMetadataResponse (s : State) (fetchAllMetadata : Bool) (response : Bytes) :
    State × Except Exc (Option Bool) :=
  match (KafkaCodec.decodeMetadataResponse response 0).2 with
  | .error e => (s, .error e)
  | .ok (metadata, _) =>
    match mergeTopicMetadata s metadata fetchAllMetadata with
    | (s, none) => (s, .ok (some true))
    | (s, some e) => (s, .error e)

def handleMetadataErr : Exc → Except Exc (Option Bool)
  | .tidCancelled | .cancelled _ => .ok none
  | _ => .error .kafkaUnavailable

/-- What `load_metadata_for_topics` makes of the end of its request. -/
def finishLoad (s : State) (fetchAllMetadata : Bool) : Except Exc Bytes → State × Except Exc (Option Bool)
  | .ok response => handleMetadataResponse s fetchAllMetadata response
  | .error e => (s, handleMetadataErr e)

namespace Bootstrap

open KafkaBootstrapProtocol (correlationId)

variable {request : Bytes} {p : KafkaBootstrapProtocol} {s t : Bootstrap} {hostports : List (String × Int)}

/-! ## The request of a connection -/

/-- The connection has had the one request. -/
structure Used (request : Bytes) (p : KafkaBootstrapProtocol) : Prop where
  sound : p.Sound
  requests : p.requests = [request]
  told : p.Fired 0 ∨ p.failed = none

theorem used_request {d : Nat} (h : (KafkaBootstrapProtocol.request {} request).2 = .ok d) :
    Used request (KafkaBootstrapProtocol.request {} request).1 := by
  refine ⟨KafkaBootstrapProtocol.sound_init.request request, ?_, .inr ?_⟩
  all_goals
    unfold KafkaBootstrapProtocol.request at h ⊢
    split_ifs at h ⊢
    rfl

theorem Used.stringReceived (h : Used request p) (hopen : p.failed = none) (response : Bytes) :
    Used request (p.stringReceived response) := by
  refine ⟨h.sound.stringReceived response, ?_, .inr ?_⟩
  all_goals
    unfold KafkaBootstrapProtocol.stringReceived
    split
  · exact h.requests
  · rw [KafkaBootstrapProtocol.requests_call]
    exact h.requests
  · exact hopen
  · rw [KafkaBootstrapProtocol.failed_call]
    exact hopen

theorem Used.cancel (h : Used request p) (hopen : p.failed = none) : Used request (p.cancel 0) := by
  refine ⟨h.sound.cancel (by simp [h.requests]), ?_, .inr ?_⟩
  · rw [KafkaBootstrapProtocol.requests_cancel]
    exact h.requests
  · rw [KafkaBootstrapProtocol.failed_cancel]
    exact hopen

/-- The loop of `connectionLost` has the one round. -/
theorem Used.lost (h : Used request p) (hopen : p.failed = none) (hno : ¬ p.Fired 0) (reason : Exc) :
    ∃ q, (p.connectionLost reason).errback = some q ∧ Used request q := by
  have hlt : 0 < p.requests.length := by simp [h.requests]
  have hmem : 0 ∈ p.pending.values := by
    rcases h.sound.kept.rest 0 hlt hno with hd | hd
    · exact hd
    · simp [h.sound.whole hopen] at hd
  have hlost := h.sound.connectionLost hopen reason
  cases hvalues : p.pending.values with
  | nil => simp [hvalues] at hmem
  | cons d rest =>
    have hzero (d : Nat) (hd : d ∈ p.pending.values) : d = 0 := by
      have hlt' := (h.sound.kept.called d (.inl hd)).1
      simpa [h.requests] using hlt'
    obtain rfl := hzero d (by simp [hvalues])
    have hfailing : (p.connectionLost reason).failing = 0 :: rest := hvalues
    refine ⟨_, by rw [KafkaBootstrapProtocol.errback, hfailing]; rfl, hlost.callNext rfl hfailing, ?_, .inl ?_⟩
    · rw [KafkaBootstrapProtocol.requests_call]
      exact h.requests
    · refine KafkaBootstrapProtocol.fired_call ?_ 0 _
      exact h.sound.kept.suppressed.2

/-! ## The loop -/

/-- The hosts have their turns in order, and every connection is dropped in the end. The response has the id of the
request; a failure comes when no host is left. -/
structure Sound (hostports : List (String × Int)) (request : Bytes) (s : Bootstrap) : Prop where
  order : s.tried ++ s.hosts = hostports
  connections : s.connections = s.dropped + s.attempt.connections
  waits : ∀ p, s.attempt = .requesting p → Used request p ∧ p.failed = none ∧ ¬ p.Fired 0
  answer : ∀ response, s.attempt = .ended (.ok response) → response.take 4 = correlationId request
  failure : ∀ e, s.attempt = .ended (.error e) → e = .kafkaUnavailable ∧ s.hosts = []

theorem sound_nextHost (horder : s.tried ++ s.hosts = hostports) (hdropped : s.connections = s.dropped) :
    Sound hostports request s.nextHost := by
  unfold nextHost
  split
  · next hnil => exact ⟨horder, hdropped, by simp, by simp, fun e he => ⟨by simpa using he.symm, hnil⟩⟩
  · next host hosts hhosts =>
    refine ⟨?_, hdropped, by simp, by simp, by simp⟩
    rw [List.append_assoc, List.singleton_append, ← hhosts]
    exact horder

theorem sound_resume (horder : s.tried ++ s.hosts = hostports) (hopen : s.connections = s.dropped + 1)
    (hp : Used request p) : Sound hostports request (s.resume p) := by
  unfold resume
  split
  · next hnone =>
    have hno : ¬ p.Fired 0 := by
      rintro hfired
      obtain ⟨⟨d, r⟩, hmem, rfl⟩ := List.mem_map.mp hfired
      simpa using List.lookup_eq_none_iff.mp hnone _ hmem
    refine ⟨horder, hopen, fun q hq => ?_, by simp, by simp⟩
    obtain rfl : p = q := by simpa using hq
    exact ⟨hp, hp.told.resolve_left hno, hno⟩
  · next response hsome =>
    refine ⟨horder, hopen, by simp, fun r hr => ?_, by simp⟩
    obtain rfl : response = r := by simpa using hr
    have hproper := hp.sound.kept.proper 0 _ (Dict.mem_of_lookup _ _ _ hsome)
    simpa [KafkaBootstrapProtocol.Proper, hp.requests, eq_comm] using hproper
  · exact sound_nextHost horder hopen

theorem sound_start (hostports : List (String × Int)) (request : Bytes) :
    Sound hostports request (sendBootstrapRequest hostports) := sound_nextHost rfl rfl

theorem Sound.step (h : Sound hostports request s) {e : Progress} (hstep : step request s e = some t) :
    Sound hostports request t := by
  cases hattempt : s.attempt with
  | connecting =>
    have hconnections : s.connections = s.dropped := by simpa [hattempt, Attempt.connections] using h.connections
    cases e <;> simp only [Bootstrap.step, hattempt, reduceCtorEq, Option.some.injEq] at hstep
    case connected =>
      subst hstep
      unfold connected
      dsimp only
      split
      · next p d hp =>
        obtain rfl : (KafkaBootstrapProtocol.request {} request).1 = p := by rw [hp]
        exact sound_resume h.order (congrArg (· + 1) hconnections) (used_request (by rw [hp]))
      · exact sound_nextHost h.order (congrArg (· + 1) hconnections)
    case connectFailed | cancel => exact hstep ▸ sound_nextHost h.order hconnections
  | requesting p =>
    have hconnections : s.connections = s.dropped + 1 := by simpa [hattempt, Attempt.connections] using h.connections
    obtain ⟨hp, hopen, hno⟩ := h.waits p hattempt
    cases e <;> simp only [Bootstrap.step, hattempt, reduceCtorEq, Option.some.injEq] at hstep
    case stringReceived response => exact hstep ▸ sound_resume h.order hconnections (hp.stringReceived hopen response)
    case connectionLost reason =>
      obtain ⟨q, hq, hused⟩ := hp.lost hopen hno reason
      rw [hq, Option.map_some, Option.some.injEq] at hstep
      exact hstep ▸ sound_resume h.order hconnections hused
    case lengthLimitExceeded => 
      exact hstep ▸ sound_resume h.order hconnections ⟨hp.sound.drop, hp.requests, .inr hopen⟩
    case timeout | cancel => exact hstep ▸ sound_resume h.order hconnections (hp.cancel hopen)
  | ended r =>
    cases e <;> simp only [Bootstrap.step, hattempt, reduceCtorEq, Option.some.injEq] at hstep
    exact hstep ▸ h

theorem bootstrap_sound (es : List Progress)
    (hrun : Machine.run (Bootstrap.step request) (sendBootstrapRequest hostports) es = some s) :
    Sound hostports request s :=
  Machine.run_invariant_all (Bootstrap.step request) (Sound hostports request) (fun _ _ _ h hstep => h.step hstep) es _
    s (sound_start hostports request) hrun

/-! ## Cancelling -/

theorem lookup_cancel (hno : ¬ p.Fired 0) : (p.cancel 0).fired.lookup 0 = some (.error .tidCancelled) := by
  have hnone : p.fired.lookup 0 = none := by
    rw [List.lookup_eq_none_iff]
    rintro ⟨d, r⟩ hmem
    have hne : d ≠ 0 := fun heq => hno (heq ▸ List.mem_map_of_mem hmem)
    simpa using hne.symm
  rw [KafkaBootstrapProtocol.cancel, if_neg hno, List.lookup_append, hnone]
  rfl

theorem Sound.cancel (h : Sound hostports request s) (hwaits : ∀ r, s.attempt ≠ .ended r) :
    Bootstrap.step request s .cancel = some (nextHost { s with dropped := s.dropped + s.attempt.connections }) := by
  cases hattempt : s.attempt with
  | connecting =>
    simp only [Bootstrap.step, hattempt]
    rfl
  | requesting p =>
    simp only [Bootstrap.step, hattempt, resume, lookup_cancel (h.waits p hattempt).2.2]
    rfl
  | ended r => exact absurd hattempt (hwaits r)

/-- A call that is cancelled takes this for a failure of the host, and goes on while there are others; so the
`Deferred` that was cancelled need not fire, and may bring a response yet. -/
theorem cancelled_goes_on (es : List Progress)
    (hrun : Machine.run (Bootstrap.step request) (sendBootstrapRequest hostports) es = some s)
    (hwaits : ∀ r, s.attempt ≠ .ended r) :
    ∃ t, Bootstrap.step request s .cancel = some t ∧
      (s.hosts = [] → t.attempt = .ended (.error .kafkaUnavailable)) ∧
      ∀ host hosts, s.hosts = host :: hosts →
        t.attempt = .connecting ∧ t.tried = s.tried ++ [host] ∧ t.hosts = hosts := by
  refine ⟨_, (bootstrap_sound es hrun).cancel hwaits, fun hnil => ?_, fun host hosts hhosts => ?_⟩
  · simp [nextHost, hnil]
  · simp [nextHost, hhosts]

/-- `load_metadata_for_topics` fires with `None` when the request to a broker is cancelled, but not from here. -/
theorem bootstrapped_load (es : List Progress)
    (hrun : Machine.run (Bootstrap.step request) (sendBootstrapRequest hostports) es = some s)
    {result : Except Exc Bytes} (hended : s.attempt = .ended result) (client : State) (fetchAllMetadata : Bool) :
    (finishLoad client fetchAllMetadata result).2 ≠ .ok none := by
  cases result with
  | error e =>
    obtain ⟨rfl, -⟩ := (bootstrap_sound es hrun).failure e hended
    simp [finishLoad, handleMetadataErr]
  | ok response =>
    unfold finishLoad handleMetadataResponse
    dsimp only
    split
    · simp
    · split <;> simp

/-- The first host is given up, as the caller cancels; the second one answers. -/
def cancelledOnce : List Progress := [.cancel, .connected, .stringReceived [0, 0, 0, 7, 1]]

example : (Machine.run (Bootstrap.step [0, 3, 0, 0, 0, 0, 0, 7]) (sendBootstrapRequest [("a", 9092), ("b", 9092)])
    cancelledOnce).map (fun s => (s.tried, s.connections, s.dropped)) = some ([("a", 9092), ("b", 9092)], 1, 1) := by
  decide

end Bootstrap

end Afkak.Client
