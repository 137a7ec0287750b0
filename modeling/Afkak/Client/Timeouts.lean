import Afkak.Client.Ids
import Afkak.Client.Lookup

/-!
# Requests of the client and their timeouts (`_make_request_to_broker`, `_next_id`)

Every request of the client goes to one of its broker clients, under an id of the client's, and with a delayed call
that ends it when it takes too long. The `Deferred` that the caller gets is the broker client's own, with `_mrtb_cb`
as its first callback.

An id is drawn before the request that bears it, and a request that any broker can answer goes to one broker after
the other under the same id, but to none of them twice.
-/

open Lib

namespace Afkak.Client

open BrokerClient (RequestState Outcome Fired Outstanding UniqueIds queuedBy getResponseCorrelationId)

structure Call where
  broker : Nat
  d : Nat
  number : Nat
  deadline : Nat
  /-- `dc.active()` -/
  timer : Bool := true
  /-- `failure` is not `None`. -/
  failure : Bool := false
  /-- What `_mrtb_cb` gives on. -/
  result : Option Outcome := none
deriving DecidableEq

structure Requests where
  seconds : Nat := 0
  correlationId : Int
  ids : List Int := []
  brokers : List BrokerClient.State := []
  calls : List Call := []
  disconnecting : List Nat := []

/-- `timeout`, and `disconnect_on_timeout`. -/
structure TimeoutConfig where
  timeout : Nat
  disconnectOnTimeout : Bool

namespace Requests

def finish (brokers : List BrokerClient.State) (c : Call) : Call :=
  match c.result, (brokers[c.broker]?).bind fun b => b.calls.lookup c.d with
  | none, some out =>
    { c with timer := false, result := some (if c.failure then .failed .requestTimedOut else out) }
  | _, _ => c

def settle (s : Requests) : Requests := { s with calls := s.calls.map (finish s.brokers) }

def setBroker (s : Requests) (i : Nat) (b : BrokerClient.State) : Requests :=
  settle { s with brokers := s.brokers.set i b }

variable (cfg : TimeoutConfig)

def makeRequestToBroker (s : Requests) (i : Nat) (b : BrokerClient.State) (number : Nat) (correlationId : Int)
    (request : Bytes) (expectResponse : Bool) (minTimeout : Option Nat) (sendFails : Option Exc) : Requests :=
  if (b.requests.get? correlationId).isSome then s  -- `DuplicateRequestError`
  else
    let timeout := match minTimeout with
      | none => cfg.timeout
      | some least => max cfg.timeout least
    let call : Call := { broker := i, d := b.nextD, number, deadline := s.seconds + timeout }
    let s := { s with calls := s.calls ++ [call] }
    s.setBroker i (BrokerClient.makeRequest b correlationId request expectResponse sendFails)

/-- `_mrtb_timeout`, up to the disconnection: the callbacks of the `Deferred` come before that. -/
def timeOut (s : Requests) (k : Nat) (c : Call) (b : BrokerClient.State) : Requests :=
  let s := { s with
    calls := s.calls.set k { c with timer := false, failure := true }
    disconnecting := if cfg.disconnectOnTimeout then [c.broker] else [] }
  s.setBroker c.broker (BrokerClient.cancel b c.d)

def Idle (s : Requests) : Prop := s.disconnecting = [] ∧ ∀ b ∈ s.brokers, b.stack = []

instance (s : Requests) : Decidable s.Idle := inferInstanceAs (Decidable (_ ∧ _))

inductive Event
  | advance (n : Nat)
  | create
  | draw
  | request (i number : Nat) (request : Bytes) (expectResponse : Bool) (minTimeout : Option Nat)
    (sendFails : Option Exc)
  | broker (i : Nat) (e : BrokerClient.Event)
  | timeout (k : Nat)
  | disconnect
deriving DecidableEq

/-- The requests and the clock are the client's, and the reactor waits for its turn. -/
def Allowed (s : Requests) : BrokerClient.Event → Prop
  | .advance _ | .makeRequest _ _ _ _ => False
  | .connectionMade _ | .connectFailed _ | .delayElapsed _ | .connectionLost _ | .stringReceived _ _ => s.Idle
  | .cancel _ | .disconnect | .close _ | .resume _ => True

instance (s : Requests) : (e : BrokerClient.Event) → Decidable (s.Allowed e)
  | .advance _ | .makeRequest _ _ _ _ => .isFalse id
  | .connectionMade _ | .connectFailed _ | .delayElapsed _ | .connectionLost _ | .stringReceived _ _ =>
    inferInstanceAs (Decidable s.Idle)
  | .cancel _ | .disconnect | .close _ | .resume _ => .isTrue trivial

def Unused (s : Requests) (i number : Nat) : Prop := ∀ c ∈ s.calls, ¬ (c.broker = i ∧ c.number = number)

instance (s : Requests) (i number : Nat) : Decidable (s.Unused i number) := inferInstanceAs (Decidable (∀ _ ∈ _, _))

def step (s : Requests) : Event → Option Requests
  | .advance n =>
    if s.Idle then
      some { s with seconds := s.seconds + n, brokers := s.brokers.map fun b => { b with seconds := b.seconds + n } }
    else none
  | .create => some { s with brokers := s.brokers ++ [{ BrokerClient.init with seconds := s.seconds }] }
  | .draw =>
    let id := nextId s.correlationId
    some { s with correlationId := id, ids := s.ids ++ [id] }
  | .request i number request expectResponse minTimeout sendFails =>
    match s.brokers[i]?, s.ids[number]? with
    | some b, some id =>
      if s.Unused i number then
        some (makeRequestToBroker cfg s i b number id request expectResponse minTimeout sendFails)
      else none
    | _, _ => none
  | .broker i e =>
    match s.brokers[i]? with
    | some b => if s.Allowed e then (BrokerClient.step b e).map (s.setBroker i) else none
    | none => none
  | .timeout k =>
    match s.calls[k]? with
    | some c =>
      match s.brokers[c.broker]? with
      | some b => if s.Idle ∧ c.timer ∧ c.deadline ≤ s.seconds then some (timeOut cfg s k c b) else none
      | none => none
    | none => none
  | .disconnect =>
    match s.disconnecting with
    | [] => none
    | i :: rest =>
      match s.brokers[i]? with
      | some b => some (setBroker { s with disconnecting := rest } i (BrokerClient.disconnect b))
      | none => none

def init (correlationId : Int) : Requests := { correlationId }

/-! ## Ids -/

/-- The ids are the numbers from `start` on, modulo 2 ^ 31. -/
structure Numbered (start : Int) (s : Requests) : Prop where
  next : nextId s.correlationId = (start + s.ids.length + 1) % 2 ^ 31
  drawn : ∀ (n : Nat) (id : Int), s.ids[n]? = some id → id = (start + n + 1) % 2 ^ 31

theorem numbered_init (start : Int) : Numbered start (init start) := ⟨by simp [init, nextId], by simp [init]⟩

theorem Numbered.draw {start : Int} {s : Requests} (h : Numbered start s) :
    Numbered start { s with correlationId := nextId s.correlationId, ids := s.ids ++ [nextId s.correlationId] } := by
  obtain ⟨hnext, hdrawn⟩ := h
  refine ⟨?_, fun n id hid => ?_⟩
  · show nextId (nextId s.correlationId) = _
    rw [hnext]
    simp only [nextId, List.length_append, List.length_singleton]
    omega
  · rw [List.getElem?_append] at hid
    split at hid
    · exact hdrawn n id hid
    · obtain ⟨hn, rfl⟩ : n - s.ids.length = 0 ∧ nextId s.correlationId = id := by
        simpa [List.getElem?_singleton] using hid
      rw [hnext]
      congr 2
      omega

theorem Numbered.inj {start : Int} {s : Requests} (h : Numbered start s) {n m : Nat} {id : Int}
    (hn : s.ids[n]? = some id) (hm : s.ids[m]? = some id) (hnm : n < m + 2 ^ 31) (hmn : m < n + 2 ^ 31) : n = m := by
  have hid := h.drawn n id hn
  rw [h.drawn m id hm] at hid
  omega

/-! ## The invariant -/

structure Tracks (c : Call) (b : BrokerClient.State) : Prop where
  ended : c.result = none ↔ ¬ Fired b c.d
  timer : c.timer = c.result.isNone
  failure : c.failure = true → c.result = some (.failed .requestTimedOut)
  told : ∀ out, c.result = some out → c.failure = false → (c.d, out) ∈ b.calls

section Finish

variable {brokers : List BrokerClient.State} {c : Call} {b : BrokerClient.State}

@[simp] theorem finish_broker (brokers : List BrokerClient.State) (c : Call) :
    (finish brokers c).broker = c.broker := by
  unfold finish
  split <;> rfl

@[simp] theorem finish_d (brokers : List BrokerClient.State) (c : Call) : (finish brokers c).d = c.d := by
  unfold finish
  split <;> rfl

@[simp] theorem finish_number (brokers : List BrokerClient.State) (c : Call) :
    (finish brokers c).number = c.number := by
  unfold finish
  split <;> rfl

theorem finish_ended (h : c.result ≠ none) : finish brokers c = c := by
  unfold finish
  split
  · next hr _ => exact absurd hr h
  · rfl

theorem lookup_calls (hb : BrokerClient.Inv b) {d : Nat} {out : Outcome} (h : (d, out) ∈ b.calls) :
    b.calls.lookup d = some out := Dict.lookup_of_mem d out _ hb.once h

theorem finish_fired (hget : brokers[c.broker]? = some b) (hb : BrokerClient.Inv b) (hr : c.result = none)
    {out : Outcome} (hout : (c.d, out) ∈ b.calls) : finish brokers c =
      { c with timer := false, result := some (if c.failure then .failed .requestTimedOut else out) } := by
  unfold finish
  rw [hr, hget, Option.bind_some, lookup_calls hb hout]

theorem finish_waiting (hget : brokers[c.broker]? = some b) (hd : ¬ Fired b c.d) : finish brokers c = c := by
  have hnone : b.calls.lookup c.d = none := by
    rw [List.lookup_eq_none_iff]
    intro p hp
    have : p.1 ≠ c.d := fun heq => hd (heq ▸ List.mem_map_of_mem hp)
    simpa using this.symm
  unfold finish
  rw [hget, Option.bind_some, hnone]
  cases c.result <;> rfl

theorem Tracks.finish {b' : BrokerClient.State} (h : Tracks c b) (hget : brokers[c.broker]? = some b')
    (hb' : BrokerClient.Inv b') (hcalls : ∀ x ∈ b.calls, x ∈ b'.calls) :
    Tracks (Requests.finish brokers c) b' := by
  have hmono : Fired b c.d → Fired b' c.d := by
    intro hf
    obtain ⟨x, hx, heq⟩ := List.mem_map.mp hf
    exact List.mem_map.mpr ⟨x, hcalls x hx, heq⟩
  cases hr : c.result with
  | some out =>
    rw [finish_ended (by simp [hr])]
    have hf : Fired b c.d := by
      by_contra hno
      simp [h.ended.mpr hno] at hr
    exact ⟨by simp [hr, hmono hf], h.timer, h.failure, fun out ho hno => hcalls _ (h.told out ho hno)⟩
  | none =>
    have hfailure : c.failure = false := by
      by_contra hno
      simp [h.failure (by simpa using hno)] at hr
    by_cases hf : Fired b' c.d
    · obtain ⟨⟨d, out⟩, hx, heq⟩ := List.mem_map.mp hf
      have hx : (c.d, out) ∈ b'.calls := by rwa [show d = c.d from heq] at hx
      rw [finish_fired hget hb' hr hx, hfailure]
      refine ⟨by simp [hf], by simp, by simp, fun out' ho _ => ?_⟩
      obtain rfl : out = out' := by simpa using ho
      exact hx
    · rw [finish_waiting hget hf]
      exact ⟨by simp [hr, hf], h.timer, h.failure, by simp [hr]⟩

end Finish

def Bears (s : Requests) (i d : Nat) (correlationId : Int) : Prop :=
  ∃ c ∈ s.calls, c.broker = i ∧ c.d = d ∧ s.ids[c.number]? = some correlationId

structure Inv (start : Int) (s : Requests) : Prop where
  numbered : Numbered start s
  brokers : ∀ b ∈ s.brokers, BrokerClient.Inv b
  known : ∀ c ∈ s.calls, ∃ b, s.brokers[c.broker]? = some b ∧ c.d < b.nextD
  distinct : (s.calls.map fun c => (c.broker, c.d)).Nodup
  tracks : ∀ c ∈ s.calls, ∀ b, s.brokers[c.broker]? = some b → Tracks c b
  owned : ∀ (i : Nat) (b : BrokerClient.State), s.brokers[i]? = some b → ∀ o r, b.heap.get? o = some r →
    s.Bears i o r.correlationId
  answers : ∀ (i : Nat) (b : BrokerClient.State), s.brokers[i]? = some b → ∀ d response,
    (d, .success (some response)) ∈ b.calls →
      ∃ cid, getResponseCorrelationId response = .ok cid ∧ s.Bears i d cid

/-- The request is in the table of its broker client, or still to be flushed. -/
def Held (s : Requests) (c : Call) : Prop :=
  match s.brokers[c.broker]? with
  | some b => c.d ∈ b.requests.values ∨ c.d ∈ queuedBy b.stack
  | none => False

instance (s : Requests) (c : Call) : Decidable (s.Held c) := by
  unfold Held
  split <;> infer_instance

/-- The ids that the broker client still knows were drawn less than 2 ^ 31 draws apart from the new one. -/
def Recent (s : Requests) : Event → Prop
  | .request i number _ _ _ _ =>
    ∀ c ∈ s.calls, c.broker = i → s.Held c → number < c.number + 2 ^ 31 ∧ c.number < number + 2 ^ 31
  | _ => True

instance (s : Requests) (e : Event) : Decidable (s.Recent e) := by
  cases e <;> unfold Recent <;> infer_instance

end Requests

end Afkak.Client
