import Afkak.Util
import Afkak.Lib.Dict
import Afkak.Lib.Machine

/-!
# The client of one broker (`_KafkaBrokerClient` of `brokerclient.py`)

A state and what can happen to it. The callbacks of a `Deferred` run while the code that fired it
is still in a loop, and they may call the client again. The two loops that fire (the flush of the
queue and `close`) are therefore frames on a stack, one round a step, and the public methods may be
called between two rounds. What the reactor does comes only when no loop is running.
-/

open Lib

namespace Afkak.BrokerClient

/-- `_RequestState`. Its `Deferred` has the number under which the heap holds it. -/
structure RequestState where
  correlationId : Int
  request : Bytes
  expectResponse : Bool
  queued : Nat
  sent : Option Nat
  cancelled : Option Nat
deriving DecidableEq, Repr

/-- What a `Deferred` of `makeRequest` is fired with. -/
inductive Outcome
  | success (response : Option Bytes)
  | failed (e : Exc)
deriving DecidableEq, Repr

/-- What the current `connector` waits for. -/
inductive Pending
  | attempting
  | delaying
deriving DecidableEq, Repr

inductive Frame
  /-- `_sendQueued`, with the part of its copy of the queue that it has not come to. -/
  | flush (rest : List Nat)
  /-- The `while` loop of `close`. -/
  | close
deriving DecidableEq, Repr

structure State where
  seconds : Nat := 0
  heap : Dict Nat RequestState := .empty
  nextD : Nat := 0
  requests : Dict Int Nat := .empty
  proto : Option Nat := none
  /-- The connections that have been made and not lost. -/
  live : List Nat := []
  /-- The connections that were told to close. -/
  losing : List Nat := []
  nextConnection : Nat := 0
  connector : Option Nat := none
  /-- The `Deferred`s of `_connect` that have not fired. -/
  pending : List (Nat × Pending) := []
  nextConnector : Nat := 0
  failures : Nat := 0
  /-- `_dDown`, with the number of times it has been fired. -/
  dDown : Option Nat := none
  stack : List Frame := []
  /-- Every call of `callback` and `errback` on a `Deferred` of `makeRequest`, in order. -/
  calls : List (Nat × Outcome) := []
  /-- Every request handed to `sendString`, with its connection, in order. -/
  written : List (Nat × Nat) := []
deriving DecidableEq

inductive Event
  | advance (n : Nat)
  /-- `sendFails` is what `sendString` raises, should it be called. -/
  | makeRequest (correlationId : Int) (request : Bytes) (expectResponse : Bool) (sendFails : Option Exc)
  | cancel (d : Nat)
  | disconnect
  /-- `connects`: an attempt under way ends with a connection in spite of its cancellation. -/
  | close (connects : Bool)
  | connectionMade (k : Nat)
  | connectFailed (k : Nat)
  | delayElapsed (k : Nat)
  | connectionLost (c : Nat)
  | stringReceived (c : Nat) (response : Bytes)
  /-- The next round of the innermost loop. -/
  | resume (sendFails : Option Exc)
deriving DecidableEq, Repr

/-! ## The methods -/

def Fired (s : State) (d : Nat) : Prop := d ∈ s.calls.map Prod.fst

instance (s : State) (d : Nat) : Decidable (Fired s d) := inferInstanceAs (Decidable (_ ∈ _))

/-- `callback` or `errback`; it raises when the `Deferred` has fired already. -/
def fire (s : State) (d : Nat) (out : Outcome) : State × Option Exc :=
  ({ s with calls := s.calls ++ [(d, out)] }, if Fired s d then some .alreadyCalled else none)

/-- `self._dDown.callback(None)` -/
def fireDown (s : State) : State := { s with dDown := s.dDown.map (· + 1) }

def tryConnect (s : State) : State :=
  { s with
    connector := some s.nextConnector
    pending := s.pending ++ [(s.nextConnector, .attempting)]
    nextConnector := s.nextConnector + 1 }

def connect (s : State) : State := tryConnect { s with failures := 0 }

/-- `del self.requests[correlationId]`, then the `Deferred` is fired. -/
def finish (s : State) (correlationId : Int) (d : Nat) (out : Outcome) : State × Option Exc :=
  match s.requests.get? correlationId with
  | none => (s, some .keyError)
  | some _ => fire { s with requests := s.requests.erase correlationId } d out

/-- `_sendRequest`, with the exception that escapes from it. -/
def sendRequest (s : State) (o : Nat) (r : RequestState) (sendFails : Option Exc) : State × Option Exc :=
  let s' := { s with heap := s.heap.set o { r with sent := some s.seconds } }
  match s.proto, sendFails with
  | none, _ => finish s' r.correlationId o (.failed .attributeError)
  | some _, some e => finish s' r.correlationId o (.failed e)
  | some c, none =>
    let s' := { s' with written := s.written ++ [(c, o)] }
    if r.expectResponse then (s', none) else finish s' r.correlationId o (.success none)

def makeRequest (s : State) (correlationId : Int) (request : Bytes) (expectResponse : Bool)
    (sendFails : Option Exc) : State :=
  if (s.requests.get? correlationId).isSome then s  -- raises `DuplicateRequestError`
  else if s.dDown.isSome then (fire { s with nextD := s.nextD + 1 } s.nextD (.failed .clientError)).1
  else
    let tReq : RequestState := ⟨correlationId, request, expectResponse, s.seconds, none, none⟩
    let s' := { s with
      heap := s.heap.set s.nextD tReq
      nextD := s.nextD + 1
      requests := s.requests.set correlationId s.nextD }
    if s.proto.isSome then (sendRequest s' s.nextD tReq sendFails).1
    else if s.connector.isNone then connect s'
    else s'

/-- The body of `_cancelRequest` on the entry that it finds. -/
def cancelRequest (s : State) (correlationId : Int) (o : Nat) (r : RequestState) : State :=
  if r.sent.isSome then { s with heap := s.heap.set o { r with cancelled := some s.seconds } }
  else { s with requests := s.requests.erase correlationId }

/-- `Deferred.cancel`: the canceller is `_cancelRequest`, and as it does not fire the `Deferred`,
`cancel` does. A `KeyError` of the canceller goes to the caller. -/
def cancel (s : State) (d : Nat) : State :=
  if Fired s d then s
  else
    match s.heap.get? d with
    | none => s
    | some tReq =>
      match s.requests.get? tReq.correlationId with
      | none => s
      | some o =>
        match s.heap.get? o with
        | none => s
        | some r => (fire (cancelRequest s tReq.correlationId o r) d (.failed .tidCancelled)).1

/-- The transport is told to close the connection. -/
def loseConnection (s : State) (c : Nat) : State := { s with losing := s.losing ++ [c] }

def disconnect (s : State) : State :=
  match s.proto with
  | some c => loseConnection s c
  | none => s

/-- A connection comes up: the assignments of `cbConnect`. -/
def setProto (s : State) : State :=
  { s with
    failures := 0
    connector := none
    proto := some s.nextConnection
    live := s.live ++ [s.nextConnection]
    nextConnection := s.nextConnection + 1 }

def cbConnect (s : State) : State :=
  let s' := setProto s
  if s.dDown.isSome then loseConnection s' s.nextConnection
  else { s' with stack := .flush s.requests.values :: s.stack }

def ebConnect (s : State) : State :=
  if s.dDown.isSome then s
  else
    { s with
      failures := s.failures + 1
      connector := some s.nextConnector
      pending := s.pending ++ [(s.nextConnector, .delaying)]
      nextConnector := s.nextConnector + 1 }

/-- The part of `close` before its loop. -/
def closeConnection (s : State) (connects : Bool) : State :=
  match s.proto, s.connector with
  | some c, _ => loseConnection s c
  | none, none => fireDown s
  | none, some k =>
    match s.pending.lookup k with
    | none => s  -- it has fired, so neither the errback nor the cancellation does anything
    | some kind =>
      let s := { s with pending := s.pending.filter fun p => p.1 ≠ k }
      if connects ∧ kind = .attempting then cbConnect s else fireDown s

def close (s : State) (connects : Bool) : State :=
  if s.dDown.isSome then s  -- the assertion fails
  else
    let s := closeConnection { s with dDown := some 0 } connects
    { s with stack := .close :: s.stack }

def isCancelled (s : State) (o : Nat) : Bool :=
  match s.heap.get? o with
  | some r => r.cancelled.isSome
  | none => false

/-- The loop of `_connectionLost`; each round touches its own entry only. -/
def markUnsent (s : State) : State :=
  { s with
    requests := s.requests.filter fun e => !isCancelled s e.2
    heap := s.heap.mapValues fun o r =>
      if o ∈ s.requests.values ∧ r.cancelled.isNone then { r with sent := none } else r }

def connectionLost (s : State) : State :=
  let s' := markUnsent { s with proto := none }
  if s.dDown.isSome then fireDown s'
  else if s'.requests.entries = [] then s'
  else connect s'

def getResponseCorrelationId (response : Bytes) : Except Exc Int := do
  let ((correlationId, ()), _) ← relativeUnpack [.i] response 0
  return correlationId

def handleResponse (s : State) (response : Bytes) : State :=
  match getResponseCorrelationId response with
  | .error _ => s
  | .ok correlationId =>
    match s.requests.get? correlationId with
    | none => s
    | some o =>
      let s := { s with requests := s.requests.erase correlationId }
      match s.heap.get? o with
      | none => s
      | some r => if r.cancelled.isSome then s else (fire s o (.success (some response))).1

/-- One round of `_sendQueued`. What escapes from it reaches `ebConnect`, the errback that stands
after `cbConnect`. -/
def flushRound (s : State) (o : Nat) (rest : List Nat) (below : List Frame) (sendFails : Option Exc) : State :=
  let s := { s with stack := .flush rest :: below }
  match s.heap.get? o with
  | none => s
  | some r =>
    if r.sent.isSome then s
    else
      match sendRequest s o r sendFails with
      | (s, none) => s
      | (s, some _) => ebConnect { s with stack := below }

/-- One round of the loop of `close`: `popitem` takes the newest entry. -/
def closeRound (s : State) (below : List Frame) : State :=
  match s.requests.entries.getLast? with
  | none => { s with stack := below }
  | some (correlationId, o) =>
    let s := { s with requests := s.requests.erase correlationId }
    match s.heap.get? o with
    | none => s
    | some r =>
      if r.cancelled.isSome then s
      else
        match fire s o (.failed .clientError) with
        | (s, none) => s
        | (s, some _) => { s with stack := below }

/-! ## Steps -/

def step (s : State) : Event → Option State
  | .advance n => if s.stack = [] then some { s with seconds := s.seconds + n } else none
  | .makeRequest correlationId request expectResponse sendFails =>
    some (makeRequest s correlationId request expectResponse sendFails)
  | .cancel d => if d < s.nextD then some (cancel s d) else none
  | .disconnect => some (disconnect s)
  | .close connects => some (close s connects)
  | .connectionMade k =>
    if s.stack = [] ∧ s.pending.lookup k = some .attempting then
      some (cbConnect { s with pending := s.pending.filter fun p => p.1 ≠ k })
    else none
  | .connectFailed k =>
    if s.stack = [] ∧ s.pending.lookup k = some .attempting then
      some (ebConnect { s with pending := s.pending.filter fun p => p.1 ≠ k })
    else none
  | .delayElapsed k =>
    if s.stack = [] ∧ s.pending.lookup k = some .delaying then
      some (tryConnect { s with pending := s.pending.filter fun p => p.1 ≠ k })
    else none
  | .connectionLost c =>
    if s.stack = [] ∧ c ∈ s.live then some (connectionLost { s with live := s.live.filter (· ≠ c) }) else none
  | .stringReceived c response =>
    if s.stack = [] ∧ c ∈ s.live then some (handleResponse s response) else none
  | .resume sendFails =>
    match s.stack with
    | [] => none
    | .flush [] :: below => some { s with stack := below }
    | .flush (o :: rest) :: below => some (flushRound s o rest below sendFails)
    | .close :: below => some (closeRound s below)

def init : State := {}

/-- What a step does, and the guards that it has passed. -/
inductive Takes (s : State) : Event → State → Prop
  | advance (n : Nat) (hstack : s.stack = []) : Takes s (.advance n) { s with seconds := s.seconds + n }
  | makeRequest (cid : Int) (request : Bytes) (expectResponse : Bool) (sendFails : Option Exc) :
    Takes s (.makeRequest cid request expectResponse sendFails) (makeRequest s cid request expectResponse sendFails)
  | cancel (d : Nat) (hd : d < s.nextD) : Takes s (.cancel d) (cancel s d)
  | disconnect : Takes s .disconnect (disconnect s)
  | close (connects : Bool) : Takes s (.close connects) (close s connects)
  | connectionMade (k : Nat) (hstack : s.stack = []) (hk : s.pending.lookup k = some .attempting) :
    Takes s (.connectionMade k) (cbConnect { s with pending := s.pending.filter fun p => p.1 ≠ k })
  | connectFailed (k : Nat) (hstack : s.stack = []) (hk : s.pending.lookup k = some .attempting) :
    Takes s (.connectFailed k) (ebConnect { s with pending := s.pending.filter fun p => p.1 ≠ k })
  | delayElapsed (k : Nat) (hstack : s.stack = []) (hk : s.pending.lookup k = some .delaying) :
    Takes s (.delayElapsed k) (tryConnect { s with pending := s.pending.filter fun p => p.1 ≠ k })
  | connectionLost (c : Nat) (hstack : s.stack = []) (hc : c ∈ s.live) :
    Takes s (.connectionLost c) (connectionLost { s with live := s.live.filter (· ≠ c) })
  | stringReceived (c : Nat) (response : Bytes) (hstack : s.stack = []) (hc : c ∈ s.live) :
    Takes s (.stringReceived c response) (handleResponse s response)
  | flushed (sendFails : Option Exc) (below : List Frame) (hstack : s.stack = .flush [] :: below) :
    Takes s (.resume sendFails) { s with stack := below }
  | flush (sendFails : Option Exc) (o : Nat) (rest : List Nat) (below : List Frame)
    (hstack : s.stack = .flush (o :: rest) :: below) :
    Takes s (.resume sendFails) (flushRound s o rest below sendFails)
  | closing (sendFails : Option Exc) (below : List Frame) (hstack : s.stack = .close :: below) :
    Takes s (.resume sendFails) (closeRound s below)

theorem takes_of_step {s t : State} {e : Event} (h : step s e = some t) : Takes s e t := by
  cases e with
  | advance n =>
    simp only [step, Option.ite_none_right_eq_some, Option.some.injEq] at h
    obtain ⟨hstack, rfl⟩ := h
    exact .advance n hstack
  | makeRequest cid request expectResponse sendFails =>
    obtain rfl := Option.some.inj h
    exact .makeRequest cid request expectResponse sendFails
  | cancel d =>
    simp only [step, Option.ite_none_right_eq_some, Option.some.injEq] at h
    obtain ⟨hd, rfl⟩ := h
    exact .cancel d hd
  | disconnect =>
    obtain rfl := Option.some.inj h
    exact .disconnect
  | close connects =>
    obtain rfl := Option.some.inj h
    exact .close connects
  | connectionMade k =>
    simp only [step, Option.ite_none_right_eq_some, Option.some.injEq] at h
    obtain ⟨⟨hstack, hk⟩, rfl⟩ := h
    exact .connectionMade k hstack hk
  | connectFailed k =>
    simp only [step, Option.ite_none_right_eq_some, Option.some.injEq] at h
    obtain ⟨⟨hstack, hk⟩, rfl⟩ := h
    exact .connectFailed k hstack hk
  | delayElapsed k =>
    simp only [step, Option.ite_none_right_eq_some, Option.some.injEq] at h
    obtain ⟨⟨hstack, hk⟩, rfl⟩ := h
    exact .delayElapsed k hstack hk
  | connectionLost c =>
    simp only [step, Option.ite_none_right_eq_some, Option.some.injEq] at h
    obtain ⟨⟨hstack, hc⟩, rfl⟩ := h
    exact .connectionLost c hstack hc
  | stringReceived c response =>
    simp only [step, Option.ite_none_right_eq_some, Option.some.injEq] at h
    obtain ⟨⟨hstack, hc⟩, rfl⟩ := h
    exact .stringReceived c response hstack hc
  | resume sendFails =>
    simp only [step] at h
    split at h
    · cases h
    · next below hstack =>
      obtain rfl := Option.some.inj h
      exact .flushed sendFails below hstack
    · next o rest below hstack =>
      obtain rfl := Option.some.inj h
      exact .flush sendFails o rest below hstack
    · next below hstack =>
      obtain rfl := Option.some.inj h
      exact .closing sendFails below hstack

end Afkak.BrokerClient
