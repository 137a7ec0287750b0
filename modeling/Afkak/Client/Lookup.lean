import Afkak.Client.Handle
import Afkak.ConsumerProtocol

/-!
# Finding the coordinator of a group (`load_coordinator_for_group`)

A lookup sends one request and keeps a list of the Deferreds that wait for it; calls for the same group in the
meantime join the list. The result goes through two callbacks, then the list is taken out of `_coordinator_fetches` and
its Deferreds are called one after the other. A Deferred runs the application's callbacks at once, and these may start
lookups, cancel, or see to it that other results come in, before the loop goes on.

Sending a request runs no callbacks of the application, but the request may have failed by the time its Deferred is
returned.
-/

open Lib

namespace Afkak

/-! ## Codec -/

structure ConsumerMetadataResponse where
  error : Int
  nodeId : Int
  host : String
  port : Int

def CONSUMER_METADATA_KEY : Int := 10

def readConsumerMetadataResponse : Read ConsumerMetadataResponse := do
  let (_, error, nodeId, ()) ← relativeUnpack [.i, .h, .i]
  let host ← readShortAscii
  let (port, ()) ← relativeUnpack [.i]
  return ⟨error, nodeId, host, port⟩

def decodeConsumerMetadataResponse (data : Bytes) : Except Exc ConsumerMetadataResponse :=
  decodeWith readConsumerMetadataResponse (some data)

namespace Client

def encodeConsumerMetadataRequest (clientId : Bytes) (correlationId : Int) (consumerGroup : String) :
    Except Exc Bytes := do
  let header ← encodeMessageHeader clientId correlationId CONSUMER_METADATA_KEY 0
  let group ← writeShortAscii consumerGroup
  return header ++ group

inductive Group
  | text (s : String)
  | bytes (b : Bytes)
  | other

def coerceConsumerGroup : Group → Except Exc String
  | .text s => .ok s
  | .bytes b => decodeUtf8 b
  | .other => .error .typeError

/-! ## The lookups -/

structure Deferred where
  called : Bool := false
  suppressAlreadyCalled : Bool := false

/-- An entry of `_coordinator_fetches`: the Deferred of the request and those that wait. -/
structure Fetch where
  request : Nat
  waiters : List Nat

/-- The loop of a `_propagate` whose last callback is still running. -/
structure Propagation where
  request : Nat
  group : String
  result : Except Exc Bool
  rest : List Nat

inductive Cause
  | cancelled
  /-- `_propagate`, the last callback of the request for the group. -/
  | result (request : Nat) (group : String)

structure Firing where
  deferred : Nat
  cause : Cause
  value : Except Exc Bool
  client : State

structure Lookups where
  client : State
  correlationId : Int := 0
  /-- `_coordinator_fetches` -/
  fetches : Dict String Fetch := .empty
  requests : Dict Nat String := .empty
  deferreds : Dict Nat Deferred := .empty
  /-- The innermost comes first. -/
  propagations : List Propagation := []
  nextRequest : Nat := 0
  nextDeferred : Nat := 0
  joined : Dict Nat Nat := .empty
  replies : Dict Nat (Except Exc Bytes) := .empty
  firings : List Firing := []

def nextId (correlationId : Int) : Int := (correlationId + 1) % 2 ^ 31

def handleConsumerMetadataResponse (s : State) (group : String) (response : Bytes) : Except Exc State := do
  let response ← decodeConsumerMetadataResponse response
  raiseForErrno response.error
  let bm : BrokerMetadata := ⟨response.nodeId, response.host, response.port⟩
  return updateBrokers { s with groupToCoordinator := s.groupToCoordinator.set group bm } [bm] false

/-- `_handleConsumerMetadataErr`, which raises. -/
def handleConsumerMetadataErr (s : State) (group : String) : State × Exc :=
  ((resetConsumerGroupMetadata s (some group)).1, .coordinatorNotAvailable)

def handleReply (s : State) (group : String) (reply : Except Exc Bytes) : State × Except Exc Bool :=
  match reply >>= handleConsumerMetadataResponse s group with
  | .ok t => (t, .ok true)
  | .error _ =>
    let (t, e) := handleConsumerMetadataErr s group
    (t, .error e)

namespace Lookups

def deferred (s : Lookups) (d : Nat) : Deferred := (s.deferreds.get? d).getD {}

def fire (s : Lookups) (d : Nat) (cause : Cause) (value : Except Exc Bool) (suppress : Bool) : Lookups :=
  { s with
    deferreds := s.deferreds.set d ⟨true, suppress⟩
    firings := s.firings ++ [⟨d, cause, value, s.client⟩] }

/-- `for d in ds: d.callback(result)`, until a callback of the application runs. The one `callback` after a `cancel` is
ignored; otherwise a second one raises and ends the loop. -/
def propagate (s : Lookups) (request : Nat) (group : String) (result : Except Exc Bool) : List Nat → Lookups
  | [] => s
  | d :: ds =>
    if (s.deferred d).called then
      if (s.deferred d).suppressAlreadyCalled then
        propagate { s with deferreds := s.deferreds.set d ⟨true, false⟩ } request group result ds
      else s
    else
      let s := s.fire d (.result request group) result false
      { s with propagations := ⟨request, group, result, ds⟩ :: s.propagations }

/-- The callbacks of a request; a missing entry would be a `KeyError` in the last of them. -/
def complete (s : Lookups) (request : Nat) (group : String) (reply : Except Exc Bytes) : Lookups :=
  let (client, result) := handleReply s.client group reply
  let s := { s with
    client
    requests := s.requests.erase request
    replies := s.replies.set request reply }
  match s.fetches.get? group with
  | none => s
  | some f => propagate { s with fetches := s.fetches.erase group } request group result f.waiters

def join (s : Lookups) (group : String) (f : Fetch) : Lookups :=
  { s with
    fetches := s.fetches.set group { f with waiters := f.waiters ++ [s.nextDeferred] }
    joined := s.joined.set s.nextDeferred f.request
    nextDeferred := s.nextDeferred + 1 }

def begin (s : Lookups) (group : String) : Lookups :=
  { s with
    requests := s.requests.set s.nextRequest group
    fetches := s.fetches.set group ⟨s.nextRequest, [s.nextDeferred]⟩
    joined := s.joined.set s.nextDeferred s.nextRequest
    nextRequest := s.nextRequest + 1
    nextDeferred := s.nextDeferred + 1 }

variable (clientId : Bytes)

/-- `load_coordinator_for_group`; `answer` is the result of a request that has completed before its callbacks are
added. A call that raises returns no Deferred. -/
def loadCoordinatorForGroup (s : Lookups) (group : Group) (answer : Option (Except Exc Bytes)) : Lookups :=
  match coerceConsumerGroup group with
  | .error _ => s
  | .ok group =>
    match s.fetches.get? group with
    | some f => s.join group f
    | none =>
      let s := { s with correlationId := nextId s.correlationId }
      match encodeConsumerMetadataRequest clientId s.correlationId group with
      | .error _ => s
      | .ok _ =>
        match answer with
        | none => s.begin group
        | some reply => (s.begin group).complete s.nextRequest group reply

/-- `reset_consumer_group_metadata`; all groups are coerced first. -/
def resetGroups (s : Lookups) (groups : List Group) : Lookups :=
  match groups.mapM coerceConsumerGroup with
  | .error _ => s
  | .ok groups => { s with client := groups.foldl (fun c g => (resetConsumerGroupMetadata c (some g)).1) s.client }

def cancel (s : Lookups) (d : Nat) : Lookups :=
  if (s.deferred d).called then s else s.fire d .cancelled (.error .tidCancelled) true

end Lookups

inductive LookupEvent
  | load (group : Group) (answer : Option (Except Exc Bytes))
  | reset (groups : List Group)
  | cancel (d : Nat)
  /-- The result of a request: the bytes of a response, or the error of a request that failed. -/
  | answer (request : Nat) (reply : Except Exc Bytes)
  | goOn
  | elsewhere (client : State)

namespace Lookups

variable (clientId : Bytes)

open LookupEvent in
def step (s : Lookups) : LookupEvent → Option Lookups
  | load group reply => some (s.loadCoordinatorForGroup clientId group reply)
  | reset groups => some (s.resetGroups groups)
  | LookupEvent.cancel d => if d < s.nextDeferred then some (s.cancel d) else none
  | answer request reply =>
    match s.requests.get? request with
    | none => none
    | some group => some (s.complete request group reply)
  | goOn =>
    match s.propagations with
    | [] => none
    | p :: rest => some (propagate { s with propagations := rest } p.request p.group p.result p.rest)
  | elsewhere client => some { s with client }

/-! ## What holds of the lookups -/

/-- The Deferred is ahead in a list that is kept for the request. -/
def InLine (s : Lookups) (request d : Nat) : Prop :=
  (∃ g f, s.fetches.get? g = some f ∧ f.request = request ∧ d ∈ f.waiters) ∨
    ∃ p ∈ s.propagations, p.request = request ∧ d ∈ p.rest

def firingsOf (s : Lookups) (d : Nat) : List Firing := s.firings.filter fun x => x.deferred = d

def Succeeds (reply : Except Exc Bytes) : Prop :=
  ∃ bytes response, reply = .ok bytes ∧ decodeConsumerMetadataResponse bytes = .ok response ∧ response.error = 0

def Outcome (reply : Except Exc Bytes) (value : Except Exc Bool) : Prop :=
  (Succeeds reply ∧ value = .ok true) ∨ (¬ Succeeds reply ∧ value = .error .coordinatorNotAvailable)

def Settled (group : String) (client : State) (value : Except Exc Bool) : Prop :=
  (value = .ok true ∧ ∃ b, client.groupToCoordinator.get? group = some b ∧ b.nodeId ∈ client.brokers.keys) ∨
    (value = .error .coordinatorNotAvailable ∧ client.groupToCoordinator.get? group = none)

def Waiting (s : Lookups) (d request : Nat) : Prop := s.firingsOf d = [] ∧ InLine s request d

/-- The Deferred has fired once, because it was cancelled. -/
def WasCancelled (s : Lookups) (d : Nat) : Prop :=
  ∃ client, s.firingsOf d = [⟨d, .cancelled, .error .tidCancelled, client⟩]

/-- The Deferred has fired once, with the result of its request. -/
def WasTold (s : Lookups) (d request : Nat) : Prop :=
  ∃ group reply value client, s.replies.get? request = some reply ∧ Outcome reply value ∧
    s.firingsOf d = [⟨d, .result request group, value, client⟩]

/-- The first Deferred to be told the result of a request finds the caches settled. -/
def FirstSettled (firings : List Firing) : Prop :=
  ∀ pre x post, firings = pre ++ x :: post → ∀ request group, x.cause = .result request group →
    (∀ y ∈ pre, ∀ g, y.cause ≠ .result request g) → Settled group x.client x.value

/-! ## Handling a reply -/

theorem handleReply_outcome (s : State) (group : String) (reply : Except Exc Bytes) :
    Outcome reply (handleReply s group reply).2 := by
  unfold handleReply
  by_cases h : Succeeds reply
  · obtain ⟨bytes, response, rfl, hdec, herr⟩ := h
    rw [ok_bind, handleConsumerMetadataResponse, hdec, ok_bind, herr]
    exact .inl ⟨⟨bytes, response, rfl, hdec, herr⟩, rfl⟩
  · cases hr : reply >>= handleConsumerMetadataResponse s group with
    | error e => exact .inr ⟨h, rfl⟩
    | ok t =>
      refine absurd ?_ h
      obtain ⟨bytes, rfl, hbytes⟩ := bind_eq_ok.mp hr
      obtain ⟨response, hdec, hrest⟩ := bind_eq_ok.mp hbytes
      obtain ⟨u, hraise, -⟩ := bind_eq_ok.mp hrest
      refine ⟨bytes, response, rfl, hdec, ?_⟩
      by_contra hne
      rw [raiseForErrno, if_neg hne] at hraise
      cases hraise

theorem handleReply_settled (s : State) (group : String) (reply : Except Exc Bytes) :
    Settled group (handleReply s group reply).1 (handleReply s group reply).2 := by
  unfold handleReply
  cases hr : reply >>= handleConsumerMetadataResponse s group with
  | error e =>
    refine .inr ⟨rfl, ?_⟩
    simp [handleConsumerMetadataErr, resetConsumerGroupMetadata, Dict.get?_erase]
  | ok t =>
    obtain ⟨bytes, rfl, hbytes⟩ := bind_eq_ok.mp hr
    obtain ⟨response, hdec, hrest⟩ := bind_eq_ok.mp hbytes
    obtain ⟨u, hraise, ht⟩ := bind_eq_ok.mp hrest
    obtain rfl := Except.ok.inj ht
    refine .inl ⟨rfl, ⟨response.nodeId, response.host, response.port⟩, by simp [updateBrokers], ?_⟩
    rw [mem_updateBrokers]
    exact .inl (by simp)

/-! ## The invariant -/

/-- The Deferreds of a list: each is in one list of its request, and has not fired unless it was cancelled. -/
def Line (s : Lookups) (request : Nat) (ds : List Nat) : Prop :=
  ds.Nodup ∧ ∀ d ∈ ds, s.joined.get? d = some request ∧
    ((s.deferred d).called = true → (s.deferred d).suppressAlreadyCalled = true)

def Mark (s : Lookups) (d request : Nat) : Prop :=
  ((s.deferred d) = {} ∧ Waiting s d request) ∨ ((s.deferred d).called = true ∧ WasCancelled s d) ∨
    ((s.deferred d).called = true ∧ (s.deferred d).suppressAlreadyCalled = false ∧ WasTold s d request)

structure Sound (s : Lookups) : Prop where
  entry : ∀ g r, s.requests.get? r = some g ↔ ∃ f, s.fetches.get? g = some f ∧ f.request = r
  outstanding : ∀ r g, s.requests.get? r = some g → r < s.nextRequest ∧ s.replies.get? r = none
  replied : ∀ r reply, s.replies.get? r = some reply → r < s.nextRequest
  fresh : ∀ d, s.nextDeferred ≤ d → s.joined.get? d = none ∧ s.deferreds.get? d = none ∧ s.firingsOf d = []
  known : ∀ d, d < s.nextDeferred → ∃ r, s.joined.get? d = some r
  waiters : ∀ g f, s.fetches.get? g = some f → Line s f.request f.waiters
  loops : ∀ p ∈ s.propagations, Line s p.request p.rest ∧
    ∃ reply, s.replies.get? p.request = some reply ∧ Outcome reply p.result
  apart : (s.propagations.map (·.request)).Nodup
  marks : ∀ d r, s.joined.get? d = some r → Mark s d r

variable {s : Lookups}

theorem Sound.client (h : Sound s) (client : State) : Sound { s with client } :=
  ⟨h.entry, h.outstanding, h.replied, h.fresh, h.known, h.waiters, h.loops, h.apart, h.marks⟩

theorem Sound.correlation (h : Sound s) (correlationId : Int) : Sound { s with correlationId } :=
  ⟨h.entry, h.outstanding, h.replied, h.fresh, h.known, h.waiters, h.loops, h.apart, h.marks⟩

theorem sound_start (client : State) : Sound { client } := by
  constructor <;> simp [firingsOf]

theorem Line.of_eq {t : Lookups} {r : Nat} {ds : List Nat} (h : Line s r ds)
    (hjoined : ∀ d ∈ ds, t.joined.get? d = s.joined.get? d) (hdeferred : ∀ d ∈ ds, t.deferred d = s.deferred d) :
    Line t r ds := by
  refine ⟨h.1, fun d hd => ?_⟩
  rw [hjoined d hd, hdeferred d hd]
  exact h.2 d hd

theorem Mark.of_eq {t : Lookups} {d r : Nat} (h : Mark s d r) (hdeferred : t.deferred d = s.deferred d)
    (hfirings : t.firingsOf d = s.firingsOf d) (hline : InLine s r d → InLine t r d)
    (hreplies : ∀ reply, s.replies.get? r = some reply → t.replies.get? r = some reply) : Mark t d r := by
  unfold Mark Waiting WasCancelled WasTold at *
  rw [hdeferred, hfirings]
  rcases h with ⟨hx, hnone, hin⟩ | h | ⟨hcalled, hsuppress, group, reply, value, client, hreply, h⟩
  · exact .inl ⟨hx, hnone, hline hin⟩
  · exact .inr (.inl h)
  · exact .inr (.inr ⟨hcalled, hsuppress, group, reply, value, client, hreplies reply hreply, h⟩)

theorem Sound.ne_next (h : Sound s) {d r : Nat} (hd : s.joined.get? d = some r) : s.nextDeferred ≠ d := by
  rintro rfl
  rw [(h.fresh _ le_rfl).1] at hd
  cases hd

theorem Sound.join (h : Sound s) {g : String} {f : Fetch} (hf : s.fetches.get? g = some f) : Sound (s.join g f) := by
  have hold {r : Nat} {ds : List Nat} (hl : Line s r ds) : Line (s.join g f) r ds :=
    hl.of_eq (fun d hd => by simp [Lookups.join, h.ne_next (hl.2 d hd).1]) fun d _ => rfl
  refine ⟨fun g' r => ?_, h.outstanding, h.replied, fun d hd => ?_, fun d hd => ?_, fun g' f' hf' => ?_,
    fun p hp => ⟨hold (h.loops p hp).1, (h.loops p hp).2⟩, h.apart, fun d r hd => ?_⟩
  · rw [show (s.join g f).requests = s.requests from rfl, h.entry, Lookups.join, Dict.get?_set]
    by_cases hg : g = g'
    · subst hg
      simp [hf]
    · simp [hg]
  · obtain ⟨hjoined, hrest⟩ := h.fresh d (le_trans (Nat.le_succ _) hd)
    refine ⟨?_, hrest⟩
    simp [Lookups.join, hjoined, (Nat.lt_of_succ_le hd).ne]
  · rw [Lookups.join, Dict.get?_set]
    split
    · exact ⟨_, rfl⟩
    · next hne => exact h.known d ((Nat.lt_succ_iff_lt_or_eq.mp hd).resolve_right fun he => hne he.symm)
  · rw [Lookups.join, Dict.get?_set] at hf'
    split at hf'
    · obtain rfl := Option.some.inj hf'
      have hl := h.waiters g f hf
      refine ⟨?_, fun d hd => ?_⟩
      · rw [List.nodup_append]
        refine ⟨hl.1, List.nodup_singleton _, fun a ha b hb => ?_⟩
        rw [List.mem_singleton.mp hb]
        exact (h.ne_next (hl.2 a ha).1).symm
      · rcases List.mem_append.mp hd with hd | hd
        · exact (hold hl).2 d hd
        · obtain rfl := List.mem_singleton.mp hd
          refine ⟨by simp [Lookups.join], fun hcalled => ?_⟩
          simp [Lookups.join, deferred, (h.fresh _ le_rfl).2.1] at hcalled
    · exact hold (h.waiters g' f' hf')
  · rw [Lookups.join, Dict.get?_set] at hd
    split at hd
    · next hd' =>
      subst hd'
      obtain rfl := Option.some.inj hd
      obtain ⟨-, hdef, hfir⟩ := h.fresh _ le_rfl
      exact .inl ⟨by simp [Lookups.join, deferred, hdef], hfir,
        .inl ⟨g, { f with waiters := f.waiters ++ [s.nextDeferred] }, by simp [Lookups.join], rfl, by simp⟩⟩
    · refine (h.marks d r hd).of_eq rfl rfl ?_ fun _ => id
      rintro (⟨g', f', hf', hr, hmem⟩ | hloop)
      · by_cases hg : g = g'
        · subst hg
          rw [hf, Option.some.injEq] at hf'
          subst hf'
          exact .inl ⟨g, { f with waiters := f.waiters ++ [s.nextDeferred] },
            by simp [Lookups.join], hr, by simp [hmem]⟩
        · exact .inl ⟨g', f', by simp [Lookups.join, hg, hf'], hr, hmem⟩
      · exact .inr hloop

theorem Sound.requests_next (h : Sound s) : s.requests.get? s.nextRequest = none := by
  cases hr : s.requests.get? s.nextRequest with
  | none => rfl
  | some g => exact absurd (h.outstanding _ g hr).1 (lt_irrefl _)

theorem Sound.begin (h : Sound s) {g : String} (hnone : s.fetches.get? g = none) : Sound (s.begin g) := by
  have hold {r : Nat} {ds : List Nat} (hl : Line s r ds) : Line (s.begin g) r ds :=
    hl.of_eq (fun d hd => by simp [Lookups.begin, h.ne_next (hl.2 d hd).1]) fun d _ => rfl
  refine ⟨fun g' r => ?_, fun r g' hr => ?_, fun r reply hr => Nat.lt_succ_of_lt (h.replied r reply hr), fun d hd => ?_,
    fun d hd => ?_, fun g' f' hf' => ?_, fun p hp => ⟨hold (h.loops p hp).1, (h.loops p hp).2⟩, h.apart, fun d r hd =>
      ?_⟩
  · simp only [Lookups.begin, Dict.get?_set]
    by_cases hr : s.nextRequest = r
    · subst hr
      rw [if_pos rfl, Option.some.injEq]
      constructor
      · rintro rfl
        exact ⟨_, if_pos rfl, rfl⟩
      · rintro ⟨f, hf, hreq⟩
        by_contra hne
        rw [if_neg hne] at hf
        have hentry := (h.entry g' s.nextRequest).mpr ⟨f, hf, hreq⟩
        rw [h.requests_next] at hentry
        cases hentry
    · rw [if_neg hr, h.entry]
      by_cases hg : g = g'
      · subst hg
        simp [hnone, hr]
      · simp [hg]
  · simp only [Lookups.begin, Dict.get?_set] at hr
    split at hr
    · next heq =>
      subst heq
      refine ⟨Nat.lt_succ_self _, ?_⟩
      cases hrep : s.replies.get? s.nextRequest with
      | none => exact hrep
      | some reply => exact absurd (h.replied _ reply hrep) (lt_irrefl _)
    · exact ⟨Nat.lt_succ_of_lt (h.outstanding r g' hr).1, (h.outstanding r g' hr).2⟩
  · obtain ⟨hjoined, hrest⟩ := h.fresh d (le_trans (Nat.le_succ _) hd)
    refine ⟨?_, hrest⟩
    simp [Lookups.begin, hjoined, (Nat.lt_of_succ_le hd).ne]
  · rw [Lookups.begin, Dict.get?_set]
    split
    · exact ⟨_, rfl⟩
    · next hne => exact h.known d ((Nat.lt_succ_iff_lt_or_eq.mp hd).resolve_right fun he => hne he.symm)
  · rw [Lookups.begin, Dict.get?_set] at hf'
    split at hf'
    · obtain rfl := Option.some.inj hf'
      refine ⟨List.nodup_singleton _, fun d hd => ?_⟩
      obtain rfl := List.mem_singleton.mp hd
      refine ⟨by simp [Lookups.begin], fun hcalled => ?_⟩
      simp [Lookups.begin, deferred, (h.fresh _ le_rfl).2.1] at hcalled
    · exact hold (h.waiters g' f' hf')
  · rw [Lookups.begin, Dict.get?_set] at hd
    split at hd
    · next hd' =>
      subst hd'
      obtain rfl := Option.some.inj hd
      obtain ⟨-, hdef, hfir⟩ := h.fresh _ le_rfl
      exact .inl ⟨by simp [Lookups.begin, deferred, hdef], hfir,
        .inl ⟨g, ⟨s.nextRequest, [s.nextDeferred]⟩, by simp [Lookups.begin], rfl, List.mem_singleton_self _⟩⟩
    · refine (h.marks d r hd).of_eq rfl rfl ?_ fun _ => id
      rintro (⟨g', f', hf', hr, hmem⟩ | hloop)
      · have hg : g ≠ g' := by
          rintro rfl
          rw [hnone] at hf'
          cases hf'
        exact .inl ⟨g', f', by simp [Lookups.begin, hg, hf'], hr, hmem⟩
      · exact .inr hloop

theorem Sound.taken (h : Sound s) {g : String} {f : Fetch} (hf : s.fetches.get? g = some f) (client : State)
    {reply : Except Exc Bytes} {value : Except Exc Bool} (hv : Outcome reply value) :
    Sound { s with
      client
      requests := s.requests.erase f.request
      replies := s.replies.set f.request reply
      fetches := s.fetches.erase g
      propagations := ⟨f.request, g, value, f.waiters⟩ :: s.propagations } := by
  have hreq : s.requests.get? f.request = some g := (h.entry g f.request).mpr ⟨f, hf, rfl⟩
  have hopen := h.outstanding f.request g hreq
  have hsame {g' : String} {f' : Fetch} (hf' : s.fetches.get? g' = some f') (hr : f'.request = f.request) : g' = g := by
    have hg' := (h.entry g' f.request).mpr ⟨f', hf', hr⟩
    rw [hreq, Option.some.injEq] at hg'
    exact hg'.symm
  have hreplies {r : Nat} {x : Except Exc Bytes} (hx : s.replies.get? r = some x) :
      (s.replies.set f.request reply).get? r = some x := by
    have hne : f.request ≠ r := by
      rintro rfl
      rw [hopen.2] at hx
      cases hx
    simp [hne, hx]
  refine ⟨fun g' r => ?_, fun r g' hr => ?_, fun r x hx => ?_, h.fresh, h.known, fun g' f' hf' => ?_, fun p hp => ?_,
    ?_,
    fun d r hd => (h.marks d r hd).of_eq rfl rfl ?_ fun _ => hreplies⟩
  · simp only [Dict.get?_erase]
    by_cases hr : r = f.request
    · subst hr
      refine iff_of_false (by simp) ?_
      rintro ⟨f', hf', hreq'⟩
      split at hf'
      · cases hf'
      · next hne => exact hne (hsame hf' hreq')
    · rw [if_neg hr, h.entry]
      constructor
      · rintro ⟨f', hf', hreq'⟩
        refine ⟨f', ?_, hreq'⟩
        rw [if_neg]
        · exact hf'
        · rintro rfl
          rw [hf, Option.some.injEq] at hf'
          exact hr (hf' ▸ hreq'.symm)
      · rintro ⟨f', hf', hreq'⟩
        split at hf'
        · cases hf'
        · exact ⟨f', hf', hreq'⟩
  · rw [Dict.get?_erase] at hr
    split at hr
    · cases hr
    · next hne =>
      rw [Dict.get?_set, if_neg (Ne.symm hne)]
      exact h.outstanding r g' hr
  · rw [Dict.get?_set] at hx
    split at hx
    · next heq => exact heq ▸ hopen.1
    · exact h.replied r x hx
  · rw [Dict.get?_erase] at hf'
    split at hf'
    · cases hf'
    · exact h.waiters g' f' hf'
  · rcases List.mem_cons.mp hp with rfl | hp
    · exact ⟨h.waiters g f hf, reply, by simp, hv⟩
    · obtain ⟨hl, x, hx, hvx⟩ := h.loops p hp
      exact ⟨hl, x, hreplies hx, hvx⟩
  · rw [List.map_cons, List.nodup_cons]
    refine ⟨fun hmem => ?_, h.apart⟩
    obtain ⟨p, hp, heq⟩ := List.mem_map.mp hmem
    obtain ⟨-, x, hx, -⟩ := h.loops p hp
    rw [heq, hopen.2] at hx
    cases hx
  · rintro (⟨g', f', hf', hr, hmem⟩ | ⟨p, hp, hr, hmem⟩)
    · by_cases hg : g' = g
      · subst hg
        rw [hf, Option.some.injEq] at hf'
        subst hf'
        exact .inr ⟨_, List.mem_cons_self, hr, hmem⟩
      · exact .inl ⟨g', f', by rw [Dict.get?_erase, if_neg hg, hf'], hr, hmem⟩
    · exact .inr ⟨p, List.mem_cons_of_mem _ hp, hr, hmem⟩

/-! ## The loop -/

section Loop

variable {r : Nat} {g : String} {v : Except Exc Bool} {d : Nat} {ds : List Nat}

def within (s : Lookups) (r : Nat) (g : String) (v : Except Exc Bool) (ds : List Nat) : Lookups :=
  { s with propagations := ⟨r, g, v, ds⟩ :: s.propagations }

theorem Sound.not_elsewhere (h : Sound (s.within r g v (d :: ds))) :
    d ∉ ds ∧ (∀ g' f, s.fetches.get? g' = some f → d ∉ f.waiters) ∧ ∀ p ∈ s.propagations, d ∉ p.rest := by
  obtain ⟨hl, reply, hreply, -⟩ := h.loops _ List.mem_cons_self
  have hjoined := (hl.2 d List.mem_cons_self).1
  refine ⟨(List.nodup_cons.mp hl.1).1, fun g' f hf hd => ?_, fun p hp hd => ?_⟩
  · have hother := ((h.waiters g' f hf).2 d hd).1
    rw [hjoined, Option.some.injEq] at hother
    have hopen := (h.outstanding r g' ((h.entry g' r).mpr ⟨f, hf, hother.symm⟩)).2
    rw [hopen] at hreply
    cases hreply
  · have hother := ((h.loops p (List.mem_cons_of_mem _ hp)).1.2 d hd).1
    rw [hjoined, Option.some.injEq] at hother
    exact (List.nodup_cons.mp h.apart).1 (List.mem_map.mpr ⟨p, hp, hother.symm⟩)

theorem Sound.turn (h : Sound (s.within r g v (d :: ds))) {x : Deferred} {fired : List Firing}
    (hfired : ∀ y ∈ fired, y.deferred = d)
    (hmark : Mark (within { s with deferreds := s.deferreds.set d x, firings := s.firings ++ fired } r g v ds) d r) :
    Sound (within { s with deferreds := s.deferreds.set d x, firings := s.firings ++ fired } r g v ds) := by
  obtain ⟨hnot, hfetch, hloop⟩ := h.not_elsewhere
  obtain ⟨hl, hreply⟩ := h.loops _ List.mem_cons_self
  have hjoined := (hl.2 d List.mem_cons_self).1
  generalize ht : ({ s with deferreds := s.deferreds.set d x, firings := s.firings ++ fired } : Lookups) = t at hmark ⊢
  have hdeferred {d' : Nat} (hne : d' ≠ d) : t.deferred d' = s.deferred d' := by
    subst ht
    simp [deferred, hne.symm]
  have hfirings {d' : Nat} (hne : d' ≠ d) : t.firingsOf d' = s.firingsOf d' := by
    subst ht
    have hnil : fired.filter (fun y => y.deferred = d') = [] := by
      rw [List.filter_eq_nil_iff]
      intro y hy
      simp [hfired y hy, hne.symm]
    simp [firingsOf, hnil]
  have hline {r' : Nat} {l : List Nat} (hr : Line s r' l) (hd : d ∉ l) : Line t r' l := by
    refine hr.of_eq (fun _ _ => by subst ht; rfl) fun d' hd' => hdeferred ?_
    rintro rfl
    exact hd hd'
  have hjoin : t.joined = s.joined := by subst ht; rfl
  have hreq : t.requests = s.requests := by subst ht; rfl
  have hfet : t.fetches = s.fetches := by subst ht; rfl
  have hrep : t.replies = s.replies := by subst ht; rfl
  have hprop : t.propagations = s.propagations := by subst ht; rfl
  have hdn : t.nextDeferred = s.nextDeferred := by subst ht; rfl
  have hrn : t.nextRequest = s.nextRequest := by subst ht; rfl
  refine ⟨?_, ?_, ?_, fun d' hd' => ?_, ?_, fun g' f hf => ?_, fun p hp => ?_, ?_, fun d' r' hd' => ?_⟩
  · simp only [within, hreq, hfet]
    exact h.entry
  · simp only [within, hreq, hrn, hrep]
    exact h.outstanding
  · simp only [within, hrn, hrep]
    exact h.replied
  · simp only [within, hdn] at hd'
    obtain ⟨hj, hdef, hfir⟩ := h.fresh d' hd'
    have hne : d' ≠ d := by
      rintro rfl
      rw [hjoined] at hj
      cases hj
    refine ⟨by simp only [within, hjoin]; exact hj, ?_, (hfirings hne).trans hfir⟩
    subst ht
    simp [within, hne.symm]
    exact hdef
  · simp only [within, hdn, hjoin]
    exact h.known
  · simp only [within, hfet] at hf
    exact hline (h.waiters g' f hf) (hfetch g' f hf)
  · simp only [within, hprop] at hp
    rcases List.mem_cons.mp hp with rfl | hp
    · obtain ⟨reply, hrp, hv⟩ := hreply
      exact ⟨hline ⟨(List.nodup_cons.mp hl.1).2, fun d' hd' => hl.2 d' (List.mem_cons_of_mem _ hd')⟩ hnot, reply,
        by simp only [within, hrep]; exact hrp, hv⟩
    · obtain ⟨hlp, reply, hrp, hv⟩ := h.loops p (List.mem_cons_of_mem _ hp)
      exact ⟨hline hlp (hloop p hp), reply, by simp only [within, hrep]; exact hrp, hv⟩
  · simp only [within, hprop]
    exact h.apart
  · simp only [within, hjoin] at hd'
    by_cases hne : d' = d
    · subst hne
      have heq : some r = some r' := hjoined.symm.trans hd'
      obtain rfl := Option.some.inj heq
      exact hmark
    · refine (h.marks d' r' hd').of_eq (hdeferred hne) (hfirings hne) ?_ ?_
      · rintro (⟨g', f, hf, hr, hmem⟩ | ⟨p, hp, hr, hmem⟩)
        · exact .inl ⟨g', f, by simp only [within, hfet]; exact hf, hr, hmem⟩
        · rcases List.mem_cons.mp hp with rfl | hp
          · exact .inr ⟨_, List.mem_cons_self, hr, (List.mem_cons.mp hmem).resolve_left hne⟩
          · exact .inr ⟨p, List.mem_cons_of_mem _ (by rw [hprop]; exact hp), hr, hmem⟩
      · intro reply hx
        simp only [within, hrep]
        exact hx

theorem firingsOf_append (s : Lookups) (d : Nat) (x : Firing) (deferreds : Dict Nat Deferred) (hx : x.deferred = d) :
    ({ s with deferreds, firings := s.firings ++ [x] } : Lookups).firingsOf d = s.firingsOf d ++ [x] := by
  simp [firingsOf, hx]

theorem Sound.notify (h : Sound (s.within r g v (d :: ds))) (hcalled : (s.deferred d).called = false) :
    Sound (within (s.fire d (.result r g) v false) r g v ds) := by
  obtain ⟨hl, reply, hreply, hv⟩ := h.loops _ List.mem_cons_self
  have hmark := h.marks d r (hl.2 d List.mem_cons_self).1
  refine h.turn (fun y hy => List.mem_singleton.mp hy ▸ rfl)
    (.inr (.inr ⟨by simp [within, deferred], by simp [within, deferred],
    g, reply, v, s.client, hreply, hv, ?_⟩))
  rcases hmark with ⟨-, hnone, -⟩ | ⟨hc, -⟩ | ⟨hc, -⟩
  · have happend := firingsOf_append s d ⟨d, .result r g, v, s.client⟩ (s.deferreds.set d ⟨true, false⟩) rfl
    rw [show s.firingsOf d = [] from hnone, List.nil_append] at happend
    exact happend
  · exact absurd (hcalled.symm.trans hc) Bool.false_ne_true
  · exact absurd (hcalled.symm.trans hc) Bool.false_ne_true

theorem Sound.skip (h : Sound (s.within r g v (d :: ds))) (hcalled : (s.deferred d).called = true) :
    (s.deferred d).suppressAlreadyCalled = true ∧
      Sound (within { s with deferreds := s.deferreds.set d ⟨true, false⟩ } r g v ds) := by
  obtain ⟨hl, -⟩ := h.loops _ List.mem_cons_self
  obtain ⟨hjoined, hpending⟩ := hl.2 d List.mem_cons_self
  have hsuppress : (s.deferred d).suppressAlreadyCalled = true := hpending hcalled
  refine ⟨hsuppress, ?_⟩
  have hturn := h.turn (x := ⟨true, false⟩) (List.forall_mem_nil _)
  rw [List.append_nil] at hturn
  apply hturn
  rcases h.marks d r hjoined with ⟨hempty, -⟩ | ⟨-, hcancelled⟩ | ⟨-, hno, -⟩
  · have hc : (s.deferred d).called = false := congrArg Deferred.called hempty
    exact absurd (hc.symm.trans hcalled) Bool.false_ne_true
  · exact .inr (.inl ⟨by simp [within, deferred], hcancelled⟩)
  · exact absurd (hno.symm.trans hsuppress) Bool.false_ne_true

theorem Sound.drop (h : Sound (s.within r g v [])) : Sound s := by
  refine ⟨h.entry, h.outstanding, h.replied, h.fresh, h.known, h.waiters,
    fun p hp => h.loops p (List.mem_cons_of_mem _ hp), (List.nodup_cons.mp h.apart).2,
    fun d r' hd => (h.marks d r' hd).of_eq rfl rfl ?_ fun _ => id⟩
  rintro (hfetch | ⟨p, hp, hr, hmem⟩)
  · exact .inl hfetch
  · rcases List.mem_cons.mp hp with rfl | hp
    · cases hmem
    · exact .inr ⟨p, hp, hr, hmem⟩

theorem Sound.propagate (h : Sound (s.within r g v ds)) : Sound (s.propagate r g v ds) := by
  induction ds generalizing s with
  | nil => exact h.drop
  | cons d ds ih =>
    rw [Lookups.propagate]
    cases hcalled : (s.deferred d).called with
    | false =>
      rw [if_neg Bool.false_ne_true]
      exact h.notify hcalled
    | true =>
      obtain ⟨hsuppress, hskip⟩ := h.skip hcalled
      rw [if_pos rfl, if_pos hsuppress]
      exact ih hskip

end Loop

end Lookups

end Client

end Afkak
