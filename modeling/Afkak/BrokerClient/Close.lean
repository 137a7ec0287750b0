import Afkak.BrokerClient.Flush

/-!
# `close` completes once

`_dDown` may be fired by `close` itself, by the errback it adds to the connection attempt, or by the loss of the
connection. Which of them it is follows from where the connection stands, and after `close` no new attempt begins:
`_dDown` has been fired, once, exactly when there is no connection left.
-/

open Lib

namespace Afkak.BrokerClient

/-- How far the close has come: the attempts are over, none has begun since there were `n`, and `_dDown` has been
fired once or waits for the one connection to be lost. -/
structure Closed (n : Nat) (s : State) : Prop where
  dDown : s.dDown = some (if s.live = [] then 1 else 0)
  pending : s.pending = []
  nextConnector : s.nextConnector = n

theorem Closed.same {n : Nat} {s t : State} (h : Closed n s) (hc : SameConnection s t) : Closed n t where
  dDown := by
    rw [hc.dDown, hc.live]
    exact h.dDown
  pending := hc.pending.trans h.pending
  nextConnector := hc.nextConnector.trans h.nextConnector

theorem Closed.isSome {n : Nat} {s : State} (h : Closed n s) : s.dDown.isSome := by
  rw [h.dDown]
  rfl

theorem Closed.lookup {n : Nat} {s : State} (h : Closed n s) (k : Nat) : s.pending.lookup k = none := by
  rw [h.pending]
  rfl

/-! ## The call -/

theorem closed_close {s : State} (h : Flushing s) (hconn : Connecting s) (hopen : s.dDown = none) (connects : Bool) :
    Closed s.nextConnector (close s connects) := by
  have hlive := h.live
  unfold close closeConnection
  rw [if_neg (by simp [hopen])]
  simp only
  split
  · next c k hproto =>
    have hpending : s.pending = [] := h.pending.resolve_right (by simp [hproto])
    exact ⟨by simp [loseConnection, hlive, hproto], hpending, rfl⟩
  · next hproto hconnector =>
    have hpending : s.pending = [] := h.pending.resolve_right (by simp [hconnector])
    exact ⟨by simp [fireDown, hlive, hproto], hpending, rfl⟩
  · next k hproto hconnector =>
    obtain ⟨kind, hk⟩ := Option.isSome_iff_exists.mp (hconn.connector hopen k hconnector)
    have hpending := (h.lookup hk).1
    rw [hk]
    simp only
    split
    · -- The attempt ends with a connection, which is told to close.
      exact ⟨by simp [cbConnect, loseConnection, setProto], by simpa [cbConnect, loseConnection, setProto] using hpending,
        by simp [cbConnect, loseConnection, setProto]⟩
    · exact ⟨by simp [fireDown, hlive, hproto], by simpa [fireDown] using hpending, rfl⟩

/-! ## What can happen after it -/

theorem sameConnection_cancel (s : State) (d : Nat) : SameConnection s (cancel s d) := by
  unfold cancel
  split
  · exact ⟨rfl, rfl, rfl, rfl, rfl, rfl⟩
  · split
    · exact ⟨rfl, rfl, rfl, rfl, rfl, rfl⟩
    · split
      · exact ⟨rfl, rfl, rfl, rfl, rfl, rfl⟩
      · split
        · exact ⟨rfl, rfl, rfl, rfl, rfl, rfl⟩
        · unfold cancelRequest
          split
          · exact ⟨rfl, rfl, rfl, rfl, rfl, rfl⟩
          · exact ⟨rfl, rfl, rfl, rfl, rfl, rfl⟩

theorem sameConnection_handleResponse (s : State) (response : Bytes) :
    SameConnection s (handleResponse s response) := by
  unfold handleResponse
  split
  · exact ⟨rfl, rfl, rfl, rfl, rfl, rfl⟩
  · split
    · exact ⟨rfl, rfl, rfl, rfl, rfl, rfl⟩
    · simp only
      split
      · exact ⟨rfl, rfl, rfl, rfl, rfl, rfl⟩
      · split
        · exact ⟨rfl, rfl, rfl, rfl, rfl, rfl⟩
        · exact ⟨rfl, rfl, rfl, rfl, rfl, rfl⟩

theorem sameConnection_closeRound (s : State) (below : List Frame) : SameConnection s (closeRound s below) := by
  unfold closeRound
  split
  · exact ⟨rfl, rfl, rfl, rfl, rfl, rfl⟩
  · simp only
    split
    · exact ⟨rfl, rfl, rfl, rfl, rfl, rfl⟩
    · split
      · exact ⟨rfl, rfl, rfl, rfl, rfl, rfl⟩
      · split
        · next heq =>
          obtain ⟨rfl, -⟩ := Prod.mk.inj heq
          exact ⟨rfl, rfl, rfl, rfl, rfl, rfl⟩
        · next heq =>
          obtain ⟨rfl, -⟩ := Prod.mk.inj heq
          exact ⟨rfl, rfl, rfl, rfl, rfl, rfl⟩

theorem makeRequest_closed {s : State} (hd : s.dDown.isSome) (cid : Int) (request : Bytes) (expectResponse : Bool)
    (sendFails : Option Exc) (hnew : s.requests.get? cid = none) :
    makeRequest s cid request expectResponse sendFails =
      { s with nextD := s.nextD + 1, calls := s.calls ++ [(s.nextD, .failed .clientError)] } := by
  rw [makeRequest, if_neg (by simp [hnew]), if_pos hd]
  rfl

theorem sameConnection_makeRequest_closed {s : State} (hd : s.dDown.isSome) (cid : Int) (request : Bytes)
    (expectResponse : Bool) (sendFails : Option Exc) :
    SameConnection s (makeRequest s cid request expectResponse sendFails) := by
  unfold makeRequest
  split
  · exact ⟨rfl, rfl, rfl, rfl, rfl, rfl⟩
  · exact ⟨rfl, rfl, rfl, rfl, rfl, rfl⟩

theorem closed_connectionLost {n c : Nat} {s : State} (h : Flushing s) (hclosed : Closed n s) (hc : c ∈ s.live) :
    Closed n (connectionLost { s with live := s.live.filter (· ≠ c) }) := by
  have hlive : s.live = [c] := by
    rw [h.live] at hc ⊢
    simp only [Option.mem_toList] at hc
    simp [hc]
  have hdown : s.dDown = some 0 := by simp [hclosed.dDown, hlive]
  unfold connectionLost
  rw [if_pos (by simp [hdown])]
  exact ⟨by simp [fireDown, markUnsent, hdown, hlive], hclosed.pending, hclosed.nextConnector⟩

theorem closed_step {n : Nat} {s t : State} {e : Event} (h : Flushing s) (hclosed : Closed n s)
    (hstep : step s e = some t) : Closed n t := by
  have hd := hclosed.isSome
  have hnone (k : Nat) (stage : Pending) : s.pending.lookup k ≠ some stage := by simp [hclosed.lookup k]
  cases takes_of_step hstep with
  | advance => exact hclosed.same ⟨rfl, rfl, rfl, rfl, rfl, rfl⟩
  | makeRequest cid request expectResponse sendFails =>
    exact hclosed.same (sameConnection_makeRequest_closed hd cid request expectResponse sendFails)
  | cancel d hlt => exact hclosed.same (sameConnection_cancel s d)
  | disconnect =>
    unfold disconnect
    split
    · exact hclosed.same ⟨rfl, rfl, rfl, rfl, rfl, rfl⟩
    · exact hclosed
  | close connects =>
    rw [close, if_pos hd]
    exact hclosed
  | connectionMade k hstack hk => exact absurd hk (hnone k _)
  | connectFailed k hstack hk => exact absurd hk (hnone k _)
  | delayElapsed k hstack hk => exact absurd hk (hnone k _)
  | connectionLost c hstack hc => exact closed_connectionLost h hclosed hc
  | stringReceived c response hstack hc => exact hclosed.same (sameConnection_handleResponse s response)
  | flushed => exact hclosed.same ⟨rfl, rfl, rfl, rfl, rfl, rfl⟩
  | flush sendFails o rest below hstack =>
    -- A flush that has something left to write runs on an open client only.
    have hup := (h.up (by simp [hstack, queuedBy])).2
    simp [hup] at hd
  | closing => exact hclosed.same (sameConnection_closeRound s _)

/-! ## The whole run -/

structure CloseCompletes (s t : State) : Prop where
  /-- At most once, and not before the attempt has ended and the connection is lost; and then it is. -/
  fired : t.dDown = some (if t.pending = [] ∧ t.live = [] then 1 else 0)
  noReconnect : t.nextConnector = s.nextConnector
  refuses : ∀ cid request expectResponse sendFails, t.requests.get? cid = none →
    step t (.makeRequest cid request expectResponse sendFails) =
      some { t with nextD := t.nextD + 1, calls := t.calls ++ [(t.nextD, .failed .clientError)] }

theorem close_completes_once (es fs : List Event) (connects : Bool) (s t : State)
    (hok : Machine.RunOk step SparesQueue init (es ++ .close connects :: fs))
    (hs : Machine.run step init es = some s) (hopen : s.dDown = none)
    (ht : Machine.run step s (.close connects :: fs) = some t) : CloseCompletes s t := by
  obtain ⟨hok₁, hok₂⟩ := Machine.runOk_append step hok hs
  obtain ⟨hflush, hconn⟩ : Flushing s ∧ Connecting s := by
    refine Machine.run_invariant step SparesQueue (fun u => Flushing u ∧ Connecting u) ?_ es init s
      ⟨flushing_init, connecting_init⟩ hok₁ hs
    intro u e v hu hspare hstep
    exact ⟨(flushing_step hu.1 hspare hstep).1, connecting_step hu.2 hstep⟩
  rw [Machine.run_cons, Option.bind_eq_some_iff] at ht
  obtain ⟨u, hu, ht⟩ := ht
  obtain rfl : close s connects = u := Option.some.inj hu
  obtain ⟨-, hclosed⟩ : Flushing t ∧ Closed s.nextConnector t := by
    refine Machine.run_invariant step SparesQueue (fun v => Flushing v ∧ Closed s.nextConnector v) ?_ fs _ t
      ⟨(flushing_step hflush hok₂.1 rfl).1, closed_close hflush hconn hopen connects⟩ (hok₂.2 _ rfl) ht
    intro v e w hv hspare hstep
    exact ⟨(flushing_step hv.1 hspare hstep).1, closed_step hv.1 hv.2 hstep⟩
  refine ⟨?_, hclosed.nextConnector, ?_⟩
  · rw [hclosed.dDown]
    simp [hclosed.pending]
  · intro cid request expectResponse sendFails hnew
    rw [step, makeRequest_closed hclosed.isSome cid request expectResponse sendFails hnew]

/-- The client is closed while it connects, and the attempt ends with a connection in spite of the cancellation; a
request is made after that, and then the connection is lost. -/
def closeConnecting : List Event :=
  [.resume none, .resume none, .makeRequest 2 [0, 1] true none, .connectionLost 0]

theorem closeConnecting_completes : ∃ s t, Machine.run step init [.makeRequest 1 [0, 0] true none] = some s ∧
    Machine.run step s (.close true :: closeConnecting) = some t ∧ t.dDown = some 1 ∧
    t.calls = [(0, .failed .clientError), (1, .failed .clientError)] ∧ CloseCompletes s t := by
  refine ⟨_, _, rfl, rfl, rfl, rfl, ?_⟩
  exact close_completes_once [.makeRequest 1 [0, 0] true none] closeConnecting true _ _ (by decide) rfl rfl rfl

end Afkak.BrokerClient
