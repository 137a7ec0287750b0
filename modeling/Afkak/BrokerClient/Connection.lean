import Afkak.BrokerClient

/-!
# No request waits in vain

An open client with requests in its table is connected, or its `connector` has yet to fire and goes on from
there. An endpoint that answers at once gives the answer as the next event: an attempt begins only where no loop
is running, so that nothing comes in between.
-/

open Lib

namespace Afkak.BrokerClient

/-! ## The connector -/

structure Connecting (s : State) : Prop where
  fresh : ∀ x ∈ s.pending, x.1 < s.nextConnector
  connector : s.dDown = none → ∀ k, s.connector = some k → (s.pending.lookup k).isSome
  live : ∀ c, s.proto = some c → c ∈ s.live
  /-- Only the flush of a connection that is up runs on an open client. -/
  flushing : s.dDown = none → s.stack ≠ [] → s.proto.isSome
  served : s.dDown = none → s.requests.entries ≠ [] → s.proto.isSome ∨ s.connector.isSome

structure SameConnection (s t : State) : Prop where
  pending : t.pending = s.pending
  nextConnector : t.nextConnector = s.nextConnector
  connector : t.connector = s.connector
  live : t.live = s.live
  proto : t.proto = s.proto
  dDown : t.dDown = s.dDown

theorem Connecting.same {s t : State} (h : Connecting s) (hc : SameConnection s t)
    (hstack : t.stack ≠ [] → s.stack ≠ []) (hreq : t.requests.entries ≠ [] → s.requests.entries ≠ []) :
    Connecting t where
  fresh := by
    rw [hc.pending, hc.nextConnector]
    exact h.fresh
  connector := by
    rw [hc.dDown, hc.connector, hc.pending]
    exact h.connector
  live := by
    rw [hc.proto, hc.live]
    exact h.live
  flushing hd hs := by
    rw [hc.proto]
    exact h.flushing (hc.dDown ▸ hd) (hstack hs)
  served hd hr := by
    rw [hc.proto, hc.connector]
    exact h.served (hc.dDown ▸ hd) (hreq hr)

theorem connecting_closed {s : State} (hfresh : ∀ x ∈ s.pending, x.1 < s.nextConnector)
    (hlive : ∀ c, s.proto = some c → c ∈ s.live) (hd : s.dDown ≠ none) : Connecting s :=
  ⟨hfresh, fun h => absurd h hd, hlive, fun h => absurd h hd, fun h => absurd h hd⟩

theorem lookup_pending_new {pending : List (Nat × Pending)} {n : Nat} (h : ∀ x ∈ pending, x.1 < n) (kind : Pending) :
    (pending ++ [(n, kind)]).lookup n = some kind := by
  rw [List.lookup_append]
  have hnone : pending.lookup n = none := by
    apply List.lookup_eq_none_iff.mpr
    intro x hx
    have := h x hx
    simpa using Nat.ne_of_gt this
  simp [hnone]

theorem connecting_begin {s t : State} (kind : Pending) (hfresh : ∀ x ∈ s.pending, x.1 < s.nextConnector)
    (hlive : ∀ c, s.proto = some c → c ∈ s.live) (hflush : s.dDown = none → s.stack ≠ [] → s.proto.isSome)
    (hpending : t.pending = s.pending ++ [(s.nextConnector, kind)]) (hnext : t.nextConnector = s.nextConnector + 1)
    (hconn : t.connector = some s.nextConnector) (hl : t.live = s.live) (hp : t.proto = s.proto)
    (hd : t.dDown = s.dDown) (hs : t.stack = s.stack) : Connecting t where
  fresh := by
    rw [hpending, hnext]
    intro x hx
    rcases List.mem_append.mp hx with hx | hx
    · have := hfresh x hx
      omega
    · simp only [List.mem_singleton] at hx
      subst hx
      simp
  connector := by
    intro _ k hk
    rw [hconn, Option.some.injEq] at hk
    subst hk
    rw [hpending, lookup_pending_new hfresh]
    rfl
  live := by
    rw [hp, hl]
    exact hlive
  flushing := by
    rw [hd, hs, hp]
    exact hflush
  served _ _ := .inr (by rw [hconn]; rfl)

theorem connecting_connect {s : State} (hfresh : ∀ x ∈ s.pending, x.1 < s.nextConnector)
    (hlive : ∀ c, s.proto = some c → c ∈ s.live) (hflush : s.dDown = none → s.stack ≠ [] → s.proto.isSome) :
    Connecting (connect s) :=
  connecting_begin .attempting hfresh hlive hflush rfl rfl rfl rfl rfl rfl rfl

theorem connecting_ebConnect {s : State} (hfresh : ∀ x ∈ s.pending, x.1 < s.nextConnector)
    (hlive : ∀ c, s.proto = some c → c ∈ s.live) (hflush : s.dDown = none → s.stack ≠ [] → s.proto.isSome) :
    Connecting (ebConnect s) := by
  unfold ebConnect
  split
  · next hd => exact connecting_closed hfresh hlive (Option.isSome_iff_ne_none.mp hd)
  · exact connecting_begin .delaying hfresh hlive hflush rfl rfl rfl rfl rfl rfl rfl

/-! ## One step -/

theorem entries_erase_ne_nil {d : Dict Int Nat} {k : Int} (h : (d.erase k).entries ≠ []) : d.entries ≠ [] := by
  intro hnil
  apply h
  simp [Dict.erase, hnil]

structure Settled (s t : State) : Prop extends SameConnection s t where
  stack : t.stack = s.stack
  requests : t.requests.entries ≠ [] → s.requests.entries ≠ []

theorem settled_finish (s : State) (cid : Int) (d : Nat) (out : Outcome) : Settled s (finish s cid d out).1 := by
  unfold finish
  split
  · exact ⟨⟨rfl, rfl, rfl, rfl, rfl, rfl⟩, rfl, id⟩
  · exact ⟨⟨rfl, rfl, rfl, rfl, rfl, rfl⟩, rfl, entries_erase_ne_nil⟩

theorem Settled.of_sent {s t : State} {heap : Dict Nat RequestState} {written : List (Nat × Nat)}
    (h : Settled { s with heap := heap, written := written } t) : Settled s t :=
  ⟨⟨h.pending, h.nextConnector, h.connector, h.live, h.proto, h.dDown⟩, h.stack, h.requests⟩

theorem settled_sendRequest (s : State) (o : Nat) (r : RequestState) (sendFails : Option Exc) :
    Settled s (sendRequest s o r sendFails).1 := by
  unfold sendRequest
  simp only
  split
  · exact .of_sent (settled_finish _ _ _ _)
  · exact .of_sent (settled_finish _ _ _ _)
  · split
    · exact ⟨⟨rfl, rfl, rfl, rfl, rfl, rfl⟩, rfl, id⟩
    · exact .of_sent (settled_finish _ _ _ _)

theorem Connecting.settled {s t : State} (h : Connecting s) (ht : Settled s t) : Connecting t :=
  h.same ht.toSameConnection (fun hs => ht.stack ▸ hs) ht.requests

theorem connecting_makeRequest {s : State} (h : Connecting s) (cid : Int) (request : Bytes) (expectResponse : Bool)
    (sendFails : Option Exc) : Connecting (makeRequest s cid request expectResponse sendFails) := by
  unfold makeRequest
  split
  · exact h
  · split
    · exact h.same ⟨rfl, rfl, rfl, rfl, rfl, rfl⟩ id id
    · simp only
      split
      · next hproto =>
        refine .settled ?_ (settled_sendRequest _ _ _ _)
        exact ⟨h.fresh, h.connector, h.live, h.flushing, fun _ _ => .inl hproto⟩
      · split
        · exact connecting_connect h.fresh h.live h.flushing
        · next hconn =>
          refine ⟨h.fresh, h.connector, h.live, h.flushing, fun _ _ => .inr ?_⟩
          simpa [Option.isSome_iff_ne_none] using hconn

theorem connecting_cancel {s : State} (h : Connecting s) (d : Nat) : Connecting (cancel s d) := by
  unfold cancel
  split
  · exact h
  · split
    · exact h
    · split
      · exact h
      · split
        · exact h
        · unfold cancelRequest
          split
          · exact h.same ⟨rfl, rfl, rfl, rfl, rfl, rfl⟩ id id
          · exact h.same ⟨rfl, rfl, rfl, rfl, rfl, rfl⟩ id entries_erase_ne_nil

theorem connecting_handleResponse {s : State} (h : Connecting s) (response : Bytes) :
    Connecting (handleResponse s response) := by
  unfold handleResponse
  split
  · exact h
  · split
    · exact h
    · simp only
      split
      · exact h.same ⟨rfl, rfl, rfl, rfl, rfl, rfl⟩ id entries_erase_ne_nil
      · split
        · exact h.same ⟨rfl, rfl, rfl, rfl, rfl, rfl⟩ id entries_erase_ne_nil
        · exact h.same ⟨rfl, rfl, rfl, rfl, rfl, rfl⟩ id entries_erase_ne_nil

theorem mem_filter_pending {s : State} (h : Connecting s) (k : Nat) :
    ∀ x ∈ s.pending.filter (fun p => p.1 ≠ k), x.1 < s.nextConnector :=
  fun x hx => h.fresh x (List.mem_of_mem_filter hx)

theorem connecting_setProto {s : State} (hfresh : ∀ x ∈ s.pending, x.1 < s.nextConnector) (stack : List Frame)
    (losing : List Nat) : Connecting { setProto s with stack := stack, losing := losing } := by
  refine ⟨hfresh, ?_, ?_, ?_, ?_⟩
  · intro _ k hk
    simp [setProto] at hk
  · intro c hc
    simp only [setProto, Option.some.injEq] at hc
    simp [setProto, hc]
  · intro _ _
    simp [setProto]
  · intro _ _
    simp [setProto]

theorem connecting_cbConnect {s : State} (hfresh : ∀ x ∈ s.pending, x.1 < s.nextConnector) :
    Connecting (cbConnect s) := by
  unfold cbConnect
  simp only
  split
  · exact connecting_setProto hfresh _ _
  · exact connecting_setProto hfresh _ _

theorem connecting_closeConnection {s : State} (h : Connecting s) (connects : Bool) (hd : s.dDown ≠ none)
    (stack : List Frame) : Connecting { closeConnection s connects with stack := stack } := by
  unfold closeConnection
  split
  · exact connecting_closed h.fresh h.live hd
  · exact connecting_closed h.fresh h.live (by simpa [fireDown] using hd)
  · next k hproto hconn =>
    split
    · exact connecting_closed h.fresh h.live hd
    · simp only
      split
      · have hcb := connecting_cbConnect (s := { s with pending := s.pending.filter fun p => p.1 ≠ k })
          (mem_filter_pending h k)
        exact connecting_closed hcb.fresh hcb.live (by unfold cbConnect; split <;> exact hd)
      · exact connecting_closed (mem_filter_pending h k) h.live (by simpa [fireDown] using hd)

theorem connecting_close {s : State} (h : Connecting s) (connects : Bool) : Connecting (close s connects) := by
  unfold close
  split
  · exact h
  · have hdown : Connecting { s with dDown := some 0 } := connecting_closed h.fresh h.live (by simp)
    exact connecting_closeConnection hdown connects (by simp) _

theorem connecting_connectionLost {s : State} (h : Connecting s) (live : List Nat) (hstack : s.stack = []) :
    Connecting (connectionLost { s with live := live }) := by
  have hflush : s.dDown = none → s.stack ≠ [] → (none : Option Nat).isSome := fun _ hs => absurd hstack hs
  unfold connectionLost
  simp only
  split
  · next hd =>
    refine connecting_closed h.fresh (by simp [fireDown, markUnsent]) ?_
    simpa [fireDown, markUnsent, Option.isSome_iff_ne_none] using hd
  · split
    · next hnil =>
      have hconn := h.connector
      refine ⟨h.fresh, hconn, by simp [markUnsent], hflush, fun _ hreq => absurd hnil hreq⟩
    · exact connecting_connect h.fresh (by simp [markUnsent]) hflush

theorem connecting_flushRound {s : State} (h : Connecting s) {o : Nat} {rest : List Nat} {below : List Frame}
    (hstack : s.stack = .flush (o :: rest) :: below) (sendFails : Option Exc) :
    Connecting (flushRound s o rest below sendFails) := by
  have hnext : Connecting { s with stack := .flush rest :: below } :=
    h.same ⟨rfl, rfl, rfl, rfl, rfl, rfl⟩ (by simp [hstack]) id
  unfold flushRound
  simp only
  split
  · exact hnext
  · split
    · exact hnext
    · next r _ _ =>
      have hsent := settled_sendRequest { s with stack := .flush rest :: below } o r sendFails
      have hconn := hnext.settled hsent
      split
      · next t heq =>
        rw [heq] at hconn
        exact hconn
      · next t e heq =>
        -- The exception ends the loop; the connection is still there.
        rw [heq] at hconn hsent
        refine connecting_ebConnect hconn.fresh hconn.live fun hd _ => hconn.flushing hd ?_
        rw [hsent.stack]
        simp

theorem connecting_closeRound {s : State} (h : Connecting s) {below : List Frame} (hstack : s.stack = .close :: below) :
    Connecting (closeRound s below) := by
  have hpop : below ≠ [] → s.stack ≠ [] := by simp [hstack]
  unfold closeRound
  split
  · exact h.same ⟨rfl, rfl, rfl, rfl, rfl, rfl⟩ hpop id
  · simp only
    split
    · exact h.same ⟨rfl, rfl, rfl, rfl, rfl, rfl⟩ id entries_erase_ne_nil
    · split
      · exact h.same ⟨rfl, rfl, rfl, rfl, rfl, rfl⟩ id entries_erase_ne_nil
      · unfold fire
        simp only
        split
        · next t heq =>
          simp only [Prod.mk.injEq] at heq
          obtain ⟨rfl, -⟩ := heq
          exact h.same ⟨rfl, rfl, rfl, rfl, rfl, rfl⟩ id entries_erase_ne_nil
        · next t e heq =>
          simp only [Prod.mk.injEq] at heq
          obtain ⟨rfl, -⟩ := heq
          exact h.same ⟨rfl, rfl, rfl, rfl, rfl, rfl⟩ hpop entries_erase_ne_nil

theorem connecting_step {s t : State} {e : Event} (h : Connecting s) (hstep : step s e = some t) : Connecting t := by
  cases takes_of_step hstep with
  | advance => exact h.same ⟨rfl, rfl, rfl, rfl, rfl, rfl⟩ id id
  | makeRequest cid request expectResponse sendFails =>
    exact connecting_makeRequest h cid request expectResponse sendFails
  | cancel d hd => exact connecting_cancel h d
  | disconnect =>
    unfold disconnect
    split
    · exact h.same ⟨rfl, rfl, rfl, rfl, rfl, rfl⟩ id id
    · exact h
  | close connects => exact connecting_close h connects
  | connectionMade k hstack hk => exact connecting_cbConnect (mem_filter_pending h k)
  | connectFailed k hstack hk => exact connecting_ebConnect (mem_filter_pending h k) h.live h.flushing
  | delayElapsed k hstack hk =>
    exact connecting_begin (s := { s with pending := s.pending.filter fun p => p.1 ≠ k }) .attempting
      (mem_filter_pending h k) h.live h.flushing rfl rfl rfl rfl rfl rfl rfl
  | connectionLost c hstack hc => exact connecting_connectionLost h _ hstack
  | stringReceived c response hstack hc => exact connecting_handleResponse h response
  | flushed sendFails below hstack => exact h.same ⟨rfl, rfl, rfl, rfl, rfl, rfl⟩ (by simp [hstack]) id
  | flush sendFails o rest below hstack => exact connecting_flushRound h hstack sendFails
  | closing sendFails below hstack => exact connecting_closeRound h hstack

theorem connecting_init : Connecting init where
  fresh := by simp [init]
  connector := by simp [init]
  live := by simp [init]
  flushing := by simp [init]
  served := by simp [init, Dict.empty]

/-! ## The connect loop goes on -/

/-- However `k` fires, there is a connection, a delay or a new attempt in the state that follows. -/
def Leads (s : State) (k : Nat) : Prop :=
  match s.pending.lookup k with
  | some .attempting =>
    (∃ t c, step s (.connectionMade k) = some t ∧ t.proto = some c ∧ c ∈ t.live) ∧
    ∃ t j, step s (.connectFailed k) = some t ∧ t.connector = some j ∧ t.pending.lookup j = some .delaying
  | some .delaying =>
    ∃ t j, step s (.delayElapsed k) = some t ∧ t.connector = some j ∧ t.pending.lookup j = some .attempting
  | none => False

theorem leads_of_pending {s : State} (h : Connecting s) (hopen : s.dDown = none) (hstack : s.stack = []) {k : Nat}
    (hk : (s.pending.lookup k).isSome) : Leads s k := by
  have hnew := lookup_pending_new (mem_filter_pending h k)
  unfold Leads
  cases hkind : s.pending.lookup k with
  | none => simp [hkind] at hk
  | some kind =>
    cases kind with
    | attempting =>
      refine ⟨⟨_, s.nextConnection, if_pos ⟨hstack, hkind⟩, ?_, ?_⟩,
        ⟨_, s.nextConnector, if_pos ⟨hstack, hkind⟩, ?_, ?_⟩⟩
      · simp [cbConnect, setProto, hopen]
      · simp [cbConnect, setProto, hopen]
      · simp [ebConnect, hopen]
      · simp only [ebConnect, hopen]
        exact hnew .delaying
    | delaying =>
      refine ⟨_, s.nextConnector, if_pos ⟨hstack, hkind⟩, rfl, ?_⟩
      exact hnew .attempting

/-- Every entry of the table of an open client, cancelled or not, has a connection, or a connector that leads
to one. -/
theorem request_not_stranded (es : List Event) (s : State) (hrun : Machine.run step init es = some s)
    (hopen : s.dDown = none) (cid : Int) (o : Nat) (htable : s.requests.get? cid = some o) :
    (∃ c, s.proto = some c ∧ c ∈ s.live) ∨ ∃ k, s.connector = some k ∧ Leads s k := by
  have h : Connecting s :=
    Machine.run_invariant_all step Connecting
    (fun _ _ _ hs hstep => connecting_step hs hstep) es init s connecting_init hrun
  have hne : s.requests.entries ≠ [] := by
    intro hnil
    have hmem := (Dict.get?_eq_some_iff _ _ _).mp htable
    simp [hnil] at hmem
  cases hproto : s.proto with
  | some c => exact .inl ⟨c, rfl, h.live c hproto⟩
  | none =>
    right
    obtain ⟨k, hk⟩ := Option.isSome_iff_exists.mp ((h.served hopen hne).resolve_left (by simp [hproto]))
    have hstack : s.stack = [] := by
      by_contra hs
      simpa [hproto] using h.flushing hopen hs
    exact ⟨k, hk, leads_of_pending h hopen hstack (h.connector hopen k hk)⟩

def unluckyRun : List Event :=
  [.makeRequest 7 [0, 3] true none, .connectFailed 0, .delayElapsed 1, .connectFailed 2, .delayElapsed 3,
    .connectionMade 4, .resume none, .resume none, .connectionLost 0]

theorem unluckyRun_not_stranded : ∃ s, Machine.run step init unluckyRun = some s ∧ s.proto = none ∧
    ((∃ c, s.proto = some c ∧ c ∈ s.live) ∨ ∃ k, s.connector = some k ∧ Leads s k) := by
  refine ⟨_, rfl, rfl, ?_⟩
  exact request_not_stranded unluckyRun _ rfl rfl 7 0 rfl

end Afkak.BrokerClient
