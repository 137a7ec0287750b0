import Afkak.BrokerClient.Outcomes

/-!
# What a broker client does to the ids

Only `makeRequest` adds a request. No step changes the id of one.
-/

open Lib

namespace Afkak.Client

open BrokerClient (RequestState Outcome Fired Outstanding UniqueIds queuedBy getResponseCorrelationId)

variable {b b' : BrokerClient.State}

/-- No request is made, and none changes its id. -/
structure KeepsIds (b b' : BrokerClient.State) : Prop where
  nextD : b'.nextD = b.nextD
  ids : ∀ o r', b'.heap.get? o = some r' → ∃ r, b.heap.get? o = some r ∧ r'.correlationId = r.correlationId

theorem KeepsIds.trans {b'' : BrokerClient.State} (h : KeepsIds b b') (h' : KeepsIds b' b'') : KeepsIds b b'' := by
  refine ⟨h'.nextD.trans h.nextD, fun o r'' hr'' => ?_⟩
  obtain ⟨r', hr', heq'⟩ := h'.ids o r'' hr''
  obtain ⟨r, hr, heq⟩ := h.ids o r' hr'
  exact ⟨r, hr, heq'.trans heq⟩

theorem KeepsIds.of_eq (hnext : b'.nextD = b.nextD) (hheap : b'.heap = b.heap) : KeepsIds b b' :=
  ⟨hnext, fun _ r' hr => ⟨r', hheap ▸ hr, rfl⟩⟩

theorem KeepsIds.before {c : BrokerClient.State} (h : KeepsIds c b') (hnext : c.nextD = b.nextD)
    (hheap : c.heap = b.heap) : KeepsIds b b' := (KeepsIds.of_eq hnext hheap).trans h

theorem KeepsIds.after {c : BrokerClient.State} (h : KeepsIds b b') (hnext : c.nextD = b'.nextD)
    (hheap : c.heap = b'.heap) : KeepsIds b c := h.trans (.of_eq hnext hheap)

theorem keepsIds_set {o : Nat} {r q : RequestState} (hr : b.heap.get? o = some r) (hq : q.correlationId = r.correlationId) :
    KeepsIds b { b with heap := b.heap.set o q } := by
  refine ⟨rfl, fun o' r' hr' => ?_⟩
  rw [Dict.get?_set] at hr'
  split at hr'
  · next heq =>
    obtain rfl := Option.some.inj hr'
    exact ⟨r, heq ▸ hr, hq⟩
  · exact ⟨r', hr', rfl⟩

theorem brokerFinish_frame (b : BrokerClient.State) (cid : Int) (d : Nat) (out : Outcome) :
    (BrokerClient.finish b cid d out).1.heap = b.heap ∧ (BrokerClient.finish b cid d out).1.nextD = b.nextD := by
  unfold BrokerClient.finish
  split <;> exact ⟨rfl, rfl⟩

theorem keepsIds_sendRequest {o : Nat} {r : RequestState} (hr : b.heap.get? o = some r) (sendFails : Option Exc) :
    KeepsIds b (BrokerClient.sendRequest b o r sendFails).1 := by
  have hset : KeepsIds b { b with heap := b.heap.set o { r with sent := some b.seconds } } := keepsIds_set hr rfl
  unfold BrokerClient.sendRequest
  dsimp only
  split
  · exact hset.after (brokerFinish_frame ..).2 (brokerFinish_frame ..).1
  · exact hset.after (brokerFinish_frame ..).2 (brokerFinish_frame ..).1
  · split
    · exact hset.after rfl rfl
    · exact hset.after (brokerFinish_frame ..).2 (brokerFinish_frame ..).1

theorem keepsIds_cancel (b : BrokerClient.State) (d : Nat) : KeepsIds b (BrokerClient.cancel b d) := by
  unfold BrokerClient.cancel
  split
  · exact .of_eq rfl rfl
  · split
    · exact .of_eq rfl rfl
    · split
      · exact .of_eq rfl rfl
      · split
        · exact .of_eq rfl rfl
        · next r hr =>
          unfold BrokerClient.cancelRequest BrokerClient.fire
          split
          · exact (keepsIds_set (q := { r with cancelled := some b.seconds }) hr rfl).after rfl rfl
          · exact .of_eq rfl rfl

theorem keepsIds_handleResponse (b : BrokerClient.State) (response : Bytes) :
    KeepsIds b (BrokerClient.handleResponse b response) := by
  unfold BrokerClient.handleResponse
  split
  · exact .of_eq rfl rfl
  · split
    · exact .of_eq rfl rfl
    · dsimp only
      split
      · exact .of_eq rfl rfl
      · split <;> exact .of_eq rfl rfl

theorem keepsIds_markUnsent (b : BrokerClient.State) : KeepsIds b (BrokerClient.markUnsent b) := by
  refine ⟨rfl, fun o r' hr' => ?_⟩
  simp only [BrokerClient.markUnsent, Dict.get?_mapValues, Option.map_eq_some_iff] at hr'
  obtain ⟨r, hr, rfl⟩ := hr'
  refine ⟨r, hr, ?_⟩
  split <;> rfl

theorem keepsIds_connectionLost (b : BrokerClient.State) : KeepsIds b (BrokerClient.connectionLost b) := by
  have hmark : KeepsIds b (BrokerClient.markUnsent { b with proto := none }) :=
    (keepsIds_markUnsent { b with proto := none }).before rfl rfl
  unfold BrokerClient.connectionLost
  dsimp only
  split
  · exact hmark.after rfl rfl
  · split
    · exact hmark
    · exact hmark.after rfl rfl

theorem keepsIds_flushRound (b : BrokerClient.State) (o : Nat) (rest : List Nat) (below : List BrokerClient.Frame)
    (sendFails : Option Exc) : KeepsIds b (BrokerClient.flushRound b o rest below sendFails) := by
  have hstack : KeepsIds b { b with stack := .flush rest :: below } := .of_eq rfl rfl
  unfold BrokerClient.flushRound
  dsimp only
  split
  · exact hstack
  · next r hr =>
    split
    · exact hstack
    · have hsend := hstack.trans (keepsIds_sendRequest (b := { b with stack := .flush rest :: below }) hr sendFails)
      split
      · next t heq =>
        rw [heq] at hsend
        exact hsend
      · next t e heq =>
        rw [heq] at hsend
        refine hsend.trans ?_
        unfold BrokerClient.ebConnect
        split <;> exact .of_eq rfl rfl

theorem keepsIds_closeRound (b : BrokerClient.State) (below : List BrokerClient.Frame) :
    KeepsIds b (BrokerClient.closeRound b below) := by
  unfold BrokerClient.closeRound
  split
  · exact .of_eq rfl rfl
  · dsimp only
    split
    · exact .of_eq rfl rfl
    · split
      · exact .of_eq rfl rfl
      · unfold BrokerClient.fire
        split
        · next heq =>
          obtain ⟨rfl, -⟩ := Prod.mk.inj heq
          exact .of_eq rfl rfl
        · next heq =>
          obtain ⟨rfl, -⟩ := Prod.mk.inj heq
          exact .of_eq rfl rfl

theorem keepsIds_close (b : BrokerClient.State) (connects : Bool) : KeepsIds b (BrokerClient.close b connects) := by
  unfold BrokerClient.close
  split
  · exact .of_eq rfl rfl
  · next hdown =>
    obtain ⟨hsame, -⟩ := BrokerClient.sameLoops_closeConnection { b with dDown := some 0 } connects (by simp)
    exact .of_eq hsame.nextD hsame.heap

theorem keepsIds_step {e : BrokerClient.Event} (h : BrokerClient.step b e = some b')
    (hnew : ∀ cid request expectResponse sendFails, e ≠ .makeRequest cid request expectResponse sendFails) :
    KeepsIds b b' := by
  cases BrokerClient.takes_of_step h with
  | advance => exact .of_eq rfl rfl
  | makeRequest cid request expectResponse sendFails => exact absurd rfl (hnew cid request expectResponse sendFails)
  | cancel d => exact keepsIds_cancel b d
  | disconnect =>
    unfold BrokerClient.disconnect
    split <;> exact .of_eq rfl rfl
  | close connects => exact keepsIds_close b connects
  | connectionMade k =>
    unfold BrokerClient.cbConnect
    dsimp only
    split <;> exact .of_eq rfl rfl
  | connectFailed k =>
    unfold BrokerClient.ebConnect
    split <;> exact .of_eq rfl rfl
  | delayElapsed k => exact .of_eq rfl rfl
  | connectionLost c => exact (keepsIds_connectionLost _).before rfl rfl
  | stringReceived c response => exact keepsIds_handleResponse b response
  | flushed => exact .of_eq rfl rfl
  | flush sendFails o rest below => exact keepsIds_flushRound b o rest below sendFails
  | closing sendFails below => exact keepsIds_closeRound b below

theorem ids_makeRequest {cid : Int} (hnew : b.requests.get? cid = none) (request : Bytes) (expectResponse : Bool)
    (sendFails : Option Exc) :
    (BrokerClient.makeRequest b cid request expectResponse sendFails).nextD = b.nextD + 1 ∧
      ∀ o r', (BrokerClient.makeRequest b cid request expectResponse sendFails).heap.get? o = some r' →
        (o = b.nextD ∧ r'.correlationId = cid) ∨ ∃ r, b.heap.get? o = some r ∧ r'.correlationId = r.correlationId := by
  let r0 : RequestState := ⟨cid, request, expectResponse, b.seconds, none, none⟩
  have henqueue (o : Nat) (r' : RequestState) (hr' : (BrokerClient.enqueue b r0).heap.get? o = some r') :
      (o = b.nextD ∧ r'.correlationId = cid) ∨ ∃ r, b.heap.get? o = some r ∧ r'.correlationId = r.correlationId := by
    simp only [BrokerClient.enqueue, Dict.get?_set] at hr'
    split at hr'
    · next heq =>
      obtain rfl := Option.some.inj hr'
      exact .inl ⟨heq.symm, rfl⟩
    · exact .inr ⟨r', hr', rfl⟩
  have hkeeps {t : BrokerClient.State} (h : KeepsIds (BrokerClient.enqueue b r0) t) :
      t.nextD = b.nextD + 1 ∧ ∀ o r', t.heap.get? o = some r' →
        (o = b.nextD ∧ r'.correlationId = cid) ∨ ∃ r, b.heap.get? o = some r ∧ r'.correlationId = r.correlationId := by
    refine ⟨h.nextD, fun o r' hr' => ?_⟩
    obtain ⟨r, hr, heq⟩ := h.ids o r' hr'
    rw [heq]
    exact henqueue o r hr
  unfold BrokerClient.makeRequest
  rw [if_neg (by simp [hnew])]
  split
  · exact ⟨rfl, fun o r' hr' => .inr ⟨r', hr', rfl⟩⟩
  · dsimp only
    split
    · exact hkeeps (keepsIds_sendRequest (o := b.nextD) (r := r0) (by simp [BrokerClient.enqueue]) sendFails)
    · split
      · exact hkeeps (.of_eq rfl rfl)
      · exact hkeeps (.of_eq rfl rfl)

end Afkak.Client
