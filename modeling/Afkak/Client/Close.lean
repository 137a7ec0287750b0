import Afkak.BrokerClient.Close
import Mathlib.Data.List.GetD

/-!
# Closing broker clients (`close`, `_close_brokerclients`)

A broker client is closed when metadata no longer names its broker, or when the client is closed. The `Deferred`s of
these calls go into a `DeferredList`, and this one into the next one, should it not have fired by then.

A loop over the broker clients runs callbacks: each client that is closed fails the requests that it has. A loop under
way is therefore a step for each of its rounds, and anything may happen between two of them.
-/

open Lib

namespace Afkak.Client

open BrokerClient (Flushing Connecting Closed SparesQueue queuedBy)

/-- What a `DeferredList` waits for: the `close` of a broker client, or an earlier list. -/
inductive Awaited
  | broker (i : Nat)
  | list (k : Nat)
deriving DecidableEq

/-- The loop of `_close_brokerclients`; `final` is the one that `close` has called for. -/
structure Sweep where
  rest : List Nat
  dList : List Awaited
  final : Bool
deriving DecidableEq

structure BrokerClients where
  made : List BrokerClient.State := []
  /-- `self.clients`, which `close` sets to `None`. -/
  clients : Option (Dict Int Nat) := some .empty
  closing : Bool := false
  lists : List (List Awaited) := []
  closeDlist : Option Nat := none
  sweeps : List Sweep := []
  /-- What `close` has returned: a list, or a `Deferred` that has fired. -/
  returned : Option (Option Nat) := none

def isDown (b : BrokerClient.State) : Bool :=
  match b.dDown with
  | some (_ + 1) => true
  | _ => false

/-! ## Lists of lists -/

section Lists

variable (made : List BrokerClient.State)

def hasFired (done : List Bool) : Awaited → Bool
  | .broker i => (made[i]?).any isDown
  | .list k => done.getD k false

def firedLists (lists : List (List Awaited)) : List Bool :=
  lists.foldl (fun done l => done ++ [l.all (hasFired made done)]) []

def members (done : List (List Nat)) : Awaited → List Nat
  | .broker i => [i]
  | .list k => done.getD k []

def awaitedBy (lists : List (List Awaited)) : List (List Nat) :=
  lists.foldl (fun done l => done ++ [l.flatMap (members done)]) []

end Lists

namespace BrokerClients

def fired (s : BrokerClients) (k : Nat) : Bool := (firedLists s.made s.lists).getD k false

def clean (s : BrokerClients) : BrokerClients := { s with closeDlist := s.closeDlist.filter fun k => !s.fired k }

/-- It raises on a closed client. -/
def getBrokerclient (s : BrokerClients) (nodeId : Int) : BrokerClients :=
  match s.closing, s.clients with
  | false, some clients =>
    if nodeId ∈ clients.keys then s
    else { s with made := s.made ++ [BrokerClient.init], clients := some (clients.set nodeId s.made.length) }
  | _, _ => s

/-- `_close_brokerclients`, up to its loop -/
def closeBrokerclients (s : BrokerClients) (clients : List Nat) (final : Bool) : BrokerClients :=
  { s with sweeps := ⟨clients, (s.closeDlist.map .list).toList, final⟩ :: s.sweeps }

/-- `_update_brokers`, for the nodes that a full response leaves out; it raises on a closed client. -/
def updateBrokers (s : BrokerClients) (gone : List Int) : BrokerClients :=
  match s.clients with
  | none => s
  | some clients =>
    if gone = [] then s
    else closeBrokerclients { s with clients := some (clients.filter fun e => e.1 ∉ gone) } (gone.filterMap clients.get?)
      false

/-- The second time there are no clients whose values it could take. -/
def close (s : BrokerClients) : BrokerClients :=
  match s.clients with
  | none => { s with closing := true }
  | some clients => closeBrokerclients { s with closing := true, clients := none } clients.values true

def nextRound (s : BrokerClients) (connects : Bool) : Option BrokerClients :=
  match s.sweeps with
  | [] => none
  | ⟨i :: rest, dList, final⟩ :: below =>
    match s.made[i]? with
    | none => none
    | some b =>
      if b.dDown.isSome then some { s with sweeps := below }  -- the assertion fails
      else some { s with
        made := s.made.set i (BrokerClient.close b connects)
        sweeps := ⟨rest, dList ++ [.broker i], final⟩ :: below }
  | ⟨[], dList, final⟩ :: below =>
    let s := clean { s with lists := s.lists ++ [dList], closeDlist := some s.lists.length, sweeps := below }
    some (if final then { s with returned := some s.closeDlist } else s)

inductive Event
  | get (nodeId : Int)
  | updateBrokers (gone : List Int)
  | close
  | next (connects : Bool)
  | broker (i : Nat) (e : BrokerClient.Event)
deriving DecidableEq

def IsClose : BrokerClient.Event → Prop
  | .close _ => True
  | _ => False

instance : (e : BrokerClient.Event) → Decidable (IsClose e)
  | .close _ => .isTrue trivial
  | .advance _ | .makeRequest _ _ _ _ | .cancel _ | .disconnect | .connectionMade _ | .connectFailed _
  | .delayElapsed _ | .connectionLost _ | .stringReceived _ _ | .resume _ => .isFalse id

def step (s : BrokerClients) : Event → Option BrokerClients
  | .get nodeId => some (s.getBrokerclient nodeId)
  | .updateBrokers gone =>
    if gone.Nodup ∧ ∀ n ∈ gone, ∀ clients ∈ s.clients, n ∈ clients.keys then some (s.updateBrokers gone) else none
  | .close => some s.close
  | .next connects => s.nextRound connects
  | .broker i e =>
    match s.made[i]? with
    | none => none
    | some b =>
      if IsClose e then none else (BrokerClient.step b e).map fun b => clean { s with made := s.made.set i b }

def init : BrokerClients := {}

def CanClose (s : BrokerClients) (i : Nat) : Prop := ∀ b ∈ s.made[i]?, queuedBy b.stack = []

/-- No loop begins within another, and a broker client is not closed, nor a request cancelled, by a callback of a flush
that has yet to write it. -/
def Uninterrupted (s : BrokerClients) : Event → Prop
  | .get _ => True
  | .updateBrokers _ | .close => s.sweeps = []
  | .next _ => ∀ i ∈ (s.sweeps.head?.bind fun w => w.rest.head?), s.CanClose i
  | .broker i e => ∀ b ∈ s.made[i]?, SparesQueue b e

instance (s : BrokerClients) (i : Nat) : Decidable (s.CanClose i) := inferInstanceAs (Decidable (∀ _ ∈ _, _))

instance (s : BrokerClients) : (e : Event) → Decidable (s.Uninterrupted e)
  | .get _ => .isTrue trivial
  | .updateBrokers _ | .close => inferInstanceAs (Decidable (_ = _))
  | .next _ | .broker _ _ => inferInstanceAs (Decidable (∀ _ ∈ _, _))

end BrokerClients

/-! ## One broker client -/

theorem dDown_finish (b : BrokerClient.State) (cid : Int) (d : Nat) (out : BrokerClient.Outcome) :
    (BrokerClient.finish b cid d out).1.dDown = b.dDown := by
  unfold BrokerClient.finish
  split <;> rfl

theorem dDown_sendRequest (b : BrokerClient.State) (o : Nat) (r : BrokerClient.RequestState) (sendFails : Option Exc) :
    (BrokerClient.sendRequest b o r sendFails).1.dDown = b.dDown := by
  unfold BrokerClient.sendRequest
  dsimp only
  split
  · rw [dDown_finish]
  · rw [dDown_finish]
  · split
    · rfl
    · rw [dDown_finish]

theorem dDown_makeRequest (b : BrokerClient.State) (cid : Int) (request : Bytes) (expectResponse : Bool)
    (sendFails : Option Exc) : (BrokerClient.makeRequest b cid request expectResponse sendFails).dDown = b.dDown := by
  unfold BrokerClient.makeRequest
  split
  · rfl
  · split
    · rfl
    · dsimp only
      split
      · rw [dDown_sendRequest]
      · split <;> rfl

theorem dDown_flushRound (b : BrokerClient.State) (o : Nat) (rest : List Nat) (below : List BrokerClient.Frame)
    (sendFails : Option Exc) : (BrokerClient.flushRound b o rest below sendFails).dDown = b.dDown := by
  unfold BrokerClient.flushRound
  dsimp only
  split
  · rfl
  · next r hr =>
    split
    · rfl
    · have hsend := dDown_sendRequest { b with stack := .flush rest :: below } o r sendFails
      split
      · next t heq =>
        rw [heq] at hsend
        exact hsend
      · next t e heq =>
        rw [heq] at hsend
        unfold BrokerClient.ebConnect
        split <;> exact hsend

theorem open_step {b b' : BrokerClient.State} {e : BrokerClient.Event} (h : BrokerClient.step b e = some b')
    (hopen : b.dDown = none) (hclose : ¬ BrokerClients.IsClose e) : b'.dDown = none := by
  cases BrokerClient.takes_of_step h with
  | advance => exact hopen
  | makeRequest cid request expectResponse sendFails => rw [dDown_makeRequest, hopen]
  | cancel d hd => rw [(BrokerClient.sameConnection_cancel b d).dDown, hopen]
  | disconnect =>
    unfold BrokerClient.disconnect
    split <;> exact hopen
  | close connects => exact absurd trivial hclose
  | connectionMade k hstack hk =>
    unfold BrokerClient.cbConnect
    dsimp only
    split <;> exact hopen
  | connectFailed k hstack hk =>
    unfold BrokerClient.ebConnect
    split <;> exact hopen
  | delayElapsed => exact hopen
  | connectionLost c hstack hc =>
    unfold BrokerClient.connectionLost
    dsimp only
    split
    · simp [BrokerClient.fireDown, BrokerClient.markUnsent, hopen]
    · split <;> exact hopen
  | stringReceived c response hstack hc => rw [(BrokerClient.sameConnection_handleResponse b response).dDown, hopen]
  | flushed => exact hopen
  | flush sendFails o rest below hstack => rw [dDown_flushRound, hopen]
  | closing => rw [(BrokerClient.sameConnection_closeRound b _).dDown, hopen]

theorem live_step {n : Nat} {b b' : BrokerClient.State} {e : BrokerClient.Event} (hflush : Flushing b)
    (h : Closed n b) (hstep : BrokerClient.step b e = some b') (hlive : b.live = []) : b'.live = [] := by
  have hd := h.isSome
  have hnone (k : Nat) (stage : BrokerClient.Pending) : b.pending.lookup k ≠ some stage := by simp [h.lookup k]
  cases BrokerClient.takes_of_step hstep with
  | advance => exact hlive
  | makeRequest cid request expectResponse sendFails =>
    rw [(BrokerClient.sameConnection_makeRequest_closed hd cid request expectResponse sendFails).live, hlive]
  | cancel d hlt => rw [(BrokerClient.sameConnection_cancel b d).live, hlive]
  | disconnect =>
    unfold BrokerClient.disconnect
    split <;> exact hlive
  | close connects => rwa [BrokerClient.close, if_pos hd]
  | connectionMade k hstack hk => exact absurd hk (hnone k _)
  | connectFailed k hstack hk => exact absurd hk (hnone k _)
  | delayElapsed k hstack hk => exact absurd hk (hnone k _)
  | connectionLost c hstack hc => simp [hlive] at hc
  | stringReceived c response hstack hc => rw [(BrokerClient.sameConnection_handleResponse b response).live, hlive]
  | flushed => exact hlive
  | flush sendFails o rest below hstack =>
    have hup := (hflush.up (by simp [hstack, queuedBy])).2
    simp [hup] at hd
  | closing => rw [(BrokerClient.sameConnection_closeRound b _).live, hlive]

theorem down_iff_of_closed {n : Nat} {b : BrokerClient.State} (h : Closed n b) : isDown b = true ↔ b.live = [] := by
  unfold isDown
  rw [h.dDown]
  by_cases hlive : b.live = [] <;> simp [hlive]

theorem not_down_of_open {b : BrokerClient.State} (h : b.dDown = none) : isDown b = false := by
  unfold isDown
  rw [h]

/-! ## The lists -/

section Lists

variable {made : List BrokerClient.State}

theorem firedLists_append (lists : List (List Awaited)) (l : List Awaited) :
    firedLists made (lists ++ [l]) = firedLists made lists ++ [l.all (hasFired made (firedLists made lists))] := by
  simp [firedLists]

theorem awaitedBy_append (lists : List (List Awaited)) (l : List Awaited) :
    awaitedBy (lists ++ [l]) = awaitedBy lists ++ [l.flatMap (members (awaitedBy lists))] := by
  simp [awaitedBy]

theorem firedLists_length (lists : List (List Awaited)) : (firedLists made lists).length = lists.length := by
  induction lists using List.reverseRecOn with
  | nil => rfl
  | append_singleton lists l ih => rw [firedLists_append, List.length_append, List.length_append, ih]; rfl

theorem awaitedBy_length (lists : List (List Awaited)) : (awaitedBy lists).length = lists.length := by
  induction lists using List.reverseRecOn with
  | nil => rfl
  | append_singleton lists l ih => rw [awaitedBy_append, List.length_append, List.length_append, ih]; rfl

def Backward (lists : List (List Awaited)) : Prop :=
  ∀ (k : Nat) (l : List Awaited), lists[k]? = some l → ∀ j, .list j ∈ l → j < k

theorem Backward.append {lists : List (List Awaited)} (h : Backward lists) {l : List Awaited}
    (hl : ∀ j, .list j ∈ l → j < lists.length) : Backward (lists ++ [l]) := by
  intro k l' hk j hj
  rw [List.getElem?_append] at hk
  split at hk
  · exact h k l' hk j hj
  · obtain rfl := List.mem_singleton.mp (List.mem_of_getElem? hk)
    have hlt := hl j hj
    omega

theorem Backward.of_append {lists : List (List Awaited)} {l : List Awaited} (h : Backward (lists ++ [l])) :
    Backward lists ∧ ∀ j, .list j ∈ l → j < lists.length := by
  refine ⟨fun k l' hk => h k l' ?_, h lists.length l (by simp)⟩
  rwa [List.getElem?_append_left (List.getElem?_eq_some_iff.mp hk).1]

theorem fired_iff {lists : List (List Awaited)} (h : Backward lists) (k : Nat) (hk : k < lists.length) :
    (firedLists made lists).getD k false = true ↔ ∀ i ∈ (awaitedBy lists).getD k [], (made[i]?).any isDown = true := by
  induction lists using List.reverseRecOn generalizing k with
  | nil => simp at hk
  | append_singleton lists l ih =>
    obtain ⟨hback, hl⟩ := h.of_append
    rw [firedLists_append, awaitedBy_append]
    rw [List.length_append, List.length_singleton] at hk
    by_cases hlt : k < lists.length
    · rw [List.getD_append _ _ _ _ (by rwa [firedLists_length]), List.getD_append _ _ _ _ (by rwa [awaitedBy_length])]
      exact ih hback k hlt
    · obtain rfl : k = lists.length := by omega
      have hhead : (firedLists made lists ++ [l.all (hasFired made (firedLists made lists))]).getD lists.length false =
          l.all (hasFired made (firedLists made lists)) := by
        have hlength : (firedLists made lists).length = lists.length := firedLists_length lists
        rw [← hlength]
        simp
      have hawaited : (awaitedBy lists ++ [l.flatMap (members (awaitedBy lists))]).getD lists.length [] =
          l.flatMap (members (awaitedBy lists)) := by
        rw [← awaitedBy_length lists]
        simp
      rw [hhead, hawaited, List.all_eq_true]
      have hone (a : Awaited) (ha : a ∈ l) : hasFired made (firedLists made lists) a = true ↔
          ∀ i ∈ members (awaitedBy lists) a, (made[i]?).any isDown = true := by
        cases a with
        | broker i => simp [hasFired, members]
        | list j => exact ih hback j (hl j ha)
      simp only [List.mem_flatMap]
      constructor
      · rintro hall i ⟨a, ha, hi⟩
        exact (hone a ha).mp (hall a ha) i hi
      · intro hall a ha
        exact (hone a ha).mpr fun i hi => hall i ⟨a, ha, hi⟩

end Lists

namespace BrokerClients

/-! ## The invariant -/

def awaits (s : BrokerClients) (k : Nat) : List Nat := (awaitedBy s.lists).getD k []

def reach (s : BrokerClients) (w : Sweep) : List Nat := w.dList.flatMap (members (awaitedBy s.lists))

/-- Those that are still in use, and those whose turn in a loop has not come. -/
def unclosed (s : BrokerClients) : List Nat := (s.clients.map Dict.values).getD [] ++ s.sweeps.flatMap (·.rest)

def Down (s : BrokerClients) (i : Nat) : Prop := (s.made[i]?).any isDown = true

structure Healthy (b : BrokerClient.State) : Prop where
  flushing : Flushing b
  connecting : Connecting b
  closed : b.dDown ≠ none → ∃ n, Closed n b

structure Core (s : BrokerClients) : Prop where
  healthy : ∀ b ∈ s.made, Healthy b
  unclosed : ∀ (i : Nat) (b : BrokerClient.State), s.made[i]? = some b → (b.dDown = none ↔ i ∈ s.unclosed)
  nodup : s.unclosed.Nodup
  within : ∀ i ∈ s.unclosed, i < s.made.length
  closing : s.closing = true ↔ s.clients = none
  one : s.sweeps = [] ∨ ∃ w, s.sweeps = [w]
  backward : Backward s.lists
  refs : ∀ w ∈ s.sweeps, ∀ j, .list j ∈ w.dList → j < s.lists.length
  current : ∀ k, s.closeDlist = some k → k < s.lists.length
  awaited : ∀ k, ∀ i ∈ s.awaits k, i < s.made.length ∧ i ∉ s.unclosed
  reached : ∀ w ∈ s.sweeps, ∀ i ∈ s.reach w, i < s.made.length ∧ i ∉ s.unclosed
  final : ∀ w ∈ s.sweeps, (w.final = true ↔ s.clients = none)
  /-- A broker client that is closed but not down is waited for. -/
  covered : ∀ i < s.made.length, i ∉ s.unclosed → ¬ s.Down i →
    (s.sweeps = [] → ∃ k, s.closeDlist = some k ∧ i ∈ s.awaits k) ∧ ∀ w ∈ s.sweeps, i ∈ s.reach w
  returned : ∀ r, s.returned = some r → s.clients = none ∧ s.sweeps = [] ∧
    (∀ k, r = some k → k < s.lists.length) ∧ ∀ i < s.made.length, ¬ s.Down i → ∃ k, r = some k ∧ i ∈ s.awaits k
  answered : s.clients = none → s.sweeps = [] → s.returned ≠ none

structure Inv (s : BrokerClients) : Prop extends Core s where
  unfired : ∀ k, s.closeDlist = some k → s.fired k = false

theorem Core.fired_iff {s : BrokerClients} (h : Core s) {k : Nat} (hk : k < s.lists.length) :
    s.fired k = true ↔ ∀ i ∈ s.awaits k, s.Down i := Client.fired_iff h.backward k hk

theorem Core.unfired_of {s : BrokerClients} (h : Core s) {k i : Nat} (hk : k < s.lists.length) (hi : i ∈ s.awaits k)
    (hdown : ¬ s.Down i) : s.fired k = false := by
  rw [Bool.eq_false_iff]
  intro hfired
  exact hdown ((h.fired_iff hk).mp hfired i hi)

theorem Core.unfired_same {s t : BrokerClients} (hs : Inv s) (ht : Core t) (hlists : t.lists = s.lists)
    (hdlist : t.closeDlist = s.closeDlist) (hdown : ∀ k, ∀ i ∈ s.awaits k, t.Down i → s.Down i) : Inv t := by
  refine ⟨ht, fun k hk => ?_⟩
  rw [hdlist] at hk
  have hlt := hs.current k hk
  rw [Bool.eq_false_iff]
  intro hfired
  have hall := (ht.fired_iff (hlists ▸ hlt)).mp hfired
  have hold := hs.unfired k hk
  rw [(hs.fired_iff hlt).mpr fun i hi => hdown k i hi (hall i (by simpa [awaits, hlists] using hi))] at hold
  cases hold

theorem clean_closeDlist (s : BrokerClients) (k : Nat) :
    s.clean.closeDlist = some k ↔ s.closeDlist = some k ∧ s.fired k = false := by
  simp [clean, Option.filter_eq_some_iff]

theorem inv_clean {s : BrokerClients} (h : Core s) : Inv s.clean where
  healthy := h.healthy
  unclosed := h.unclosed
  nodup := h.nodup
  within := h.within
  closing := h.closing
  one := h.one
  backward := h.backward
  refs := h.refs
  current k hk := h.current k ((clean_closeDlist s k).mp hk).1
  awaited := h.awaited
  reached := h.reached
  final := h.final
  covered i hi hclosed hdown := by
    obtain ⟨hidle, hsweep⟩ := h.covered i hi hclosed hdown
    refine ⟨fun hs => ?_, hsweep⟩
    obtain ⟨k, hk, hmem⟩ := hidle hs
    exact ⟨k, (clean_closeDlist s k).mpr ⟨hk, h.unfired_of (h.current k hk) hmem hdown⟩, hmem⟩
  returned := h.returned
  answered := h.answered
  unfired k hk := ((clean_closeDlist s k).mp hk).2

end BrokerClients

end Afkak.Client
