import Afkak.BrokerClient.Connection
import Afkak.BrokerClient.Outcomes

/-!
# The flush of the queue

`_sendQueued` works on a copy of the table. As long as the callbacks that it runs leave the rest of that copy
alone, there is one connection at a time, nothing escapes from the flush, and what it has yet to write waits in
the table unsent.
-/

open Lib

namespace Afkak.BrokerClient

/-- No callback that a flush runs cancels a request which the flush has yet to write, or closes the client
before all are written. -/
def SparesQueue (s : State) : Event → Prop
  | .cancel d => d ∉ queuedBy s.stack
  | .close _ => queuedBy s.stack = []
  | _ => True

instance (s : State) : ∀ e, Decidable (SparesQueue s e)
  | .cancel _ => inferInstanceAs (Decidable (¬ _ ∈ _))
  | .close _ => inferInstanceAs (Decidable (_ = _))
  | .advance _ | .makeRequest _ _ _ _ | .disconnect | .connectionMade _ | .connectFailed _ | .delayElapsed _
  | .connectionLost _ | .stringReceived _ _ | .resume _ => inferInstanceAs (Decidable True)

def Waits (s : State) (o : Nat) : Prop := ∃ r, Outstanding s o r ∧ r.sent = none

structure Flushing (s : State) : Prop where
  inv : Inv s
  waiting : ∀ o ∈ queuedBy s.stack, Waits s o
  nodup : (queuedBy s.stack).Nodup
  up : queuedBy s.stack ≠ [] → s.proto.isSome ∧ s.dDown = none
  live : s.live = s.proto.toList
  pending : s.pending = [] ∨ ∃ k kind, s.pending = [(k, kind)] ∧ s.proto = none ∧ s.connector = some k
  unsent : s.proto = none → ∀ o ∈ s.requests.values, Waits s o
  ordered : s.requests.values.Pairwise (· < ·)
  closing : .close ∈ s.stack → s.dDown ≠ none

/-! ## The table -/

theorem mem_values_iff (d : Dict Int Nat) (o : Nat) : o ∈ d.values ↔ ∃ cid, d.get? cid = some o := by
  simp only [Dict.values, List.mem_map, Dict.get?_eq_some_iff]
  constructor
  · rintro ⟨⟨cid, o'⟩, hmem, rfl⟩
    exact ⟨cid, hmem⟩
  · rintro ⟨cid, hmem⟩
    exact ⟨(cid, o), hmem, rfl⟩

theorem values_erase_sublist (d : Dict Int Nat) (k : Int) : (d.erase k).values.Sublist d.values :=
  List.filter_sublist.map _

theorem values_filter_sublist (d : Dict Int Nat) (p : Int × Nat → Bool) : (d.filter p).values.Sublist d.values :=
  List.filter_sublist.map _

theorem values_set_new (d : Dict Int Nat) (k : Int) (v : Nat) (h : d.get? k = none) :
    (d.set k v).values = d.values ++ [v] := by
  simp [Dict.values, Dict.entries_set_new d k v h]

theorem lt_of_mem_values {s : State} (hi : Inv s) {o : Nat} (h : o ∈ s.requests.values) : o < s.nextD := by
  obtain ⟨cid, hcid⟩ := (mem_values_iff _ _).mp h
  obtain ⟨r, hr, -⟩ := hi.entry cid o hcid
  exact lt_nextD hi hr

theorem Waits.keep {s t : State} {o : Nat} (h : Waits s o) (hheap : t.heap.get? o = s.heap.get? o)
    (htable : ∀ cid, s.requests.get? cid = some o → t.requests.get? cid = some o) : Waits t o := by
  obtain ⟨r, ⟨hr, ht, hc⟩, hs⟩ := h
  exact ⟨r, ⟨hheap.trans hr, htable _ ht, hc⟩, hs⟩

theorem Waits.lt {s : State} (hi : Inv s) {o : Nat} (h : Waits s o) : o < s.nextD := by
  obtain ⟨r, ho, -⟩ := h
  exact lt_nextD hi ho.1

theorem get?_erase_of_ne {s : State} {o x : Nat} {r : RequestState} (ho : Outstanding s o r) (hne : x ≠ o) (cid : Int)
    (hx : s.requests.get? cid = some x) : (s.requests.erase r.correlationId).get? cid = some x := by
  rw [Dict.get?_erase]
  split
  · next heq =>
    rw [heq, ho.2.1, Option.some.injEq] at hx
    exact absurd hx.symm hne
  · exact hx

/-! ## Writing one request -/

def delivered (s : State) (c o : Nat) (r : RequestState) : Option Exc → State
  | some e => retire (marked s o r []) r.correlationId o (.failed e)
  | none =>
    if r.expectResponse then marked s o r [(c, o)]
    else retire (marked s o r [(c, o)]) r.correlationId o (.success none)

theorem sendRequest_outstanding {s : State} (hi : Inv s) {c o : Nat} {r : RequestState} (ho : Outstanding s o r)
    (hproto : s.proto = some c) (sendFails : Option Exc) :
    sendRequest s o r sendFails = (delivered s c o r sendFails, none) := by
  have hnot : ¬ Fired s o := (hi.unfired o r ho.1).mpr ho
  have hfinish : ∀ writes out, finish (marked s o r writes) r.correlationId o out =
      (retire (marked s o r writes) r.correlationId o out, none) := by
    intro writes out
    refine ((finish_cases (s := marked s o r writes) out ?_ fun _ => hnot).resolve_left ?_).2
    · intro o' h'
      simp only [marked, ho.2.1, Option.some.injEq] at h'
      exact h'.symm
    · simp [finish, marked, ho.2.1, fire]
  rw [sendRequest_eq]
  unfold delivered
  cases sendFails with
  | some e =>
    simp only [hproto]
    exact hfinish [] _
  | none =>
    simp only [hproto]
    split
    · rfl
    · exact hfinish _ _

structure Delivers (s t : State) (o : Nat) : Prop extends SameConnection s t where
  stack : t.stack = s.stack
  nextD : t.nextD = s.nextD
  nextConnection : t.nextConnection = s.nextConnection
  keeps : ∀ x, x ≠ o → Waits s x → Waits t x
  heap : ∀ x, x ≠ o → t.heap.get? x = s.heap.get? x
  sent : ∃ r, t.heap.get? o = some r ∧ r.sent ≠ none
  table : t.requests.values.Sublist s.requests.values

theorem waits_marked {s : State} {o x : Nat} (r : RequestState) (writes : List (Nat × Nat)) (hne : x ≠ o)
    (h : Waits s x) : Waits (marked s o r writes) x := by
  refine h.keep ?_ fun _ hx => hx
  simp [marked, Ne.symm hne]

theorem waits_retire {s : State} {o x : Nat} {r : RequestState} (ho : Outstanding s o r) (out : Outcome) (hne : x ≠ o)
    (h : Waits s x) : Waits (retire s r.correlationId o out) x :=
  h.keep rfl fun cid hx => get?_erase_of_ne ho hne cid hx

theorem delivers_marked (s : State) (o : Nat) (r : RequestState) (writes : List (Nat × Nat)) :
    Delivers s (marked s o r writes) o where
  toSameConnection := ⟨rfl, rfl, rfl, rfl, rfl, rfl⟩
  stack := rfl
  nextD := rfl
  nextConnection := rfl
  keeps _ hne hx := waits_marked r writes hne hx
  heap x hne := by simp [marked, Ne.symm hne]
  sent := ⟨{ r with sent := some s.seconds }, by simp [marked], by simp⟩
  table := List.Sublist.refl _

theorem delivers_retire {s : State} {o : Nat} {r : RequestState} (ho : Outstanding s o r) (writes : List (Nat × Nat))
    (out : Outcome) : Delivers s (retire (marked s o r writes) r.correlationId o out) o where
  toSameConnection := ⟨rfl, rfl, rfl, rfl, rfl, rfl⟩
  stack := rfl
  nextD := rfl
  nextConnection := rfl
  keeps _ hne hx := waits_retire (outstanding_marked ho writes) out hne (waits_marked r writes hne hx)
  heap x hne := by simp [retire, marked, Ne.symm hne]
  sent := ⟨{ r with sent := some s.seconds }, by simp [retire, marked], by simp⟩
  table := values_erase_sublist _ _

theorem delivers_delivered {s : State} {o : Nat} {r : RequestState} (ho : Outstanding s o r) (c : Nat)
    (sendFails : Option Exc) : Delivers s (delivered s c o r sendFails) o := by
  unfold delivered
  split
  · exact delivers_retire ho _ _
  · split
    · exact delivers_marked _ _ _ _
    · exact delivers_retire ho _ _

theorem delivered_written (s : State) (c o : Nat) (r : RequestState) (sendFails : Option Exc) :
    (delivered s c o r sendFails).written = s.written ++ if sendFails = none then [(c, o)] else [] := by
  unfold delivered
  split
  · simp [retire, marked]
  · split <;> simp [retire, marked]

theorem delivered_failed (s : State) (c o : Nat) (r : RequestState) (e : Exc) :
    (o, .failed e) ∈ (delivered s c o r (some e)).calls := by
  simp [delivered, retire]

/-! ## What one step does -/

def Sent (s : State) (o : Nat) : Prop := ∃ r, s.heap.get? o = some r ∧ r.sent ≠ none

inductive Turn (s : State) : Event → State → Prop
  | quiet {e : Event} {t : State} (hproto : t.proto = s.proto) (hconn : t.nextConnection = s.nextConnection)
    (hqueue : queuedBy t.stack = queuedBy s.stack) (hwritten : t.written = s.written)
    (hkeep : ∀ o, Sent s o → Sent t o) : Turn s e t
  | sends {e : Event} {t : State} {c : Nat} (hup : s.proto = some c) (hproto : t.proto = s.proto)
    (hconn : t.nextConnection = s.nextConnection) (hqueue : queuedBy t.stack = queuedBy s.stack)
    (hwritten : t.written = s.written ++ [(c, s.nextD)]) (hnext : t.nextD = s.nextD + 1) (hsent : Sent t s.nextD)
    (hkeep : ∀ o, Sent s o → Sent t o) : Turn s e t
  | up {e : Event} {t : State} (hidle : queuedBy s.stack = []) (hproto : t.proto = some s.nextConnection)
    (hconn : t.nextConnection = s.nextConnection + 1) (hqueue : t.dDown = none → queuedBy t.stack = s.requests.values)
    (hwritten : t.written = s.written) : Turn s e t
  | lost {e : Event} {t : State} (hidle : queuedBy s.stack = []) (hqueue : queuedBy t.stack = [])
    (hproto : t.proto = none) (hconn : t.nextConnection = s.nextConnection) (hwritten : t.written = s.written) :
    Turn s e t
  | round {t : State} {c o : Nat} {sendFails : Option Exc} (hup : s.proto = some c) (hproto : t.proto = s.proto)
    (hconn : t.nextConnection = s.nextConnection) (hqueue : queuedBy s.stack = o :: queuedBy t.stack)
    (hwaits : Waits s o) (hwritten : t.written = s.written ++ if sendFails = none then [(c, o)] else [])
    (hfailed : ∀ e, sendFails = some e → (o, .failed e) ∈ t.calls) (hsent : Sent t o)
    (hkeep : ∀ o, Sent s o → Sent t o) : Turn s (.resume sendFails) t

theorem Waits.of_mem {s t : State} (hi : Inv t) {x : Nat} (h : Waits s x) (hheap : t.heap.get? x = s.heap.get? x)
    (hx : x ∈ t.requests.values) : Waits t x := by
  obtain ⟨r, ⟨hr, -, hc⟩, hs⟩ := h
  obtain ⟨cid, hcid⟩ := (mem_values_iff _ _).mp hx
  obtain ⟨r', hr', rfl⟩ := hi.entry cid x hcid
  rw [hheap, hr, Option.some.injEq] at hr'
  subst hr'
  exact ⟨r, ⟨hheap.trans hr, hcid, hc⟩, hs⟩

theorem Flushing.table {s t : State} (h : Flushing s) (hi : Inv t) (hc : SameConnection s t)
    (hq : (queuedBy t.stack).Sublist (queuedBy s.stack)) (hw : ∀ x ∈ queuedBy t.stack, Waits s x → Waits t x)
    (hu : s.proto = none → ∀ x ∈ t.requests.values,
      (x ∈ s.requests.values ∧ t.heap.get? x = s.heap.get? x) ∨ Waits t x)
    (hord : t.requests.values.Pairwise (· < ·)) (hclose : .close ∈ t.stack → .close ∈ s.stack) : Flushing t where
  inv := hi
  waiting x hx := hw x hx (h.waiting x (hq.subset hx))
  nodup := h.nodup.sublist hq
  up hne := by
    rw [hc.proto, hc.dDown]
    apply h.up
    intro hnil
    rw [hnil, List.sublist_nil] at hq
    exact hne hq
  live := by
    rw [hc.live, hc.proto]
    exact h.live
  pending := by
    rw [hc.pending, hc.proto, hc.connector]
    exact h.pending
  unsent hnone x hx := by
    rw [hc.proto] at hnone
    rcases hu hnone x hx with ⟨hmem, hheap⟩ | hwaits
    · exact (h.unsent hnone x hmem).of_mem hi hheap hx
    · exact hwaits
  ordered := hord
  closing hmem := by
    rw [hc.dDown]
    exact h.closing (hclose hmem)

theorem Flushing.same {s t : State} (h : Flushing s) (hi : Inv t) (hc : SameConnection s t) (hheap : t.heap = s.heap)
    (hreq : t.requests = s.requests) (hq : (queuedBy t.stack).Sublist (queuedBy s.stack))
    (hclose : .close ∈ t.stack → .close ∈ s.stack) : Flushing t := by
  refine h.table hi hc hq ?_ ?_ (hreq ▸ h.ordered) hclose
  · intro x _ hx
    exact hx.keep (by rw [hheap]) (by rw [hreq]; exact fun _ => id)
  · intro _ x hx
    exact .inl ⟨hreq ▸ hx, by rw [hheap]⟩

theorem flushing_idle {t : State} (hi : Inv t) (hq : queuedBy t.stack = []) (hlive : t.live = t.proto.toList)
    (hpending : t.pending = [] ∨ ∃ k kind, t.pending = [(k, kind)] ∧ t.proto = none ∧ t.connector = some k)
    (hunsent : t.proto = none → ∀ o ∈ t.requests.values, Waits t o) (hord : t.requests.values.Pairwise (· < ·))
    (hclose : .close ∈ t.stack → t.dDown ≠ none) : Flushing t where
  inv := hi
  waiting x hx := by simp [hq] at hx
  nodup := by simp [hq]
  up hne := absurd hq hne
  live := hlive
  pending := hpending
  unsent := hunsent
  ordered := hord
  closing := hclose

theorem Flushing.uniqueIds {s : State} (h : Flushing s) (e : Event) : UniqueIds s e := by
  cases e with
  | makeRequest cid request expectResponse sendFails =>
    by_cases hget : (s.requests.get? cid).isSome
    · exact .inl hget
    · right
      intro o ho heq
      obtain ⟨r, ⟨hr, ht, -⟩, -⟩ := h.waiting o ho
      simp only [hr, Option.map_some, Option.some.injEq] at heq
      rw [← heq, ht] at hget
      simp at hget
  | advance n => trivial
  | cancel d => trivial
  | disconnect => trivial
  | close connects => trivial
  | connectionMade k => trivial
  | connectFailed k => trivial
  | delayElapsed k => trivial
  | connectionLost c => trivial
  | stringReceived c response => trivial
  | resume sendFails => trivial

/-! ### The methods -/

theorem flushing_enqueue {s : State} (h : Flushing s) {r : RequestState} (hnew : s.requests.get? r.correlationId = none)
    (hdown : s.dDown = none) (hcan : r.cancelled = none) (hsent : r.sent = none) : Flushing (enqueue s r) := by
  have hq := (h.uniqueIds (.makeRequest r.correlationId r.request r.expectResponse none)).resolve_left (by simp [hnew])
  have hi := inv_enqueue h.inv hnew hq hdown hcan
  have hheap : ∀ x, x < s.nextD → (enqueue s r).heap.get? x = s.heap.get? x := by
    intro x hx
    simp only [enqueue, Dict.get?_set]
    rw [if_neg (by omega)]
  have hvalues : (enqueue s r).requests.values = s.requests.values ++ [s.nextD] := values_set_new _ _ _ hnew
  refine h.table hi ⟨rfl, rfl, rfl, rfl, rfl, rfl⟩ (List.Sublist.refl _) ?_ ?_ ?_ id
  · intro x _ hx
    refine hx.keep (hheap x (hx.lt h.inv)) fun cid hcid => ?_
    simp only [enqueue, Dict.get?_set]
    rw [if_neg]
    · exact hcid
    · intro heq
      rw [← heq, hnew] at hcid
      cases hcid
  · intro _ x hx
    rw [hvalues, List.mem_append, List.mem_singleton] at hx
    rcases hx with hx | rfl
    · exact .inl ⟨hx, hheap x (lt_of_mem_values h.inv hx)⟩
    · exact .inr ⟨r, ⟨by simp [enqueue], by simp [enqueue], hcan⟩, hsent⟩
  · rw [hvalues, List.pairwise_append]
    refine ⟨h.ordered, by simp, ?_⟩
    intro x hx y hy
    simp only [List.mem_singleton] at hy
    have := lt_of_mem_values h.inv hx
    omega

theorem flushing_connect {s : State} (h : Flushing s) (hi : Inv (connect s)) (hpending : s.pending = [])
    (hproto : s.proto = none) : Flushing (connect s) where
  inv := hi
  waiting x hx := (h.waiting x hx).keep rfl fun _ => id
  nodup := h.nodup
  up := h.up
  live := h.live
  pending := .inr ⟨s.nextConnector, .attempting, by simp [connect, tryConnect, hpending], hproto, rfl⟩
  unsent hnone x hx := (h.unsent hnone x hx).keep rfl fun _ => id
  ordered := h.ordered
  closing := h.closing

theorem Flushing.deliver {s t : State} (h : Flushing s) (hi : Inv t) {o : Nat} (hd : Delivers s t o)
    (hup : s.proto.isSome) (ho : o ∉ queuedBy s.stack) : Flushing t := by
  refine h.table hi hd.toSameConnection (by rw [hd.stack]) ?_ ?_ (h.ordered.sublist hd.table)
    (by rw [hd.stack]; exact id)
  · intro x hx hwaits
    refine hd.keeps x ?_ hwaits
    rintro rfl
    exact ho (hd.stack ▸ hx)
  · intro hnone
    simp [hnone] at hup

theorem Delivers.keepSent {s t : State} {o : Nat} (hd : Delivers s t o) (x : Nat) (h : Sent s x) : Sent t x := by
  by_cases hx : x = o
  · subst hx
    exact hd.sent
  · unfold Sent
    rw [hd.heap x hx]
    exact h

theorem sent_enqueue {s : State} (hi : Inv s) (r : RequestState) (o : Nat) (h : Sent s o) : Sent (enqueue s r) o := by
  obtain ⟨q, hq, hs⟩ := h
  have hlt := lt_nextD hi hq
  refine ⟨q, ?_, hs⟩
  simp only [enqueue, Dict.get?_set]
  rw [if_neg (by omega)]
  exact hq

theorem flushing_makeRequest {s : State} (h : Flushing s) (cid : Int) (request : Bytes) (expectResponse : Bool)
    (sendFails : Option Exc) (hi : Inv (makeRequest s cid request expectResponse sendFails)) :
    Flushing (makeRequest s cid request expectResponse sendFails) ∧
      Turn s (.makeRequest cid request expectResponse sendFails)
      (makeRequest s cid request expectResponse sendFails) := by
  revert hi
  unfold makeRequest
  split
  · intro _
    exact ⟨h, .quiet rfl rfl rfl rfl fun _ => id⟩
  · next hdup =>
    have hnew : s.requests.get? cid = none := by simpa using hdup
    split
    · intro hi
      exact ⟨h.same hi ⟨rfl, rfl, rfl, rfl, rfl, rfl⟩ rfl rfl (List.Sublist.refl _) id,
        .quiet rfl rfl rfl rfl fun _ => id⟩
    · next hdown =>
      have hdown : s.dDown = none := by simpa using hdown
      have henq := flushing_enqueue (r := ⟨cid, request, expectResponse, s.seconds, none, none⟩) h hnew hdown rfl rfl
      have hkeep := sent_enqueue h.inv ⟨cid, request, expectResponse, s.seconds, none, none⟩
      split
      · next hup =>
        intro hi
        obtain ⟨c, hc⟩ := Option.isSome_iff_exists.mp hup
        -- The new request is the only one that this touches.
        have hout : Outstanding (enqueue s ⟨cid, request, expectResponse, s.seconds, none, none⟩) s.nextD
            ⟨cid, request, expectResponse, s.seconds, none, none⟩ := ⟨by simp [enqueue], by simp [enqueue], rfl⟩
        have hsend := sendRequest_outstanding henq.inv hout hc sendFails
        have hdel := delivers_delivered hout c sendFails
        have hw := delivered_written (enqueue s ⟨cid, request, expectResponse, s.seconds, none, none⟩) c s.nextD
          ⟨cid, request, expectResponse, s.seconds, none, none⟩ sendFails
        have hfresh : s.nextD ∉ queuedBy s.stack := by
          intro hmem
          have := (h.waiting _ hmem).lt h.inv
          omega
        have heq := congrArg Prod.fst hsend
        simp only [enqueue] at heq
        rw [heq] at hi ⊢
        refine ⟨henq.deliver hi hdel hup hfresh, ?_⟩
        have hkept : ∀ o, Sent s o → Sent _ o := fun o ho => hdel.keepSent o (hkeep o ho)
        by_cases hf : sendFails = none
        · rw [if_pos hf] at hw
          exact .sends hc hdel.proto hdel.nextConnection (congrArg queuedBy hdel.stack) hw hdel.nextD hdel.sent hkept
        · rw [if_neg hf, List.append_nil] at hw
          exact .quiet hdel.proto hdel.nextConnection (congrArg queuedBy hdel.stack) hw hkept
      · next hproto =>
        have hproto : s.proto = none := by simpa using hproto
        split
        · next hconn =>
          intro hi
          have hpending : s.pending = [] := by
            rcases h.pending with hp | ⟨k, kind, -, -, hk⟩
            · exact hp
            · simp [hk] at hconn
          exact ⟨flushing_connect henq hi hpending hproto, .quiet rfl rfl rfl rfl hkeep⟩
        · intro hi
          exact ⟨henq, .quiet rfl rfl rfl rfl hkeep⟩

theorem flushing_cancel {s : State} (h : Flushing s) {d : Nat} (hspare : d ∉ queuedBy s.stack)
    (hi : Inv (cancel s d)) : Flushing (cancel s d) ∧ Turn s (.cancel d) (cancel s d) := by
  revert hi
  unfold cancel
  split
  · intro _
    exact ⟨h, .quiet rfl rfl rfl rfl fun _ => id⟩
  · next hf =>
    cases hheap : s.heap.get? d with
    | none =>
      intro _
      exact ⟨h, .quiet rfl rfl rfl rfl fun _ => id⟩
    | some r =>
      have ho := (h.inv.unfired d r hheap).mp hf
      have hother : ∀ x ∈ queuedBy s.stack, x ≠ d := by
        rintro x hx rfl
        exact hspare hx
      simp only [ho.2.1, hheap]
      unfold cancelRequest
      split
      · next hsent =>
        intro hi
        refine ⟨h.table hi ⟨rfl, rfl, rfl, rfl, rfl, rfl⟩ (List.Sublist.refl _) ?_ ?_ h.ordered id,
          .quiet rfl rfl rfl rfl ?_⟩
        · intro x hx hwaits
          exact hwaits.keep (by simp [Ne.symm (hother x hx)]) fun _ => id
        · -- Without a connection it would be unsent.
          intro hnone
          obtain ⟨r', ho', hs'⟩ := h.unsent hnone d ((mem_values_iff _ _).mpr ⟨_, ho.2.1⟩)
          rw [ho.1.symm.trans ho'.1 |> Option.some.inj, hs'] at hsent
          simp at hsent
        · rintro x ⟨q, hq, hs⟩
          by_cases hx : x = d
          · subst hx
            exact ⟨{ r with cancelled := some s.seconds }, by simp, by simpa [Option.isSome_iff_ne_none] using hsent⟩
          · exact ⟨q, by simpa [Ne.symm hx] using hq, hs⟩
      · intro hi
        refine ⟨h.table hi ⟨rfl, rfl, rfl, rfl, rfl, rfl⟩ (List.Sublist.refl _) ?_ ?_ ?_ id,
          .quiet rfl rfl rfl rfl fun _ => id⟩
        · intro x hx hwaits
          exact waits_retire ho _ (hother x hx) hwaits
        · intro _ x hx
          exact .inl ⟨(values_erase_sublist _ _).subset hx, rfl⟩
        · exact h.ordered.sublist (values_erase_sublist _ _)

theorem flushing_handleResponse {s : State} (h : Flushing s) (hstack : s.stack = []) (hup : s.proto.isSome) (c : Nat)
    (response : Bytes) (hi : Inv (handleResponse s response)) :
    Flushing (handleResponse s response) ∧ Turn s (.stringReceived c response) (handleResponse s response) := by
  have hdrop : ∀ t, Inv t → t.heap = s.heap → SameConnection s t → t.stack = s.stack →
      t.requests.values.Sublist s.requests.values → Flushing t := by
    intro t hi hheap hc hs hsub
    refine h.table hi hc (by rw [hs]) ?_ ?_ (h.ordered.sublist hsub) (by rw [hs]; exact id)
    · intro x hx
      simp [hs, hstack, queuedBy] at hx
    · intro hnone
      simp [hnone] at hup
  revert hi
  unfold handleResponse
  split
  · intro _
    exact ⟨h, .quiet rfl rfl rfl rfl fun _ => id⟩
  · split
    · intro _
      exact ⟨h, .quiet rfl rfl rfl rfl fun _ => id⟩
    · simp only
      split
      · intro hi
        exact ⟨hdrop _ hi rfl ⟨rfl, rfl, rfl, rfl, rfl, rfl⟩ rfl (values_erase_sublist _ _),
          .quiet rfl rfl rfl rfl fun _ => id⟩
      · split
        · intro hi
          exact ⟨hdrop _ hi rfl ⟨rfl, rfl, rfl, rfl, rfl, rfl⟩ rfl (values_erase_sublist _ _),
            .quiet rfl rfl rfl rfl fun _ => id⟩
        · intro hi
          exact ⟨hdrop _ hi rfl ⟨rfl, rfl, rfl, rfl, rfl, rfl⟩ rfl (values_erase_sublist _ _),
            .quiet rfl rfl rfl rfl fun _ => id⟩

theorem Flushing.lookup {s : State} (h : Flushing s) {k : Nat} {kind : Pending} (hk : s.pending.lookup k = some kind) :
    (s.pending.filter fun p => p.1 ≠ k) = [] ∧ s.proto = none := by
  rcases h.pending with hnil | ⟨j, kind', hp, hproto, -⟩
  · simp [hnil] at hk
  · have hj : j = k := by
      by_contra hne
      simp [hp, List.lookup_cons, beq_eq_false_iff_ne.mpr (Ne.symm hne)] at hk
    exact ⟨by simp [hp, hj], hproto⟩

theorem Flushing.live_nil {s : State} (h : Flushing s) (hproto : s.proto = none) : s.live = [] := by
  rw [h.live, hproto]
  rfl

theorem flushing_connectionMade {s : State} (h : Flushing s) (hstack : s.stack = []) {k : Nat} {kind : Pending}
    (hk : s.pending.lookup k = some kind)
    (hi : Inv (cbConnect { s with pending := s.pending.filter fun p => p.1 ≠ k })) :
    Flushing (cbConnect { s with pending := s.pending.filter fun p => p.1 ≠ k }) ∧
      Turn s (.connectionMade k) (cbConnect { s with pending := s.pending.filter fun p => p.1 ≠ k }) := by
  obtain ⟨hpending, hproto⟩ := h.lookup hk
  have hlive : s.live ++ [s.nextConnection] = (some s.nextConnection).toList := by simp [h.live_nil hproto]
  have hidle : queuedBy s.stack = [] := by simp [hstack, queuedBy]
  revert hi
  unfold cbConnect
  simp only
  split
  · next hdown =>
    intro hi
    refine ⟨flushing_idle hi hidle hlive (.inl hpending) (by simp [loseConnection, setProto]) h.ordered h.closing,
      .up hidle rfl rfl (fun hnone => ?_) rfl⟩
    have hnone : s.dDown = none := hnone
    simp [hnone] at hdown
  · next hdown =>
    intro hi
    have hdown : s.dDown = none := by simpa using hdown
    -- Everything in the table waits, as there was no connection.
    have hqueue : queuedBy (.flush s.requests.values :: s.stack) = s.requests.values := by simp [hstack, queuedBy]
    refine ⟨⟨hi, ?_, ?_, fun _ => ⟨rfl, hdown⟩, hlive, .inl hpending, by simp [setProto], h.ordered, ?_⟩,
      .up hidle rfl rfl (fun _ => hqueue) rfl⟩
    · intro x hx
      rw [hqueue] at hx
      exact (h.unsent hproto x hx).keep rfl fun _ => id
    · rw [hqueue]
      exact h.ordered.imp Nat.ne_of_lt
    · intro hmem
      simp [hstack] at hmem

theorem flushing_close {s : State} (h : Flushing s) (hidle : queuedBy s.stack = []) (connects : Bool)
    (hi : Inv (close s connects)) : Flushing (close s connects) ∧ Turn s (.close connects) (close s connects) := by
  revert hi
  unfold close
  split
  · intro _
    exact ⟨h, .quiet rfl rfl rfl rfl fun _ => id⟩
  · unfold closeConnection
    simp only
    split
    · intro hi
      refine ⟨flushing_idle hi hidle h.live h.pending (fun hnone x hx => ?_) h.ordered (by simp [loseConnection]),
        .quiet rfl rfl rfl rfl fun _ => id⟩
      exact (h.unsent hnone x hx).keep rfl fun _ => id
    · intro hi
      refine ⟨flushing_idle hi hidle h.live h.pending (fun hnone x hx => ?_) h.ordered (by simp [fireDown]),
        .quiet rfl rfl rfl rfl fun _ => id⟩
      exact (h.unsent hnone x hx).keep rfl fun _ => id
    · next k hproto _ =>
      split
      · intro hi
        refine ⟨flushing_idle hi hidle h.live h.pending (fun hnone x hx => ?_) h.ordered (by simp),
          .quiet rfl rfl rfl rfl fun _ => id⟩
        exact (h.unsent hnone x hx).keep rfl fun _ => id
      · next kind hk =>
        have hpending := (h.lookup hk).1
        split
        · intro hi
          have hlive : s.live ++ [s.nextConnection] = (some s.nextConnection).toList := by simp [h.live_nil hproto]
          unfold cbConnect at hi ⊢
          simp only [Option.isSome_some, if_true] at hi ⊢
          exact ⟨flushing_idle hi hidle hlive (.inl hpending) (by simp [loseConnection, setProto]) h.ordered
            (by simp [loseConnection, setProto]), .up hidle rfl rfl (by simp [loseConnection, setProto]) rfl⟩
        · intro hi
          refine ⟨flushing_idle hi hidle h.live (.inl hpending) (fun hnone x hx => ?_) h.ordered (by simp [fireDown]),
            .quiet rfl rfl rfl rfl fun _ => id⟩
          exact (h.unsent hnone x hx).keep rfl fun _ => id

theorem flushing_pending {s t : State} (h : Flushing s) (hi : Inv t) {k : Nat} {kind : Pending}
    (hk : s.pending.lookup k = some kind) (hheap : t.heap = s.heap) (hreq : t.requests = s.requests)
    (hproto : t.proto = s.proto) (hlive : t.live = s.live) (hstack : t.stack = s.stack) (hdown : t.dDown = s.dDown)
    (hpending : t.pending = [] ∨ ∃ j kind, t.pending = [(j, kind)] ∧ t.connector = some j) : Flushing t := by
  have hnone := (h.lookup hk).2
  refine ⟨hi, ?_, ?_, ?_, ?_, ?_, ?_, ?_, ?_⟩
  · rw [hstack]
    exact fun x hx => (h.waiting x hx).keep (by rw [hheap]) (by rw [hreq]; exact fun _ => id)
  · rw [hstack]
    exact h.nodup
  · rw [hstack, hproto, hdown]
    exact h.up
  · rw [hlive, hproto]
    exact h.live
  · rcases hpending with hp | ⟨j, kind', hp, hc⟩
    · exact .inl hp
    · exact .inr ⟨j, kind', hp, hproto.trans hnone, hc⟩
  · rw [hproto, hreq]
    exact fun hn x hx => (h.unsent hn x hx).keep (by rw [hheap]) (by rw [hreq]; exact fun _ => id)
  · rw [hreq]
    exact h.ordered
  · rw [hstack, hdown]
    exact h.closing

theorem waits_markUnsent {s : State} (hi : Inv (markUnsent s)) {x : Nat} (hx : x ∈ (markUnsent s).requests.values) :
    Waits (markUnsent s) x := by
  obtain ⟨cid, hcid⟩ := (mem_values_iff _ _).mp hx
  obtain ⟨r, hr, rfl⟩ := hi.entry cid x hcid
  have hmem : x ∈ s.requests.values := (values_filter_sublist _ _).subset hx
  have hkept := hcid
  have hmarked := hr
  simp only [markUnsent, Dict.get?_filter, Option.filter_eq_some_iff] at hkept
  simp only [markUnsent, Dict.get?_mapValues, Option.map_eq_some_iff] at hmarked
  obtain ⟨y, hy, heq⟩ := hmarked
  have hcan : y.cancelled = none := by simpa [isCancelled, hy] using hkept.2
  rw [if_pos ⟨hmem, by simp [hcan]⟩] at heq
  subst heq
  exact ⟨_, ⟨hr, hcid, hcan⟩, rfl⟩

theorem flushing_connectionLost {s : State} (h : Flushing s) (hstack : s.stack = []) {c : Nat} (hc : c ∈ s.live)
    (hi : Inv (connectionLost { s with live := s.live.filter (· ≠ c) })) :
    Flushing (connectionLost { s with live := s.live.filter (· ≠ c) }) ∧
      Turn s (.connectionLost c) (connectionLost { s with live := s.live.filter (· ≠ c) }) := by
  have hidle : queuedBy s.stack = [] := by simp [hstack, queuedBy]
  obtain ⟨hproto, hlive⟩ : s.proto = some c ∧ (s.live.filter (· ≠ c)) = [] := by
    rw [h.live] at hc ⊢
    simp only [Option.mem_toList] at hc
    simp [hc]
  have hpending : s.pending = [] := h.pending.resolve_right (by simp [hproto])
  have hinv : Inv (markUnsent { s with live := s.live.filter (· ≠ c), proto := none }) :=
    inv_markUnsent (h.inv.congr ⟨rfl, rfl, rfl, rfl⟩ (fun _ ho => .inl ho) h.inv.closing) hstack
  have hmark : Flushing (markUnsent { s with live := s.live.filter (· ≠ c), proto := none }) :=
    flushing_idle hinv hidle hlive (.inl hpending) (fun _ x hx => waits_markUnsent hinv hx)
      (h.ordered.sublist (values_filter_sublist _ _)) h.closing
  revert hi
  unfold connectionLost
  simp only
  split
  · intro hi
    exact ⟨flushing_idle hi hidle hlive (.inl hpending)
      (fun hnone x hx => (hmark.unsent hnone x hx).keep rfl fun _ => id)
      hmark.ordered (by simp [fireDown, markUnsent, hstack]), .lost hidle hidle rfl rfl rfl⟩
  · split
    · intro _
      exact ⟨hmark, .lost hidle hidle rfl rfl rfl⟩
    · intro hi
      exact ⟨flushing_connect hmark hi hpending rfl, .lost hidle hidle rfl rfl rfl⟩

theorem flushRound_waiting {s : State} (h : Flushing s) {o : Nat} {rest : List Nat} {below : List Frame}
    (hstack : s.stack = .flush (o :: rest) :: below) (sendFails : Option Exc) :
    ∃ c r, s.proto = some c ∧ Outstanding s o r ∧ r.sent = none ∧
      sendRequest { s with stack := .flush rest :: below } o r sendFails =
        (delivered { s with stack := .flush rest :: below } c o r sendFails, none) := by
  have hmem : o ∈ queuedBy s.stack := by simp [hstack, queuedBy]
  obtain ⟨r, ho, hs⟩ := h.waiting o hmem
  obtain ⟨hup, hdown⟩ := h.up (List.ne_nil_of_mem hmem)
  obtain ⟨c, hc⟩ := Option.isSome_iff_exists.mp hup
  have hi : Inv { s with stack := .flush rest :: below } := by
    refine h.inv.congr ⟨rfl, rfl, rfl, rfl⟩ (fun x hx => .inl ?_) fun hd => absurd hdown hd
    rw [hstack]
    exact List.mem_cons_of_mem o hx
  exact ⟨c, r, hc, ho, hs, sendRequest_outstanding hi ho hc sendFails⟩

theorem flushing_flushRound {s : State} (h : Flushing s) {o : Nat} {rest : List Nat} {below : List Frame}
    (hstack : s.stack = .flush (o :: rest) :: below) (sendFails : Option Exc)
    (hi : Inv (flushRound s o rest below sendFails)) :
    Flushing (flushRound s o rest below sendFails) ∧ Turn s (.resume sendFails)
    (flushRound s o rest below sendFails) := by
  obtain ⟨c, r, hc, ho, hs, hsend⟩ := flushRound_waiting h hstack sendFails
  have hq : queuedBy s.stack = o :: queuedBy (.flush rest :: below) := by simp [hstack, queuedBy]
  have hnodup : o ∉ queuedBy (.flush rest :: below) ∧ (queuedBy (.flush rest :: below)).Nodup := by
    have := h.nodup
    rwa [hq, List.nodup_cons] at this
  have heq : flushRound s o rest below sendFails =
      delivered { s with stack := .flush rest :: below } c o r sendFails := by
    simp [flushRound, ho.1, hs, hsend]
  have hdel := delivers_delivered (s := { s with stack := .flush rest :: below }) ho c sendFails
  have hw := delivered_written { s with stack := .flush rest :: below } c o r sendFails
  have hstack' : queuedBy (delivered { s with stack := .flush rest :: below } c o r sendFails).stack =
      queuedBy (.flush rest :: below) := congrArg queuedBy hdel.stack
  rw [heq] at hi ⊢
  refine ⟨h.table hi ⟨hdel.pending, hdel.nextConnector, hdel.connector, hdel.live, hdel.proto, hdel.dDown⟩ ?_ ?_ ?_
    (h.ordered.sublist hdel.table) ?_, .round hc hdel.proto hdel.nextConnection ?_ ⟨r, ho, hs⟩ hw ?_ hdel.sent ?_⟩
  · rw [hstack', hq]
    exact List.sublist_cons_self _ _
  · intro x hx hwaits
    rw [hstack'] at hx
    refine hdel.keeps x ?_ (hwaits.keep rfl fun _ => id)
    rintro rfl
    exact hnodup.1 hx
  · intro hnone
    simp [hc] at hnone
  · rw [hdel.stack, hstack]
    simp
  · rw [hstack', hq]
  · rintro e rfl
    exact delivered_failed _ c o r e
  · exact fun x hx => hdel.keepSent x hx

theorem flushing_closeRound {s : State} (h : Flushing s) {below : List Frame} (hstack : s.stack = .close :: below)
    (sendFails : Option Exc) (hi : Inv (closeRound s below)) :
    Flushing (closeRound s below) ∧ Turn s (.resume sendFails) (closeRound s below) := by
  have hdown : s.dDown ≠ none := h.closing (by simp [hstack])
  have hidle : queuedBy s.stack = [] := by
    by_contra hne
    exact hdown (h.up hne).2
  have hbelow : queuedBy below = [] := by
    rw [hstack] at hidle
    exact hidle
  have hdrop : ∀ t, Inv t → t.heap = s.heap → SameConnection s t → queuedBy t.stack = [] →
      t.requests.values.Sublist s.requests.values → Flushing t := by
    intro t hi hheap hc hq hsub
    refine h.table hi hc (by rw [hq]; exact List.nil_sublist _) ?_ ?_ (h.ordered.sublist hsub) (by simp [hstack])
    · intro x hx
      simp [hq] at hx
    · intro _ x hx
      exact .inl ⟨hsub.subset hx, by rw [hheap]⟩
  revert hi
  unfold closeRound
  split
  · intro hi
    exact ⟨hdrop _ hi rfl ⟨rfl, rfl, rfl, rfl, rfl, rfl⟩ hbelow (List.Sublist.refl _),
      .quiet rfl rfl (by rw [hidle, hbelow]) rfl fun _ => id⟩
  · simp only
    split
    · intro hi
      exact ⟨hdrop _ hi rfl ⟨rfl, rfl, rfl, rfl, rfl, rfl⟩ hidle (values_erase_sublist _ _),
        .quiet rfl rfl rfl rfl fun _ => id⟩
    · split
      · intro hi
        exact ⟨hdrop _ hi rfl ⟨rfl, rfl, rfl, rfl, rfl, rfl⟩ hidle (values_erase_sublist _ _),
          .quiet rfl rfl rfl rfl fun _ => id⟩
      · unfold fire
        simp only
        split
        · next t heq =>
          simp only [Prod.mk.injEq] at heq
          obtain ⟨rfl, -⟩ := heq
          intro hi
          exact ⟨hdrop _ hi rfl ⟨rfl, rfl, rfl, rfl, rfl, rfl⟩ hidle (values_erase_sublist _ _),
            .quiet rfl rfl rfl rfl fun _ => id⟩
        · next t e heq =>
          simp only [Prod.mk.injEq] at heq
          obtain ⟨rfl, -⟩ := heq
          intro hi
          exact ⟨hdrop _ hi rfl ⟨rfl, rfl, rfl, rfl, rfl, rfl⟩ hbelow (values_erase_sublist _ _),
            .quiet rfl rfl (by rw [hidle]; exact hbelow) rfl fun _ => id⟩

/-! ### The step -/

theorem flushing_step {s t : State} {e : Event} (h : Flushing s) (hspare : SparesQueue s e)
    (hstep : step s e = some t) :
    Flushing t ∧ Turn s e t := by
  have hi : Inv t := (step_effect h.inv (h.uniqueIds e) hstep).inv
  cases takes_of_step hstep with
  | advance =>
    exact ⟨h.same hi ⟨rfl, rfl, rfl, rfl, rfl, rfl⟩ rfl rfl (List.Sublist.refl _) id,
      .quiet rfl rfl rfl rfl fun _ => id⟩
  | makeRequest cid request expectResponse sendFails =>
    exact flushing_makeRequest h cid request expectResponse sendFails hi
  | cancel d hd => exact flushing_cancel h hspare hi
  | disconnect =>
    unfold disconnect at hi ⊢
    split
    · next c hc =>
      rw [hc] at hi
      exact ⟨h.same hi ⟨rfl, rfl, rfl, rfl, rfl, rfl⟩ rfl rfl (List.Sublist.refl _) id,
        .quiet rfl rfl rfl rfl fun _ => id⟩
    · exact ⟨h, .quiet rfl rfl rfl rfl fun _ => id⟩
  | close connects => exact flushing_close h hspare connects hi
  | connectionMade k hstack hk => exact flushing_connectionMade h hstack hk hi
  | connectFailed k hstack hk =>
    have hpending := (h.lookup hk).1
    unfold ebConnect at hi ⊢
    split
    · next hdown =>
      rw [if_pos hdown] at hi
      exact ⟨flushing_pending h hi hk rfl rfl rfl rfl rfl rfl (.inl hpending), .quiet rfl rfl rfl rfl fun _ => id⟩
    · next hdown =>
      rw [if_neg hdown] at hi
      refine ⟨flushing_pending h hi hk rfl rfl rfl rfl rfl rfl (.inr ⟨s.nextConnector, .delaying, ?_, rfl⟩),
        .quiet rfl rfl rfl rfl fun _ => id⟩
      simp only [hpending, List.nil_append]
  | delayElapsed k hstack hk =>
    have hpending := (h.lookup hk).1
    refine ⟨flushing_pending h hi hk rfl rfl rfl rfl rfl rfl (.inr ⟨s.nextConnector, .attempting, ?_, rfl⟩),
      .quiet rfl rfl rfl rfl fun _ => id⟩
    simp only [tryConnect, hpending, List.nil_append]
  | connectionLost c hstack hc => exact flushing_connectionLost h hstack hc hi
  | stringReceived c response hstack hc =>
    rw [h.live, Option.mem_toList] at hc
    exact flushing_handleResponse h hstack (by simp [hc]) c response hi
  | flushed sendFails below hstack =>
    have hq : queuedBy below = queuedBy s.stack := by simp [hstack, queuedBy]
    refine ⟨h.same hi ⟨rfl, rfl, rfl, rfl, rfl, rfl⟩ rfl rfl ?_ ?_, .quiet rfl rfl hq rfl fun _ => id⟩
    · rw [← hq]
    · rw [hstack]
      exact List.mem_cons_of_mem _
  | flush sendFails o rest below hstack => exact flushing_flushRound h hstack sendFails hi
  | closing sendFails below hstack => exact flushing_closeRound h hstack sendFails hi

theorem flushing_init : Flushing init where
  inv := inv_init
  waiting := by simp [init, queuedBy]
  nodup := by simp [init, queuedBy]
  up := by simp [init, queuedBy]
  live := by simp [init]
  pending := by simp [init]
  unsent := by simp [init, Dict.empty, Dict.values]
  ordered := by simp [init, Dict.empty, Dict.values]
  closing := by simp [init]

end Afkak.BrokerClient
