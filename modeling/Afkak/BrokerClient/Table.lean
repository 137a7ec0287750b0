import Afkak.BrokerClient

/-!
# The request table

An unfired `Deferred` is one whose request is in the table and not cancelled. The invariant says so,
and that a loop which still has a request to send finds no other request under its id.
-/

open Lib

namespace Afkak.BrokerClient

def queuedBy : List Frame → List Nat
  | [] => []
  | .flush rest :: frames => rest ++ queuedBy frames
  | .close :: frames => queuedBy frames

def Outstanding (s : State) (o : Nat) (r : RequestState) : Prop :=
  s.heap.get? o = some r ∧ s.requests.get? r.correlationId = some o ∧ r.cancelled = none

structure Inv (s : State) : Prop where
  entry : ∀ cid o, s.requests.get? cid = some o → ∃ r, s.heap.get? o = some r ∧ r.correlationId = cid
  fresh : ∀ d, s.nextD ≤ d → s.heap.get? d = none ∧ ¬ Fired s d
  known : ∀ d < s.nextD, s.heap.get? d = none → Fired s d
  once : (s.calls.map Prod.fst).Nodup
  unfired : ∀ o r, s.heap.get? o = some r → (¬ Fired s o ↔ Outstanding s o r)
  sent : ∀ o r, s.heap.get? o = some r → r.cancelled ≠ none → r.sent ≠ none
  queued : ∀ o ∈ queuedBy s.stack, ∃ r, s.heap.get? o = some r ∧
    ∀ o', s.requests.get? r.correlationId = some o' → o' = o
  closing : s.dDown ≠ none → s.requests.entries = [] ∨ s.stack.head? = some .close

structure SameTable (s t : State) : Prop where
  heap : t.heap = s.heap
  nextD : t.nextD = s.nextD
  requests : t.requests = s.requests
  calls : t.calls = s.calls

theorem fired_congr {s t : State} (h : t.calls = s.calls) (d : Nat) : Fired t d ↔ Fired s d := by
  unfold Fired
  rw [h]

theorem outstanding_congr {s t : State} (h : SameTable s t) (o : Nat) (r : RequestState) :
    Outstanding t o r ↔ Outstanding s o r := by
  unfold Outstanding
  rw [h.heap, h.requests]

theorem Inv.congr {s t : State} (hi : Inv s) (h : SameTable s t)
    (hq : ∀ o ∈ queuedBy t.stack, o ∈ queuedBy s.stack ∨ ∃ cid, s.requests.get? cid = some o)
    (hc : t.dDown ≠ none → t.requests.entries = [] ∨ t.stack.head? = some .close) : Inv t where
  entry cid o := by
    rw [h.requests, h.heap]
    exact hi.entry cid o
  fresh d := by
    rw [h.nextD, h.heap, fired_congr h.calls]
    exact hi.fresh d
  known d := by
    rw [h.nextD, h.heap, fired_congr h.calls]
    exact hi.known d
  once := by
    rw [h.calls]
    exact hi.once
  unfired o r := by
    rw [h.heap, fired_congr h.calls, outstanding_congr h]
    exact hi.unfired o r
  sent o r := by
    rw [h.heap]
    exact hi.sent o r
  queued o ho := by
    rw [h.heap, h.requests]
    rcases hq o ho with ho | ⟨cid, hcid⟩
    · exact hi.queued o ho
    · obtain ⟨r, hr, rfl⟩ := hi.entry cid o hcid
      refine ⟨r, hr, fun o' ho' => ?_⟩
      rw [hcid, Option.some.injEq] at ho'
      exact ho'.symm
  closing := hc

/-- A `Deferred` is fired and its entry, if it has one, leaves the table. -/
def retire (s : State) (cid : Int) (o : Nat) (out : Outcome) : State :=
  { s with requests := s.requests.erase cid, calls := s.calls ++ [(o, out)] }

theorem fired_append (s : State) (o : Nat) (out : Outcome) (d : Nat) :
    d ∈ (s.calls ++ [(o, out)]).map Prod.fst ↔ Fired s d ∨ d = o := by
  simp [Fired]

theorem entries_erase_nil (d : Dict Int Nat) (k : Int) (h : d.entries = []) : (d.erase k).entries = [] := by
  simp [Dict.erase, h]

theorem lt_nextD {s : State} (hi : Inv s) {o : Nat} {r : RequestState} (h : s.heap.get? o = some r) : o < s.nextD := by
  by_contra hge
  have := (hi.fresh o (by omega)).1
  rw [h] at this
  cases this

theorem queued_erase {s : State} (hi : Inv s) (cid : Int) : ∀ o ∈ queuedBy s.stack, ∃ r, s.heap.get? o = some r ∧
    ∀ o', (s.requests.erase cid).get? r.correlationId = some o' → o' = o := by
  intro o ho
  obtain ⟨r, hr, hall⟩ := hi.queued o ho
  refine ⟨r, hr, fun o' h' => hall o' ?_⟩
  rw [Dict.get?_erase] at h'
  split at h'
  · cases h'
  · exact h'

theorem closing_erase {s : State} (hi : Inv s) (cid : Int) (hd : s.dDown ≠ none) :
    (s.requests.erase cid).entries = [] ∨ s.stack.head? = some .close :=
  (hi.closing hd).imp_left (entries_erase_nil _ _)

theorem inv_retire {s : State} (hi : Inv s) {o : Nat} {r : RequestState} (ho : Outstanding s o r) (out : Outcome) :
    Inv (retire s r.correlationId o out) := by
  obtain ⟨hheap, htable, hnone⟩ := ho
  have hnot : ¬ Fired s o := (hi.unfired o r hheap).mpr ⟨hheap, htable, hnone⟩
  have hlt := lt_nextD hi hheap
  refine ⟨?_, ?_, ?_, ?_, ?_, hi.sent, ?_, ?_⟩
  · intro cid o' h
    simp only [retire, Dict.get?_erase] at h
    split at h
    · cases h
    · exact hi.entry cid o' h
  · intro d hd
    refine ⟨(hi.fresh d hd).1, ?_⟩
    simp only [Fired, retire, fired_append]
    rintro (h | rfl)
    · exact (hi.fresh d hd).2 h
    · simp only [retire] at hd
      omega
  · intro d hd hnone
    simp only [Fired, retire, fired_append]
    exact .inl (hi.known d hd hnone)
  · simp only [retire, List.map_append, List.map_cons, List.map_nil]
    refine List.nodup_append.mpr ⟨hi.once, by simp, ?_⟩
    rintro a ha b hb rfl
    simp only [List.mem_singleton] at hb
    exact hnot (hb ▸ ha)
  · intro o' r' h'
    have hold := hi.unfired o' r' h'
    simp only [Fired, retire, fired_append, Outstanding, Dict.get?_erase, not_or]
    change s.heap.get? o' = some r' at h'
    constructor
    · rintro ⟨hf, hne⟩
      obtain ⟨-, ht, hc⟩ := hold.mp hf
      refine ⟨h', ?_, hc⟩
      rw [if_neg]
      · exact ht
      · intro heq
        rw [heq, htable, Option.some.injEq] at ht
        exact hne ht.symm
    · rintro ⟨-, ht, hc⟩
      split at ht
      · cases ht
      · rename_i hne
        refine ⟨hold.mpr ⟨h', ht, hc⟩, ?_⟩
        rintro rfl
        rw [hheap, Option.some.injEq] at h'
        exact hne (by rw [h'])
  · exact queued_erase hi r.correlationId
  · exact closing_erase hi r.correlationId

theorem inv_drop {s : State} (hi : Inv s) {cid : Int} {o : Nat} {r : RequestState} (hcid : s.requests.get? cid = some o)
    (hheap : s.heap.get? o = some r) (hcan : r.cancelled ≠ none) :
    Inv { s with requests := s.requests.erase cid } := by
  obtain ⟨r₀, hr₀, hr₀cid⟩ := hi.entry cid o hcid
  rw [hheap, Option.some.injEq] at hr₀
  subst hr₀
  refine ⟨?_, hi.fresh, hi.known, hi.once, ?_, hi.sent, ?_, ?_⟩
  · intro cid' o' h
    simp only [Dict.get?_erase] at h
    split at h
    · cases h
    · exact hi.entry cid' o' h
  · intro o' r' h'
    have hold := hi.unfired o' r' h'
    simp only [Outstanding, Dict.get?_erase]
    change ¬ Fired s o' ↔ _
    rw [hold]
    constructor
    · rintro ⟨-, ht, hc⟩
      refine ⟨h', ?_, hc⟩
      rw [if_neg]
      · exact ht
      · intro heq
        rw [heq, hcid, Option.some.injEq] at ht
        subst ht
        change s.heap.get? o = some r' at h'
        rw [hheap, Option.some.injEq] at h'
        exact hcan (h' ▸ hc)
    · rintro ⟨-, ht, hc⟩
      split at ht
      · cases ht
      · exact ⟨h', ht, hc⟩
  · exact queued_erase hi cid
  · exact closing_erase hi cid

theorem inv_setHeap {s : State} (hi : Inv s) {o : Nat} {r q : RequestState} (hheap : s.heap.get? o = some r)
    (hcid : q.correlationId = r.correlationId) (hcan : q.cancelled = r.cancelled)
    (hsent : q.cancelled ≠ none → q.sent ≠ none) : Inv { s with heap := s.heap.set o q } := by
  -- Every lookup finds a request of the same id and cancellation as before.
  have hget : ∀ d x, (s.heap.set o q).get? d = some x →
      ∃ y, s.heap.get? d = some y ∧ x.correlationId = y.correlationId ∧ x.cancelled = y.cancelled ∧
        (x.cancelled ≠ none → x.sent ≠ none) := by
    intro d x hx
    rw [Dict.get?_set] at hx
    split at hx
    · rename_i heq
      subst heq
      simp only [Option.some.injEq] at hx
      subst hx
      exact ⟨r, hheap, hcid, hcan, hsent⟩
    · exact ⟨x, hx, rfl, rfl, hi.sent d x hx⟩
  have hsome : ∀ d y, s.heap.get? d = some y →
      ∃ x, (s.heap.set o q).get? d = some x ∧ x.correlationId = y.correlationId := by
    intro d y hy
    rw [Dict.get?_set]
    split
    · rename_i heq
      subst heq
      rw [hheap, Option.some.injEq] at hy
      exact ⟨q, rfl, hy ▸ hcid⟩
    · exact ⟨y, hy, rfl⟩
  have hnone : ∀ d, (s.heap.set o q).get? d = none ↔ s.heap.get? d = none := by
    intro d
    rw [Dict.get?_set]
    split
    · rename_i heq
      subst heq
      rw [hheap]
      simp
    · rfl
  refine ⟨?_, ?_, ?_, hi.once, ?_, ?_, ?_, hi.closing⟩
  · intro cid d h
    obtain ⟨y, hy, rfl⟩ := hi.entry cid d h
    exact hsome d y hy
  · intro d hd
    exact ⟨(hnone d).mpr (hi.fresh d hd).1, (hi.fresh d hd).2⟩
  · intro d hd h
    exact hi.known d hd ((hnone d).mp h)
  · intro d x hx
    obtain ⟨y, hy, h1, h2, -⟩ := hget d x hx
    have hold := hi.unfired d y hy
    constructor
    · intro hf
      obtain ⟨-, ht, hc⟩ := hold.mp hf
      exact ⟨hx, by rw [h1]; exact ht, by rw [h2]; exact hc⟩
    · rintro ⟨-, ht, hc⟩
      rw [h1] at ht
      exact hold.mpr ⟨hy, ht, h2 ▸ hc⟩
  · intro d x hx
    exact (hget d x hx).choose_spec.2.2.2
  · intro d hd
    obtain ⟨y, hy, hall⟩ := hi.queued d hd
    obtain ⟨x, hx, hxcid⟩ := hsome d y hy
    exact ⟨x, hx, by rw [hxcid]; exact hall⟩

theorem inv_cancelSent {s : State} (hi : Inv s) {o : Nat} {r : RequestState} (ho : Outstanding s o r)
    (hsent : r.sent ≠ none) (now : Nat) (out : Outcome) :
    Inv { s with heap := s.heap.set o { r with cancelled := some now }, calls := s.calls ++ [(o, out)] } := by
  obtain ⟨hheap, htable, hnone⟩ := ho
  have hnot : ¬ Fired s o := (hi.unfired o r hheap).mpr ⟨hheap, htable, hnone⟩
  have hlt := lt_nextD hi hheap
  refine ⟨?_, ?_, ?_, ?_, ?_, ?_, ?_, hi.closing⟩
  · intro cid d h
    obtain ⟨y, hy, rfl⟩ := hi.entry cid d h
    rw [Dict.get?_set]
    split
    · rename_i heq
      subst heq
      rw [hheap, Option.some.injEq] at hy
      exact ⟨_, rfl, hy ▸ rfl⟩
    · exact ⟨y, hy, rfl⟩
  · intro d hd
    have hne : o ≠ d := by
      simp only at hd
      omega
    refine ⟨by rw [Dict.get?_set, if_neg hne]; exact (hi.fresh d hd).1, ?_⟩
    simp only [Fired, fired_append]
    rintro (h | rfl)
    · exact (hi.fresh d hd).2 h
    · exact hne rfl
  · intro d hd h
    rw [Dict.get?_set] at h
    split at h
    · cases h
    · simp only [Fired, fired_append]
      exact .inl (hi.known d hd h)
  · simp only [List.map_append, List.map_cons, List.map_nil]
    refine List.nodup_append.mpr ⟨hi.once, by simp, ?_⟩
    rintro a ha b hb rfl
    simp only [List.mem_singleton] at hb
    exact hnot (hb ▸ ha)
  · intro d x hx
    have hx' := hx
    rw [Dict.get?_set] at hx'
    simp only [Fired, fired_append, not_or, Outstanding]
    split at hx'
    · rename_i heq
      subst heq
      simp only [Option.some.injEq] at hx'
      subst hx'
      simp
    · rename_i hne
      rw [Dict.get?_set, if_neg hne]
      have hold := hi.unfired d x hx'
      constructor
      · rintro ⟨hf, -⟩
        exact hold.mp hf
      · intro h
        exact ⟨hold.mpr h, fun heq => hne heq.symm⟩
  · intro d x hx
    rw [Dict.get?_set] at hx
    split at hx
    · simp only [Option.some.injEq] at hx
      subst hx
      exact fun _ => hsent
    · exact hi.sent d x hx
  · intro d hd
    obtain ⟨y, hy, hall⟩ := hi.queued d hd
    rw [Dict.get?_set]
    split
    · rename_i heq
      subst heq
      rw [hheap, Option.some.injEq] at hy
      subst hy
      exact ⟨_, rfl, hall⟩
    · exact ⟨y, hy, hall⟩

/-! ## What the methods do to the table -/

@[simp] theorem fire_fst (s : State) (d : Nat) (out : Outcome) :
    (fire s d out).1 = { s with calls := s.calls ++ [(d, out)] } := rfl

def Sends (s : State) (o : Nat) (out : Outcome) : Prop :=
  (∃ e, out = .failed e) ∨
    (out = .success none ∧ (∃ r, s.heap.get? o = some r ∧ r.expectResponse = false) ∧ ∃ c, (c, o) ∈ s.written)

def marked (s : State) (o : Nat) (r : RequestState) (writes : List (Nat × Nat)) : State :=
  { s with heap := s.heap.set o { r with sent := some s.seconds }, written := s.written ++ writes }

theorem sendRequest_eq (s : State) (o : Nat) (r : RequestState) (sendFails : Option Exc) :
    sendRequest s o r sendFails =
      match s.proto, sendFails with
      | none, _ => finish (marked s o r []) r.correlationId o (.failed .attributeError)
      | some _, some e => finish (marked s o r []) r.correlationId o (.failed e)
      | some c, none =>
        if r.expectResponse then (marked s o r [(c, o)], none)
        else finish (marked s o r [(c, o)]) r.correlationId o (.success none) := by
  unfold sendRequest marked
  cases s.proto with
  | none => simp
  | some c => cases sendFails <;> simp

theorem finish_cases {s : State} {cid : Int} {o : Nat} (out : Outcome)
    (hown : ∀ o', s.requests.get? cid = some o' → o' = o) (hfired : s.requests.get? cid = some o → ¬ Fired s o) :
    finish s cid o out = (s, some .keyError) ∨
      (s.requests.get? cid = some o ∧ finish s cid o out = (retire s cid o out, none)) := by
  unfold finish
  cases hget : s.requests.get? cid with
  | none => exact .inl rfl
  | some o' =>
    obtain rfl := hown o' hget
    refine .inr ⟨rfl, ?_⟩
    have hnot : ¬ Fired { s with requests := s.requests.erase cid } o' := hfired hget
    simp only [fire, if_neg hnot, retire]

/-- Sending a request that no other has displaced: it stays, or it is fired and leaves. -/
theorem sendRequest_cases {s : State} (hi : Inv s) {o : Nat} {r : RequestState} (hheap : s.heap.get? o = some r)
    (hsent : r.sent = none) (hown : ∀ o', s.requests.get? r.correlationId = some o' → o' = o)
    (sendFails : Option Exc) :
    ∃ writes, Inv (marked s o r writes) ∧
      ((sendRequest s o r sendFails).1 = marked s o r writes ∨
        ∃ out, Outstanding s o r ∧ Sends (marked s o r writes) o out ∧
          sendRequest s o r sendFails = (retire (marked s o r writes) r.correlationId o out, none)) := by
  have hcan : r.cancelled = none := by
    by_contra h
    exact hi.sent o r hheap h hsent
  have hmark : ∀ writes, Inv (marked s o r writes) := by
    intro writes
    have h := inv_setHeap (q := { r with sent := some s.seconds }) hi hheap rfl rfl (by simp)
    exact h.congr ⟨rfl, rfl, rfl, rfl⟩ (fun _ ho => .inl ho) hi.closing
  have hout : s.requests.get? r.correlationId = some o → Outstanding s o r := fun h => ⟨hheap, h, hcan⟩
  have hfin : ∀ writes out, Sends (marked s o r writes) o out →
      ∃ writes', Inv (marked s o r writes') ∧
        ((finish (marked s o r writes) r.correlationId o out).1 = marked s o r writes' ∨
          ∃ out', Outstanding s o r ∧ Sends (marked s o r writes') o out' ∧
            finish (marked s o r writes) r.correlationId o out =
              (retire (marked s o r writes') r.correlationId o out', none)) := by
    intro writes out hs
    refine ⟨writes, hmark writes, ?_⟩
    rcases finish_cases (s := marked s o r writes) out hown
      (fun h => (hi.unfired o r hheap).mpr (hout h)) with h | ⟨hget, h⟩
    · exact .inl (by rw [h])
    · exact .inr ⟨out, hout hget, hs, h⟩
  rw [sendRequest_eq]
  split
  · exact hfin [] _ (.inl ⟨_, rfl⟩)
  · exact hfin [] _ (.inl ⟨_, rfl⟩)
  · next c _ =>
    split
    · exact ⟨[(c, o)], hmark _, .inl rfl⟩
    · next hexp =>
      have hset : (marked s o r [(c, o)]).heap.get? o = some { r with sent := some s.seconds } := by simp [marked]
      exact hfin [(c, o)] _ (.inr ⟨rfl, ⟨_, hset, by simpa using hexp⟩, c, by simp [marked]⟩)

theorem outstanding_marked {s : State} {o : Nat} {r : RequestState} (h : Outstanding s o r)
    (writes : List (Nat × Nat)) :
    Outstanding (marked s o r writes) o { r with sent := some s.seconds } := by
  obtain ⟨-, ht, hc⟩ := h
  exact ⟨by simp [marked], ht, hc⟩

/-- A caller does not reuse an id that a running flush has yet to send. -/
def UniqueIds (s : State) : Event → Prop
  | .makeRequest correlationId _ _ _ =>
    (s.requests.get? correlationId).isSome ∨
      ∀ o ∈ queuedBy s.stack, (s.heap.get? o).map (·.correlationId) ≠ some correlationId
  | _ => True

instance (s : State) (e : Event) : Decidable (UniqueIds s e) := by
  cases e <;> unfold UniqueIds <;> infer_instance

def enqueue (s : State) (r : RequestState) : State :=
  { s with
    heap := s.heap.set s.nextD r
    nextD := s.nextD + 1
    requests := s.requests.set r.correlationId s.nextD }

theorem inv_enqueue {s : State} (hi : Inv s) {r : RequestState} (hnew : s.requests.get? r.correlationId = none)
    (hq : ∀ o ∈ queuedBy s.stack, (s.heap.get? o).map (·.correlationId) ≠ some r.correlationId)
    (hdown : s.dDown = none) (hcan : r.cancelled = none) : Inv (enqueue s r) := by
  have hfresh := hi.fresh s.nextD le_rfl
  have hold : ∀ d x, s.heap.get? d = some x → (s.heap.set s.nextD r).get? d = some x := by
    intro d x hx
    have hne : s.nextD ≠ d := Nat.ne_of_gt (lt_nextD hi hx)
    rw [Dict.get?_set, if_neg hne]
    exact hx
  have hkeep : ∀ cid o, s.requests.get? cid = some o → r.correlationId ≠ cid := by
    rintro cid o h rfl
    rw [hnew] at h
    cases h
  refine ⟨?_, ?_, ?_, hi.once, ?_, ?_, ?_, ?_⟩
  · intro cid o h
    simp only [enqueue, Dict.get?_set] at h ⊢
    split at h
    · rename_i heq
      simp only [Option.some.injEq] at h
      subst h
      exact ⟨r, by simp, heq⟩
    · obtain ⟨x, hx, hcid⟩ := hi.entry cid o h
      exact ⟨x, by rw [← Dict.get?_set]; exact hold o x hx, hcid⟩
  · intro d hd
    simp only [enqueue] at hd
    have hne : s.nextD ≠ d := by omega
    simp only [enqueue, Dict.get?_set, if_neg hne]
    exact hi.fresh d (by omega)
  · intro d hd h
    simp only [enqueue, Dict.get?_set] at hd h
    split at h
    · cases h
    · exact hi.known d (by omega) h
  · intro d x hx
    simp only [enqueue, Dict.get?_set] at hx
    split at hx
    · rename_i heq
      subst heq
      simp only [Option.some.injEq] at hx
      subst hx
      refine ⟨fun _ => ⟨by simp [enqueue], by simp [enqueue], hcan⟩, fun _ => hfresh.2⟩
    · rename_i hne
      have hun := hi.unfired d x hx
      refine hun.trans ?_
      constructor
      · rintro ⟨h1, h2, h3⟩
        refine ⟨hold d x h1, ?_, h3⟩
        simp only [enqueue, Dict.get?_set, if_neg (hkeep _ _ h2)]
        exact h2
      · rintro ⟨-, h2, h3⟩
        refine ⟨hx, ?_, h3⟩
        simp only [enqueue, Dict.get?_set] at h2
        split at h2
        · simp only [Option.some.injEq] at h2
          exact absurd h2 hne
        · exact h2
  · intro d x hx
    simp only [enqueue, Dict.get?_set] at hx
    split at hx
    · simp only [Option.some.injEq] at hx
      subst hx
      exact fun h => absurd hcan h
    · exact hi.sent d x hx
  · intro o ho
    obtain ⟨x, hx, hall⟩ := hi.queued o ho
    refine ⟨x, hold o x hx, fun o' h' => ?_⟩
    simp only [enqueue, Dict.get?_set] at h'
    split at h'
    · rename_i heq
      have := hq o ho
      rw [hx, Option.map_some, heq] at this
      exact absurd rfl this
    · exact hall o' h'
  · intro h
    exact absurd hdown h

theorem inv_refuse {s : State} (hi : Inv s) {out : Outcome} :
    Inv { s with nextD := s.nextD + 1, calls := s.calls ++ [(s.nextD, out)] } := by
  have hfresh := hi.fresh s.nextD le_rfl
  refine ⟨hi.entry, ?_, ?_, ?_, ?_, hi.sent, hi.queued, hi.closing⟩
  · intro d hd
    simp only at hd
    refine ⟨(hi.fresh d (by omega)).1, ?_⟩
    simp only [Fired, fired_append]
    rintro (h | h)
    · exact (hi.fresh d (by omega)).2 h
    · omega
  · intro d hd h
    simp only [Fired, fired_append]
    simp only at hd
    rcases Nat.lt_or_ge d s.nextD with hlt | hge
    · exact .inl (hi.known d hlt h)
    · exact .inr (by omega)
  · simp only [List.map_append, List.map_cons, List.map_nil]
    refine List.nodup_append.mpr ⟨hi.once, by simp, ?_⟩
    rintro a ha b hb rfl
    simp only [List.mem_singleton] at hb
    exact hfresh.2 (hb ▸ ha)
  · intro o r h
    have hne : o ≠ s.nextD := Nat.ne_of_lt (lt_nextD hi h)
    have hold := hi.unfired o r h
    simp only [Fired, fired_append, not_or]
    exact ⟨fun hf => hold.mp hf.1, fun ho => ⟨hold.mpr ho, hne⟩⟩

end Afkak.BrokerClient
