import Afkak.Lib.Dict
import Afkak.Lib.Machine
import Afkak.Util

/-!
# Bootstrap connections (`KafkaBootstrapProtocol`)

A connection to a bootstrap host keeps the `Deferred`s of its requests in a table, under the correlation ids that the
responses will bear. When the connection is lost it fails those that are left, one after the other; their callbacks
may make requests and cancel others before the loop goes on.

Twisted cuts what a connection brings into strings, and says once that it is lost. A `Deferred` that is cancelled
fires at once, and ignores the first call that it gets later; any other call raises `AlreadyCalledError`.
-/

open Lib

namespace Afkak

structure KafkaBootstrapProtocol where
  /-- `_pending`, which is `None` once the connection is lost. -/
  pending : Dict Bytes Nat := .empty
  failed : Option Exc := none
  /-- The rest of the loop of `connectionLost`. -/
  failing : List Nat := []
  /-- The requests that have got a `Deferred`, each at its number. -/
  requests : List Bytes := []
  fired : List (Nat × Except Exc Bytes) := []
  /-- Those with `_suppressAlreadyCalled`. -/
  suppressed : List Nat := []
  raised : List Exc := []
  written : List Bytes := []
  /-- The calls of `loseConnection` that the protocol itself makes. -/
  dropped : Nat := 0

namespace KafkaBootstrapProtocol

/-- `request[4:8]` -/
def correlationId (request : Bytes) : Bytes := slice request 4 8

def stringTooLongError : Exc := .other 2

def Fired (p : KafkaBootstrapProtocol) (d : Nat) : Prop := d ∈ p.fired.map Prod.fst

instance (p : KafkaBootstrapProtocol) (d : Nat) : Decidable (p.Fired d) := inferInstanceAs (Decidable (_ ∈ _))

/-- `callback` or `errback` -/
def call (p : KafkaBootstrapProtocol) (d : Nat) (r : Except Exc Bytes) : KafkaBootstrapProtocol :=
  if d ∈ p.suppressed then { p with suppressed := p.suppressed.erase d }
  else if p.Fired d then { p with raised := p.raised ++ [.alreadyCalled] }
  else { p with fired := p.fired ++ [(d, r)] }

/-- `Deferred.cancel` -/
def cancel (p : KafkaBootstrapProtocol) (d : Nat) : KafkaBootstrapProtocol :=
  if p.Fired d then p
  else { p with suppressed := d :: p.suppressed, fired := p.fired ++ [(d, .error .tidCancelled)] }

def request (p : KafkaBootstrapProtocol) (request : Bytes) : KafkaBootstrapProtocol × Except Exc Nat :=
  match p.failed with
  | some reason =>
    ({ p with
      requests := p.requests ++ [request]
      fired := p.fired ++ [(p.requests.length, .error reason)] }, .ok p.requests.length)
  | none =>
    if correlationId request ∈ p.pending.keys then (p, .error .assertionError)
    else if 2 ^ 32 ≤ request.length then (p, .error stringTooLongError)
    else
      ({ p with
        requests := p.requests ++ [request]
        written := p.written ++ [request]
        pending := p.pending.set (correlationId request) p.requests.length }, .ok p.requests.length)

def stringReceived (p : KafkaBootstrapProtocol) (response : Bytes) : KafkaBootstrapProtocol :=
  match p.pending.get? (response.take 4) with
  | none => { p with dropped := p.dropped + 1 }
  | some d => { p with pending := p.pending.erase (response.take 4) }.call d (.ok response)

/-- `connectionLost`, up to its loop. -/
def connectionLost (p : KafkaBootstrapProtocol) (reason : Exc) : KafkaBootstrapProtocol :=
  { p with failed := some reason, failing := p.pending.values, pending := .empty }

def lengthLimitExceeded (p : KafkaBootstrapProtocol) : KafkaBootstrapProtocol := { p with dropped := p.dropped + 1 }

/-- The next round of the loop of `connectionLost`. -/
def errback (p : KafkaBootstrapProtocol) : Option KafkaBootstrapProtocol :=
  match p.failed, p.failing with
  | some reason, d :: failing => some ({ p with failing }.call d (.error reason))
  | _, _ => none

inductive Event
  | request (request : Bytes)
  | cancel (d : Nat)
  | stringReceived (response : Bytes)
  | connectionLost (reason : Exc)
  | lengthLimitExceeded
  | errback
deriving DecidableEq

def step (p : KafkaBootstrapProtocol) : Event → Option KafkaBootstrapProtocol
  | .request request => some (p.request request).1
  | .cancel d => if d < p.requests.length then some (p.cancel d) else none
  | .stringReceived response => if p.failed = none then some (p.stringReceived response) else none
  | .connectionLost reason => if p.failed = none then some (p.connectionLost reason) else none
  | .lengthLimitExceeded => if p.failed = none then some p.lengthLimitExceeded else none
  | .errback => p.errback

section Frames

variable (p : KafkaBootstrapProtocol) (d : Nat) (r : Except Exc Bytes)

@[simp] theorem pending_call : (p.call d r).pending = p.pending := by unfold call; split_ifs <;> rfl
@[simp] theorem failed_call : (p.call d r).failed = p.failed := by unfold call; split_ifs <;> rfl
@[simp] theorem failing_call : (p.call d r).failing = p.failing := by unfold call; split_ifs <;> rfl
@[simp] theorem requests_call : (p.call d r).requests = p.requests := by unfold call; split_ifs <;> rfl
@[simp] theorem pending_cancel : (p.cancel d).pending = p.pending := by unfold cancel; split_ifs <;> rfl
@[simp] theorem failed_cancel : (p.cancel d).failed = p.failed := by unfold cancel; split_ifs <;> rfl
@[simp] theorem failing_cancel : (p.cancel d).failing = p.failing := by unfold cancel; split_ifs <;> rfl
@[simp] theorem requests_cancel : (p.cancel d).requests = p.requests := by unfold cancel; split_ifs <;> rfl

end Frames

/-! ## What is still to be called -/

variable {p q : KafkaBootstrapProtocol} {d : Nat}

/-- What a `Deferred` may have fired with: a response under the id of its request, or the reason why there is none. -/
def Proper (p : KafkaBootstrapProtocol) (d : Nat) : Except Exc Bytes → Prop
  | .ok response => p.requests[d]?.map correlationId = some (response.take 4)
  | .error e => e = .tidCancelled ∨ p.failed = some e

/-- The `Deferred`s of `due` get one more call each. The others have fired. -/
structure Kept (p : KafkaBootstrapProtocol) (due : Nat → Prop) : Prop where
  once : (p.fired.map Prod.fst).Nodup
  unraised : p.raised = []
  known : ∀ d, p.Fired d → d < p.requests.length
  suppressed : p.suppressed.Nodup ∧ ∀ d ∈ p.suppressed, p.Fired d
  called : ∀ d, due d → d < p.requests.length ∧ (p.Fired d → d ∈ p.suppressed)
  rest : ∀ d < p.requests.length, ¬ p.Fired d → due d
  proper : ∀ d r, (d, r) ∈ p.fired → p.Proper d r

theorem fired_call (h : ∀ d ∈ p.suppressed, p.Fired d) (d : Nat) (r : Except Exc Bytes) : (p.call d r).Fired d := by
  unfold KafkaBootstrapProtocol.call
  split_ifs with hmem hfired
  · exact h d hmem
  · exact hfired
  · simp [Fired]

variable {due : Nat → Prop}

theorem Kept.mono (h : p.Kept due) {due' : Nat → Prop} (hdue : ∀ d, due' d → due d)
    (hrest : ∀ d, due d → ¬ p.Fired d → due' d) : p.Kept due' :=
  ⟨h.once, h.unraised, h.known, h.suppressed, fun d hd => h.called d (hdue d hd),
    fun d hlt hno => hrest d (h.rest d hlt hno) hno, h.proper⟩

theorem Kept.of_eq (h : p.Kept due) (hrequests : q.requests = p.requests) (hfired : q.fired = p.fired)
    (hsuppressed : q.suppressed = p.suppressed) (hraised : q.raised = p.raised)
    (hfailed : ∀ e, p.failed = some e → q.failed = some e) : q.Kept due := by
  have hiff (d : Nat) : q.Fired d ↔ p.Fired d := by rw [Fired, Fired, hfired]
  refine ⟨hfired ▸ h.once, hraised.trans h.unraised, fun d hd => ?_, ?_, fun d hd => ?_, fun d hd hno => ?_,
    fun d r hd => ?_⟩
  · rw [hrequests]
    exact h.known d ((hiff d).mp hd)
  · rw [hsuppressed]
    exact ⟨h.suppressed.1, fun d hd => (hiff d).mpr (h.suppressed.2 d hd)⟩
  · rw [hrequests, hiff, hsuppressed]
    exact h.called d hd
  · exact h.rest d (hrequests ▸ hd) (mt (hiff d).mpr hno)
  · have hproper := h.proper d r (hfired ▸ hd)
    cases r with
    | ok response => exact (congrArg (fun l => (l[d]?).map correlationId) hrequests).trans hproper
    | error e => exact hproper.imp_right (hfailed e)

theorem Kept.add (h : p.Kept due) (hno : ¬ p.Fired d) {r : Except Exc Bytes} {due' : Nat → Prop}
    (hrequests : p.requests <+: q.requests) (hlt : d < q.requests.length)
    (hgrown : ∀ d' < q.requests.length, d' ≠ d → d' < p.requests.length) (hfired : q.fired = p.fired ++ [(d, r)])
    (hsuppressed : q.suppressed = p.suppressed ∨ q.suppressed = d :: p.suppressed) (hraised : q.raised = p.raised)
    (hfailed : q.failed = p.failed) (hr : q.Proper d r)
    (hdue : ∀ d', due' d' → due d' ∧ (d' = d → d ∈ q.suppressed)) (hrest : ∀ d', due d' → d' ≠ d → due' d') :
    q.Kept due' := by
  have hiff (d' : Nat) : q.Fired d' ↔ p.Fired d' ∨ d' = d := by simp [Fired, hfired]
  have hmore : p.requests.length ≤ q.requests.length := hrequests.length_le
  have hmem (d' : Nat) (hd' : d' ∈ p.suppressed) : d' ∈ q.suppressed := by
    rcases hsuppressed with heq | heq <;> simp [heq, hd']
  refine ⟨?_, hraised.trans h.unraised, fun d' hd' => ?_, ⟨?_, fun d' hd' => ?_⟩, fun d' hd' => ?_,
    fun d' hd' hno' => ?_, fun d' r' hd' => ?_⟩
  · rw [hfired, List.map_append, List.map_singleton]
    exact List.nodup_append_comm.mp (List.nodup_cons.mpr ⟨hno, h.once⟩)
  · rcases (hiff d').mp hd' with hold | rfl
    · exact lt_of_lt_of_le (h.known d' hold) hmore
    · exact hlt
  · rcases hsuppressed with heq | heq
    · exact heq ▸ h.suppressed.1
    · exact heq ▸ List.nodup_cons.mpr ⟨mt (h.suppressed.2 d) hno, h.suppressed.1⟩
  · rw [hiff]
    rcases hsuppressed with heq | heq
    · exact .inl (h.suppressed.2 d' (heq ▸ hd'))
    · rw [heq, List.mem_cons] at hd'
      exact hd'.symm.imp_left (h.suppressed.2 d')
  · obtain ⟨hwas, hself⟩ := hdue d' hd'
    obtain ⟨hlt', hcalled⟩ := h.called d' hwas
    refine ⟨lt_of_lt_of_le hlt' hmore, fun hf => ?_⟩
    rcases (hiff d').mp hf with hold | rfl
    · exact hmem d' (hcalled hold)
    · exact hself rfl
  · rw [hiff, not_or] at hno'
    exact hrest d' (h.rest d' (hgrown d' hd' hno'.2) hno'.1) hno'.2
  · rw [hfired, List.mem_append, List.mem_singleton, Prod.mk.injEq] at hd'
    rcases hd' with hold | ⟨rfl, rfl⟩
    · have hproper := h.proper d' r' hold
      have hlt' := h.known d' (List.mem_map_of_mem hold)
      have hat : q.requests[d']? = p.requests[d']? := by
        rw [List.getElem?_eq_getElem hlt', List.getElem?_eq_getElem (lt_of_lt_of_le hlt' hmore),
          hrequests.getElem hlt']
      cases r' with
      | ok response => exact (congrArg (Option.map correlationId) hat).trans hproper
      | error e => exact hproper.imp_right hfailed.trans
    · exact hr

theorem Kept.call (h : p.Kept due) (hd : due d) {r : Except Exc Bytes} (hr : p.Proper d r) :
    (p.call d r).Kept fun d' => due d' ∧ d' ≠ d := by
  obtain ⟨hlt, hdue⟩ := h.called d hd
  unfold KafkaBootstrapProtocol.call
  split
  · next hmem =>
    refine ⟨h.once, h.unraised, h.known, ⟨h.suppressed.1.erase d, fun d' hd' => ?_⟩, fun d' hd' => ?_,
      fun d' hlt' hno => ⟨h.rest d' hlt' hno, ?_⟩, h.proper⟩
    · exact h.suppressed.2 d' (List.mem_of_mem_erase hd')
    · obtain ⟨hlt', hdue'⟩ := h.called d' hd'.1
      exact ⟨hlt', fun hfired => (List.mem_erase_of_ne hd'.2).mpr (hdue' hfired)⟩
    · rintro rfl
      exact hno (h.suppressed.2 d' hmem)
  · next hmem =>
    have hno := mt hdue hmem
    rw [if_neg hno]
    exact h.add hno (List.prefix_refl _) hlt (fun d' hlt' _ => hlt') rfl (.inl rfl) rfl rfl hr
      (fun d' hd' => ⟨hd'.1, fun heq => absurd heq hd'.2⟩) (fun d' hd' hne => ⟨hd', hne⟩)

theorem Kept.cancel (h : p.Kept due) (hlt : d < p.requests.length) : (p.cancel d).Kept due := by
  unfold KafkaBootstrapProtocol.cancel
  split
  · exact h
  · next hno =>
    exact h.add hno (List.prefix_refl _) hlt (fun d' hlt' _ => hlt') rfl (.inr rfl) rfl rfl (.inl rfl)
      (fun d' hd' => ⟨hd', fun _ => List.mem_cons_self⟩) (fun d' hd' _ => hd')

theorem Kept.refuse (h : p.Kept due) {reason : Exc} (hfailed : p.failed = some reason) (request : Bytes) :
    Kept { p with
      requests := p.requests ++ [request]
      fired := p.fired ++ [(p.requests.length, .error reason)] } due := by
  have hno : ¬ p.Fired p.requests.length := fun hf => absurd (h.known _ hf) (lt_irrefl _)
  refine h.add hno (List.prefix_append _ _) (by simp) (fun d' hlt' hne => ?_) rfl (.inl rfl) rfl rfl (.inr hfailed)
    (fun d' hd' => ⟨hd', ?_⟩) (fun d' hd' _ => hd')
  · simp only [List.length_append, List.length_singleton] at hlt'
    omega
  · rintro rfl
    exact absurd (h.called _ hd').1 (lt_irrefl _)

theorem Kept.await (h : p.Kept due) (request : Bytes) (hrequests : q.requests = p.requests ++ [request])
    (hfired : q.fired = p.fired) (hsuppressed : q.suppressed = p.suppressed) (hraised : q.raised = p.raised)
    (hfailed : q.failed = p.failed) : q.Kept fun d => due d ∨ d = p.requests.length := by
  have hiff (d : Nat) : q.Fired d ↔ p.Fired d := by rw [Fired, Fired, hfired]
  have hlength : q.requests.length = p.requests.length + 1 := by simp [hrequests]
  refine ⟨hfired ▸ h.once, hraised.trans h.unraised, fun d hd => ?_, ?_, fun d hd => ?_, fun d hd hno => ?_,
    fun d r hd => ?_⟩
  · have hlt := h.known d ((hiff d).mp hd)
    omega
  · rw [hsuppressed]
    exact ⟨h.suppressed.1, fun d hd => (hiff d).mpr (h.suppressed.2 d hd)⟩
  · rw [hiff, hsuppressed]
    rcases hd with hd | rfl
    · obtain ⟨hlt, hdue⟩ := h.called d hd
      exact ⟨by omega, hdue⟩
    · exact ⟨by omega, fun hf => absurd (h.known _ hf) (lt_irrefl _)⟩
  · rcases (by omega : d < p.requests.length ∨ d = p.requests.length) with hlt | heq
    · exact .inl (h.rest d hlt (mt (hiff d).mpr hno))
    · exact .inr heq
  · have hold := hfired ▸ hd
    have hproper := h.proper d r hold
    have hlt := h.known d (List.mem_map_of_mem hold)
    cases r with
    | ok response => rwa [Proper, hrequests, List.getElem?_append_left hlt]
    | error e => exact hproper.imp_right hfailed.trans

/-! ## The table -/

/-- A call is due to what the table has, each under the id of its request, and to what the loop has left. The table
is empty once the connection is lost. -/
structure Sound (p : KafkaBootstrapProtocol) : Prop where
  kept : p.Kept fun d => d ∈ p.pending.values ∨ d ∈ p.failing
  ids : ∀ k d, p.pending.get? k = some d → p.requests[d]?.map correlationId = some k
  whole : p.failed = none → p.failing = []
  lost : p.failed.isSome → p.pending = .empty
  nodup : p.failing.Nodup

theorem sound_init : Sound {} := by
  refine ⟨⟨?_, ?_, ?_, ?_, ?_, ?_, ?_⟩, ?_, ?_, ?_, ?_⟩ <;> simp [Fired, Dict.values, Dict.empty, Dict.get?]

theorem Sound.key_eq (h : p.Sound) {k k' : Bytes} (hk : p.pending.get? k = some d) (hk' : p.pending.get? k' = some d) :
    k = k' := Option.some.inj ((h.ids k d hk).symm.trans (h.ids k' d hk'))

theorem Sound.nodup_values (h : p.Sound) : p.pending.values.Nodup := by
  refine List.Nodup.map_on ?_ (List.Nodup.of_map _ p.pending.nodup)
  rintro ⟨k, d⟩ hx ⟨k', d'⟩ hy rfl
  rw [← Dict.get?_eq_some_iff] at hx hy
  rw [h.key_eq hx hy]

theorem Sound.open_of_get? (h : p.Sound) {k : Bytes} (hk : p.pending.get? k = some d) : p.failed = none := by
  by_contra hne
  rw [h.lost (Option.isSome_iff_ne_none.mpr hne)] at hk
  simp at hk

theorem Sound.drop (h : p.Sound) : Sound { p with dropped := p.dropped + 1 } :=
  ⟨h.kept.of_eq rfl rfl rfl rfl fun _ => id, h.ids, h.whole, h.lost, h.nodup⟩

theorem Sound.stringReceived (h : p.Sound) (response : Bytes) : (p.stringReceived response).Sound := by
  unfold KafkaBootstrapProtocol.stringReceived
  split
  · exact h.drop
  · next d hd =>
    have hopen := h.open_of_get? hd
    have hcall := (h.kept.of_eq (q := { p with pending := p.pending.erase (response.take 4) }) rfl rfl rfl rfl
      fun _ => id).call (.inl ((Dict.mem_values_iff _ _).mpr ⟨_, hd⟩)) (r := .ok response) (h.ids _ d hd)
    refine ⟨hcall.mono (fun d' hd' => ?_) (fun d' hd' _ => ?_), fun k d' hk => ?_, fun _ => ?_, fun hlost => ?_, ?_⟩
    · simp only [pending_call, failing_call, h.whole hopen, List.not_mem_nil, or_false, Dict.mem_values_iff,
        Dict.get?_erase] at hd'
      obtain ⟨k, hk⟩ := hd'
      split at hk
      · simp at hk
      · next hne =>
        refine ⟨.inl ((Dict.mem_values_iff _ _).mpr ⟨k, hk⟩), ?_⟩
        rintro rfl
        exact hne (h.key_eq hk hd)
    · obtain ⟨hd' | hd', hne⟩ := hd'
      · obtain ⟨k, hk⟩ := (Dict.mem_values_iff _ _).mp hd'
        refine .inl ((Dict.mem_values_iff _ _).mpr ⟨k, ?_⟩)
        rw [pending_call, Dict.get?_erase, if_neg]
        · exact hk
        · rintro rfl
          exact hne (Option.some.inj (hk.symm.trans hd))
      · rw [h.whole hopen] at hd'
        simp at hd'
    · rw [pending_call, Dict.get?_erase] at hk
      split at hk
      · simp at hk
      · rw [requests_call]
        exact h.ids k d' hk
    · rw [failing_call]
      exact h.whole hopen
    · rw [failed_call, hopen] at hlost
      simp at hlost
    · rw [failing_call]
      exact h.nodup

theorem Sound.connectionLost (h : p.Sound) (hopen : p.failed = none) (reason : Exc) :
    (p.connectionLost reason).Sound := by
  refine ⟨?_, fun k d hk => ?_, fun hnone => ?_, fun _ => rfl, h.nodup_values⟩
  · refine (h.kept.of_eq (q := p.connectionLost reason) rfl rfl rfl rfl fun e he => ?_).mono (fun d hd => ?_)
      (fun d hd _ => ?_)
    · rw [hopen] at he
      simp at he
    · exact .inl (hd.resolve_left (by simp [KafkaBootstrapProtocol.connectionLost, Dict.values, Dict.empty]))
    · exact .inr (hd.resolve_right (by simp [h.whole hopen]))
  · simp [KafkaBootstrapProtocol.connectionLost] at hk
  · simp [KafkaBootstrapProtocol.connectionLost] at hnone

theorem Sound.callNext (h : p.Sound) {reason : Exc} (hlost : p.failed = some reason) {failing : List Nat}
    (hfailing : p.failing = d :: failing) : Sound ({ p with failing }.call d (.error reason)) := by
  have hempty := h.lost (by simp [hlost])
  obtain ⟨hnot, hnodup⟩ := List.nodup_cons.mp (hfailing ▸ h.nodup)
  have hcall := (h.kept.of_eq (q := { p with failing }) rfl rfl rfl rfl fun _ => id).call
    (.inr (hfailing ▸ List.mem_cons_self)) (r := .error reason) (.inr hlost)
  refine ⟨hcall.mono (fun d' hd' => ?_) (fun d' hd' _ => ?_), fun k d' hk => ?_, fun hnone => ?_, fun _ => ?_, ?_⟩
  · simp only [pending_call, failing_call, hempty, Dict.values, Dict.empty, List.map_nil, List.not_mem_nil,
      false_or] at hd'
    refine ⟨.inr (hfailing ▸ List.mem_cons_of_mem d hd'), ?_⟩
    rintro rfl
    exact hnot hd'
  · rw [hempty, hfailing] at hd'
    obtain ⟨hd' | hd', hne⟩ := hd'
    · simp [Dict.values, Dict.empty] at hd'
    · rw [failing_call]
      exact .inr ((List.mem_cons.mp hd').resolve_left hne)
  · rw [pending_call, hempty] at hk
    simp at hk
  · rw [failed_call, hlost] at hnone
    simp at hnone
  · rw [pending_call]
    exact hempty
  · rw [failing_call]
    exact hnodup

theorem Sound.cancel (h : p.Sound) (hlt : d < p.requests.length) : (p.cancel d).Sound := by
  refine ⟨?_, ?_, ?_, ?_, ?_⟩
  · rw [pending_cancel, failing_cancel]
    exact h.kept.cancel hlt
  · rw [pending_cancel, requests_cancel]
    exact h.ids
  · rw [failed_cancel, failing_cancel]
    exact h.whole
  · rw [failed_cancel, pending_cancel]
    exact h.lost
  · rw [failing_cancel]
    exact h.nodup

theorem Sound.request (h : p.Sound) (request : Bytes) : (p.request request).1.Sound := by
  unfold KafkaBootstrapProtocol.request
  split
  · next reason hlost =>
    refine ⟨h.kept.refuse hlost request, fun k d hk => ?_, h.whole, h.lost, h.nodup⟩
    rw [h.lost (by simp [hlost])] at hk
    simp at hk
  · next hopen =>
    split_ifs with hmem hlong
    · exact h
    · exact h
    · have hnew : p.pending.get? (correlationId request) = none := (Dict.get?_eq_none_iff _ _).mpr hmem
      have hawait := h.kept.await (q := { p with
        requests := p.requests ++ [request]
        written := p.written ++ [request]
        pending := p.pending.set (correlationId request) p.requests.length }) request rfl rfl rfl rfl rfl
      refine ⟨hawait.mono (fun d hd => ?_) (fun d hd _ => ?_), fun k d hk => ?_,
        fun _ => h.whole hopen, fun hlost => ?_, h.nodup⟩
      · rcases hd with hd | hd
        · obtain ⟨k, hk⟩ := (Dict.mem_values_iff _ _).mp hd
          rw [Dict.get?_set] at hk
          split at hk
          · exact .inr (Option.some.inj hk).symm
          · exact .inl (.inl ((Dict.mem_values_iff _ _).mpr ⟨k, hk⟩))
        · exact .inl (.inr hd)
      · rcases hd with (hd | hd) | rfl
        · obtain ⟨k, hk⟩ := (Dict.mem_values_iff _ _).mp hd
          refine .inl ((Dict.mem_values_iff _ _).mpr ⟨k, ?_⟩)
          rw [Dict.get?_set, if_neg]
          · exact hk
          · rintro rfl
            rw [hnew] at hk
            simp at hk
        · exact .inr hd
        · exact .inl ((Dict.mem_values_iff _ _).mpr ⟨correlationId request, by simp⟩)
      · rw [Dict.get?_set] at hk
        split at hk
        · next heq =>
          obtain rfl := Option.some.inj hk
          simp [heq]
        · have hlt : d < p.requests.length := (h.kept.called d (.inl ((Dict.mem_values_iff _ _).mpr ⟨k, hk⟩))).1
          rw [List.getElem?_append_left hlt]
          exact h.ids k d hk
      · simp [hopen] at hlost

theorem Sound.step (h : p.Sound) {e : Event} (hstep : step p e = some q) : q.Sound := by
  cases e with
  | request request => exact Option.some.inj hstep ▸ h.request request
  | cancel d =>
    obtain ⟨hlt, rfl⟩ : d < p.requests.length ∧ p.cancel d = q := by
      simpa [KafkaBootstrapProtocol.step] using hstep
    exact h.cancel hlt
  | stringReceived response =>
    obtain ⟨-, rfl⟩ : p.failed = none ∧ p.stringReceived response = q := by
      simpa [KafkaBootstrapProtocol.step] using hstep
    exact h.stringReceived response
  | connectionLost reason =>
    obtain ⟨hopen, rfl⟩ : p.failed = none ∧ p.connectionLost reason = q := by
      simpa [KafkaBootstrapProtocol.step] using hstep
    exact h.connectionLost hopen reason
  | lengthLimitExceeded =>
    obtain ⟨-, rfl⟩ : p.failed = none ∧ p.lengthLimitExceeded = q := by
      simpa [KafkaBootstrapProtocol.step] using hstep
    exact h.drop
  | errback =>
    change p.errback = some q at hstep
    unfold errback at hstep
    split at hstep
    · next reason d failing hlost hfailing => exact Option.some.inj hstep ▸ h.callNext hlost hfailing
    · simp at hstep

/-! ## Every run -/

/-- No `Deferred` fires twice, none is called once too often, and what has not fired is going to be called. -/
structure Answers (p : KafkaBootstrapProtocol) : Prop where
  once : (p.fired.map Prod.fst).Nodup
  unraised : p.raised = []
  proper : ∀ d r, (d, r) ∈ p.fired → p.Proper d r
  waiting : ∀ d < p.requests.length, ¬ p.Fired d → d ∈ p.pending.values ∨ d ∈ p.failing
  /-- Once the connection is lost and the loop is over, everyone has been told. -/
  lost : p.failed.isSome → p.failing = [] → ∀ d < p.requests.length, p.Fired d

theorem Sound.answers (h : p.Sound) : p.Answers := by
  refine ⟨h.kept.once, h.kept.unraised, h.kept.proper, h.kept.rest, fun hlost hdone d hlt => ?_⟩
  by_contra hno
  rcases h.kept.rest d hlt hno with hd | hd
  · simp [h.lost hlost, Dict.values, Dict.empty] at hd
  · simp [hdone] at hd

theorem bootstrapTable_sound (es : List Event) (p : KafkaBootstrapProtocol)
    (hrun : Machine.run step {} es = some p) : p.Answers :=
  (Machine.run_invariant_all step Sound (fun _ _ _ h hstep => h.step hstep) es {} p sound_init hrun).answers

end KafkaBootstrapProtocol

end Afkak
