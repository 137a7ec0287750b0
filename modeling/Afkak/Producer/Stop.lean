import Afkak.Producer.Failing

/-!
# Stopping (`Producer.stop`)

`stop` cancels the batch, and then whatever is outstanding. What is cancelled may go on: a load of metadata that is
cancelled gives `None`, and the lookup then waits for its retry. Otherwise the batch runs to its end between the two,
and at its end looks whether the next one is due. When `stop` has come through, every `Deferred` has fired, and what
has fired is not sent.
-/

open Lib

namespace Afkak.Producer

variable (cfg : Config)

/-! ## When `stop` is safe -/

/-- While `stop` runs, the result of the request leaves nothing to retry, and fails what it is about. -/
def ClientResult.Fails (attempts : Int) : ClientResult → Prop
  | .responses [] | .none => cfg.reqAcks ≠ PRODUCER_ACK_NOT_REQUIRED
  | .responses (_ :: _) => False
  | .failedPayloads l failed => l = [] ∧ (cfg.maxAttempts ≤ attempts ∨ failed = [])
  | .failure e => e.isKafkaError = false ∨ cfg.maxAttempts ≤ attempts

def ClientResult.Settles (attempts : Int) : ClientResult → Prop
  | .responses l => cfg.maxAttempts ≤ attempts ∨ ∀ res ∈ l, res.error = 0
  | .none => True
  | .failedPayloads l failed => cfg.maxAttempts ≤ attempts ∨ (failed = [] ∧ ∀ res ∈ l, res.error = 0)
  | .failure e => e.isKafkaError = false ∨ cfg.maxAttempts ≤ attempts

/-- While `stop` runs, the lookups go on; or they all end, none with a partition for a request that has not fired,
and no other batch is due. -/
def Fruitless (s : State) (requests : List (SendRequest × Lookup)) : Prop :=
  (∀ x ∈ requests, x.2.pending = false) →
    ¬ Due cfg s ∧ ∀ x ∈ requests, Fired s.toCore x.1.deferred ∨ ∀ p, x.2 ≠ .found p

/-- What has gone on ends in the same way, as long as `stop` runs (as `running` says); the request of a batch ends with
nothing to retry, when `stop` has returned. -/
def Ceases (running : Prop) (s : State) (e : Event) : Prop :=
  ∀ b, s.batch = some b →
    match b.stage, e with
    | .lookups requests, .wakeLookup i w =>
      running → ∀ req l, requests[i]? = some (req, l) →
        Fruitless cfg s (requests.set i (req, (wake cfg s.toCore l w).2))
    | .lookups requests, .stop outcome => running → Fruitless cfg s (wakeAll cfg s.toCore requests outcome.wakes).2
    | .sent _, .clientResult r => r.Settles cfg s.reqAttempts ∧ (running → ¬ Due cfg s ∧ r.Fails cfg s.reqAttempts)
    | .sent _, .stop outcome => ∀ r, outcome.result = some r →
      r.Settles cfg s.reqAttempts ∧ (running → ¬ Due cfg s ∧ r.Fails cfg s.reqAttempts)
    | _, _ => True

def Event.isSendMessages : Event → Bool
  | .sendMessages _ _ _ _ => true
  | _ => false

def Still (base : List Act) (s : State) (e : Event) : Prop :=
  e.isSendMessages = false ∧ Ceases cfg (base.length < s.agenda.length) s e

/-! ## The batch after `stop` -/

def Guarded (s : State) : List Act → Prop
  | [] => False
  | .cancelOutstanding :: _ => True
  | .cancelEach ds :: frames => (∀ d < s.nextD, ¬ Fired s.toCore d → d ∈ ds) ∨ Guarded s frames
  | .user :: frames => Guarded s frames
  | .batch :: frames => Failing cfg s.toCore ∧ ¬ Due cfg s ∧ Guarded s frames
  | .checkSendBatch :: frames => ¬ Due cfg s ∧ Guarded s frames

variable {cfg} {c c' : Core} {b : Batch}

/-! ## The steps after `stop` -/

theorem hushed_fire (s : State) (d : Nat) {v : Value} (hv : v.isFailure) : Hushed s.toCore (fire s d v).toCore where
  sends := rfl
  nextD := rfl
  kept x hx := List.mem_append_left _ hx
  fresh x hx := by
    simp only [Fired, fire, List.map_append, List.mem_append, List.map_cons, List.map_nil, List.mem_singleton] at hx
    rcases hx with hx | rfl
    · exact .inl hx
    · exact .inr ⟨v, by simp [fire], hv⟩

theorem Hushed.fired (h : Hushed c c') {d : Nat} (hd : Fired c d) : Fired c' d := by
  obtain ⟨x, hx, rfl⟩ := List.mem_map.mp hd
  exact List.mem_map_of_mem (h.kept x hx)

structure Cancels (cfg : Config) (s t : State) : Prop where
  hushed : Hushed s.toCore t.toCore
  batch : t.batch = s.batch
  attempts : t.reqAttempts = s.reqAttempts
  due : Due cfg t → Due cfg s
  agenda : t.agenda = s.agenda ∨ t.agenda = .user :: s.agenda

theorem cancels_cancelSendMessages (cfg : Config) (s : State) (d : Nat) : Cancels cfg s (cancelSendMessages s d) := by
  unfold cancelSendMessages
  split
  · exact ⟨hushed_of_eq rfl rfl rfl, rfl, rfl, id, .inl rfl⟩
  · split
    · next req hreq =>
      refine ⟨?_, rfl, rfl, ?_, .inr rfl⟩
      · have h := hushed_fire
          { s with
            waitingMsgCount := s.waitingMsgCount - req.messages.length
            waitingByteCount := s.waitingByteCount - (req.messages.map fun m => (m.getD []).length).sum
            batchReqs := s.batchReqs.erase req } d (v := .failure (.cancelled (some false))) rfl
        exact ⟨h.sends, h.nextD, h.kept, h.fresh⟩
      · rintro ⟨hne, hdue⟩
        refine ⟨?_, ?_⟩
        · intro hnil
          apply hne
          simp [fire, hnil]
        · simp only [fire] at hdue
          omega
    · exact ⟨hushed_fire s d rfl, rfl, rfl, id, .inr rfl⟩

theorem Failing.mono (h : Failing cfg c) (hb : c'.batch = c.batch) (ha : c'.reqAttempts = c.reqAttempts)
    (hf : ∀ d, Fired c d → Fired c' d) : Failing cfg c' := by
  intro b hb'
  rw [hb] at hb'
  obtain ⟨ds, v, work, hstage, hv, hw⟩ := h b hb'
  refine ⟨ds, v, work, hstage, hv, ?_⟩
  cases work with
  | route rest groups => exact ⟨hw.1, fun x hx => (hw.2 x hx).imp_left (hf _)⟩
  | responses rest failed =>
    unfold Work.Failing at hw ⊢
    rw [ha]
    exact hw
  | failEach rest => exact hw
  | complete => trivial

theorem Quiet.same (h : Quiet cfg c) (hb : c'.batch = c.batch) (ha : c'.reqAttempts = c.reqAttempts) :
    Quiet cfg c' := by
  intro b hb'
  rw [hb] at hb'
  rw [ha]
  exact h b hb'

theorem Guarded.mono {s t : State} {frames : List Act} (h : Guarded cfg s frames) (hnext : t.nextD = s.nextD)
    (hf : ∀ d, Fired s.toCore d → Fired t.toCore d) (hfail : Failing cfg s.toCore → Failing cfg t.toCore)
    (hdue : Due cfg t → Due cfg s) : Guarded cfg t frames := by
  induction frames with
  | nil => exact h
  | cons act frames ih =>
    cases act with
    | user => exact ih h
    | batch => exact ⟨hfail h.1, fun hd => h.2.1 (hdue hd), ih h.2.2⟩
    | checkSendBatch => exact ⟨fun hd => h.1 (hdue hd), ih h.2⟩
    | cancelOutstanding => trivial
    | cancelEach ds =>
      rcases h with h | h
      · left
        intro d hd hnf
        exact h d (hnext ▸ hd) fun hfired => hnf (hf d hfired)
      · exact .inr (ih h)

def State.stopped (s : State) : State := { s with stopping := true, agenda := .cancelOutstanding :: s.agenda }

end Afkak.Producer
