import Afkak.Producer.Stop

/-!
# What a step does, exactly

`Move` leaves open what a lookup does to the attempts and which requests a cancellation leaves. A `Turn` says both:
it names the function of the producer that runs. A step is again a sequence of turns, provided that only
`Deferred`s that exist are cancelled. Each turn has with it the loads that have left the metadata in error.
-/

open Lib

namespace Afkak.Producer

/-- A load has come back, and the topic's metadata is still in error. -/
def failedLoad (l : Lookup) (w : Wake) : Nat :=
  match l, w with
  | .loading, .loaded a => if a.metadataError = 0 then 0 else 1
  | _, _ => 0

def failedLoads : List (SendRequest × Lookup) → List Wake → List Nat
  | (req, l) :: requests, w :: wakes => List.replicate (failedLoad l w) req.deferred ++ failedLoads requests wakes
  | _, _ => []

abbrev Loads := List (Nat × Nat)

def loadsOf (s : State) : Event → Loads
  | .wakeLookup i w =>
    match s.batch with
    | some b =>
      match b.stage with
      | .lookups requests =>
        match requests[i]? with
        | some (req, l) => (List.replicate (failedLoad l w) req.deferred).map (b.number, ·)
        | none => []
      | _ => []
    | none => []
  | .stop outcome =>
    match s.batch with
    | some b =>
      match b.stage with
      | .lookups requests => (failedLoads requests outcome.wakes).map (b.number, ·)
      | _ => []
    | none => []
  | _ => []

variable (cfg : Config)

inductive Woken (c : Core) (requests : List (SendRequest × Lookup)) :
    List Nat → Core → List (SendRequest × Lookup) → Prop
  | one (i : Nat) (req : SendRequest) (l : Lookup) (w : Wake) (hget : requests[i]? = some (req, l)) :
    Woken c requests (List.replicate (failedLoad l w) req.deferred) (wake cfg c l w).1
      (requests.set i (req, (wake cfg c l w).2))
  | all (wakes : List Wake) :
    Woken c requests (failedLoads requests wakes) (wakeAll cfg c requests wakes).1 (wakeAll cfg c requests wakes).2

inductive Turn (c : Core) : Loads → Core → Prop
  | enqueue (req : SendRequest) (hd : req.deferred = c.nextD) :
    Turn c [] { c with nextD := c.nextD + 1, batchReqs := c.batchReqs ++ [req], submitted := c.submitted ++ [req] }
  | drop (d : Nat) (e : Exc) (req : SendRequest) (hlt : d < c.nextD) (hf : ¬ Fired c d)
    (hreq : (c.batchReqs.find? fun req => req.deferred = d) = some req) :
    Turn c [] { c with batchReqs := c.batchReqs.erase req, calls := c.calls ++ [(d, .failure e)] }
  | disown (d : Nat) (e : Exc) (hlt : d < c.nextD) (hf : ¬ Fired c d)
    (hnone : (c.batchReqs.find? fun req => req.deferred = d) = none) :
    Turn c [] { c with calls := c.calls ++ [(d, .failure e)] }
  | start (answers : List Answer) (hb : c.batch = none) : Turn c [] (startBatch cfg c answers)
  | look (b : Batch) (requests requests' : List (SendRequest × Lookup)) (ds : List Nat) (c₁ : Core)
    (hb : c.batch = some b) (hstage : b.stage = .lookups requests) (hwoken : Woken cfg c requests ds c₁ requests') :
    Turn c (ds.map (b.number, ·)) (setLookups c₁ b requests')
  | skip (b : Batch) (d : Nat) (ds : List Nat) (v : Value) (work : Work) (hb : c.batch = some b)
    (hstage : b.stage = .running (d :: ds) v work) (hf : Fired c d) : Turn c [] (goOn c b ds v work)
  | deliver (b : Batch) (d : Nat) (ds : List Nat) (v : Value) (work : Work) (hb : c.batch = some b)
    (hstage : b.stage = .running (d :: ds) v work) (hf : ¬ Fired c d) :
    Turn c [] { goOn c b ds v work with calls := c.calls ++ [(d, v)] }
  | work (b : Batch) (v : Value) (work : Work) (hb : c.batch = some b) (hstage : b.stage = .running [] v work) :
    Turn c [] (runWork cfg c b v work)
  | result (b : Batch) (payloads : List Payload) (r : ClientResult) (hb : c.batch = some b)
    (hstage : b.stage = .sent payloads) : Turn c [] (handleSendResponse cfg c b r)
  | retry (b : Batch) (payloads : List Payload) (hb : c.batch = some b) (hstage : b.stage = .retrying payloads) :
    Turn c [] (sendProduceRequest c b payloads)
  | cancelRetry (b : Batch) (payloads : List Payload) (hb : c.batch = some b) (hstage : b.stage = .retrying payloads) :
    Turn c [] (cancelRetry c b)

inductive Turns (c : Core) : Loads → Core → Prop
  | refl : Turns c [] c
  | tail {l m : Loads} {c₁ c₂ : Core} (h : Turns c l c₁) (ht : Turn cfg c₁ m c₂) : Turns c (l ++ m) c₂

structure Known (s : State) : Prop where
  outstanding : ∀ d ∈ s.outstanding, d < s.nextD
  cancelled : ∀ ds, Act.cancelEach ds ∈ s.agenda → ∀ d ∈ ds, d < s.nextD

variable {cfg}

/-! ## Waits that end -/

theorem wake_counts (cfg : Config) (c : Core) (l : Lookup) (w : Wake) :
    ∃ interval, (wake cfg c l w).1 =
      { c with reqAttempts := c.reqAttempts + failedLoad l w, retryInterval := interval } := by
  have hsame (h : failedLoad l w = 0) (hc : (wake cfg c l w).1 = c) : ∃ interval, (wake cfg c l w).1 =
      { c with reqAttempts := c.reqAttempts + failedLoad l w, retryInterval := interval } :=
    ⟨c.retryInterval, by simp [h, hc]⟩
  cases l with
  | loading =>
    cases w with
    | loaded a =>
      by_cases ha : a.metadataError = 0
      · exact hsame (if_pos ha) (by simp [wake, ha])
      · refine ⟨c.retryInterval * RETRY_INTERVAL_FACTOR, ?_⟩
        simp [wake, failedLoad, ha]
    | slept a => exact hsame rfl rfl
    | raised e => exact hsame rfl rfl
  | sleeping =>
    cases w with
    | loaded a => exact hsame rfl rfl
    | slept a => exact hsame rfl rfl
    | raised e => exact hsame rfl rfl
  | found p => exact hsame rfl rfl
  | failed e => exact hsame rfl rfl

theorem wakeAll_counts (cfg : Config) (c : Core) (requests : List (SendRequest × Lookup)) (wakes : List Wake) :
    ∃ interval, (wakeAll cfg c requests wakes).1 =
      { c with reqAttempts := c.reqAttempts + (failedLoads requests wakes).length, retryInterval := interval } := by
  induction requests generalizing c wakes with
  | nil => exact ⟨c.retryInterval, by simp [wakeAll, failedLoads]⟩
  | cons x requests ih =>
    obtain ⟨req, l⟩ := x
    cases wakes with
    | nil => exact ⟨c.retryInterval, by simp [wakeAll, failedLoads]⟩
    | cons w wakes =>
      obtain ⟨interval, hw⟩ := wake_counts cfg c l w
      obtain ⟨interval', hall⟩ := ih (wake cfg c l w).1 wakes
      refine ⟨interval', ?_⟩
      rw [hw] at hall
      simp only [wakeAll, failedLoads, hw, hall, List.length_append, List.length_replicate, Nat.cast_add, Int.add_assoc]

theorem Woken.counts {c c₁ : Core} {requests requests' : List (SendRequest × Lookup)} {ds : List Nat}
    (h : Woken cfg c requests ds c₁ requests') :
    (∃ interval : Rat, c₁ = { c with reqAttempts := c.reqAttempts + ds.length, retryInterval := interval }) ∧
      requests'.map Prod.fst = requests.map Prod.fst := by
  cases h with
  | one i req l w hget =>
    obtain ⟨interval, hw⟩ := wake_counts cfg c l w
    rw [List.length_replicate]
    exact ⟨⟨interval, hw⟩, map_fst_set _ hget⟩
  | all wakes =>
    obtain ⟨interval, hall⟩ := wakeAll_counts cfg c requests wakes
    obtain ⟨_, _, _, hwake, hmap⟩ := wakeAll_eq cfg c requests wakes
    exact ⟨⟨interval, hall⟩, by rw [hwake]; exact hmap⟩

/-! ## The steps as turns -/

theorem Turns.single {c c' : Core} {l : Loads} (h : Turn cfg c l c') : Turns cfg c l c' := .tail .refl h

theorem Turns.trans {c c' c'' : Core} {l m : Loads} (h : Turns cfg c l c') (h' : Turns cfg c' m c'') :
    Turns cfg c (l ++ m) c'' := by
  induction h' with
  | refl =>
    rw [List.append_nil]
    exact h
  | tail _ ht ih =>
    rw [← List.append_assoc]
    exact ih.tail ht

theorem turns_sendBatch (s : State) (answers : List Answer) :
    Turns cfg s.toCore [] (sendBatch cfg s answers).toCore := by
  unfold sendBatch
  split
  · exact .refl
  · next h =>
    rw [not_or] at h
    have hb : s.batch = none := by simpa using h.2
    exact .single (.start answers hb)

theorem turns_checkSendBatch (s : State) (answers : List Answer) :
    Turns cfg s.toCore [] (checkSendBatch cfg s answers).toCore := by
  unfold checkSendBatch
  split
  · exact turns_sendBatch s answers
  · exact .refl

theorem turns_cancelSendMessages {s : State} {d : Nat} (hd : d < s.nextD) :
    Turns cfg s.toCore [] (cancelSendMessages s d).toCore := by
  unfold cancelSendMessages
  split
  · exact .refl
  · next hf =>
    split
    · next req hreq => exact .single (.drop d _ req hd hf hreq)
    · next hnone => exact .single (.disown d _ hd hf hnone)

theorem turns_runBatch (s : State) : Turns cfg s.toCore [] (runBatch cfg s).toCore := by
  unfold runBatch
  split
  · exact .refl
  · next b hb =>
    split
    · next d ds v work hstage =>
      simp only
      split
      · next hf => exact .single (.skip b d ds v work hb hstage hf)
      · next hf => exact .single (.deliver b d ds v work hb hstage hf)
    · next v work hstage => exact .single (.work b v work hb hstage)
    · exact .refl

theorem turns_cancelBatch (s : State) (outcome : CancelOutcome) :
    Turns cfg s.toCore (loadsOf s (.stop outcome)) (cancelBatch cfg s outcome).toCore := by
  unfold cancelBatch
  cases hb : s.batch with
  | none =>
    simp only [loadsOf, hb]
    exact .refl
  | some b =>
    cases hstage : b.stage with
    | lookups requests =>
      simp only [loadsOf, hb, hstage]
      exact .single (.look b requests _ _ _ hb hstage (.all outcome.wakes))
    | running ds v work =>
      simp only [loadsOf, hb, hstage]
      exact .refl
    | sent payloads =>
      simp only [loadsOf, hb, hstage]
      split
      · exact .refl
      · next r _ => exact .single (.result b payloads r hb hstage)
    | retrying payloads =>
      simp only [loadsOf, hb, hstage]
      exact .single (.cancelRetry b payloads hb hstage)

theorem step_turns {s t : State} {e : Event} (hk : Known s) (h : step cfg s e = some t) :
    Turns cfg s.toCore (loadsOf s e) t.toCore := by
  cases takes_of_step h with
  | sendMessages topic key msgs answers hturn hvalid =>
    exact Turns.trans (.single (.enqueue ⟨topic, key, msgs, s.nextD⟩ rfl))
      (turns_checkSendBatch (addRequest s topic key msgs) answers)
  | refused => exact .refl
  | cancel d hturn hd => exact turns_cancelSendMessages hd
  | stop outcome hturn =>
    exact turns_cancelBatch { s with stopping := true, agenda := .cancelOutstanding :: s.agenda } outcome
  | tick answers hidle hlooper => exact turns_sendBatch s answers
  | wakeLookup i w b requests req l hb hstage hget =>
    simp only [loadsOf, hb, hstage, hget]
    exact .single (.look b requests _ _ _ hb hstage (.one i req l w hget))
  | clientResult r b payloads hb hstage => exact .single (.result b payloads r hb hstage)
  | retryTimer b payloads hidle hb hstage => exact .single (.retry b payloads hb hstage)
  | resume answers act agenda hagenda =>
    cases act with
    | user => exact .refl
    | batch => exact turns_runBatch { s with agenda := agenda }
    | checkSendBatch => exact turns_checkSendBatch { s with agenda := agenda } answers
    | cancelOutstanding => exact .refl
    | cancelEach ds =>
      cases ds with
      | nil => exact .refl
      | cons d ds =>
        have hmem : Act.cancelEach (d :: ds) ∈ s.agenda := hagenda ▸ List.mem_cons_self
        have hd : d < s.nextD := hk.cancelled _ hmem d List.mem_cons_self
        exact turns_cancelSendMessages (s := { s with agenda := .cancelEach ds :: agenda }) hd

theorem startBatch_ledger (c : Core) (answers : List Answer) : SameLedger c (startBatch cfg c answers) := by
  unfold startBatch
  have h := ledger_setLookups { c with batchReqs := [], batches := c.batches + 1 }
  exact ⟨(h _ _).nextD, (h _ _).calls⟩

theorem look_ledger {c c₁ : Core} {requests requests' : List (SendRequest × Lookup)} {ds : List Nat}
    (h : Woken cfg c requests ds c₁ requests') (b : Batch) : SameLedger c (setLookups c₁ b requests') := by
  obtain ⟨⟨interval, rfl⟩, -⟩ := h.counts
  have h := ledger_setLookups { c with reqAttempts := c.reqAttempts + ds.length, retryInterval := interval } b requests'
  exact ⟨h.nextD, h.calls⟩

theorem result_ledger (c : Core) (b : Batch) (r : ClientResult) : SameLedger c (handleSendResponse cfg c b r) := by
  have h := ledger_onward (onward_handleSendResponse cfg c b r)
  exact ⟨h.nextD, h.calls⟩

theorem turn_nextD {c c' : Core} {l : Loads} (h : Turn cfg c l c') : c.nextD ≤ c'.nextD := by
  cases h with
  | enqueue req hd => exact Nat.le_succ _
  | drop d e req hlt hf hreq => exact Nat.le_refl _
  | disown d e hlt hf hnone => exact Nat.le_refl _
  | start answers hb => exact (startBatch_ledger c answers).nextD.ge
  | look b requests requests' ds c₁ hb hstage hwoken => exact (look_ledger hwoken b).nextD.ge
  | skip b d ds v work hb hstage hf => exact Nat.le_refl _
  | deliver b d ds v work hb hstage hf => exact Nat.le_refl _
  | work b v work hb hstage => exact (ledger_runWork hstage).nextD.ge
  | result b payloads r hb hstage => exact (result_ledger c b r).nextD.ge
  | retry b payloads hb hstage => exact Nat.le_refl _
  | cancelRetry b payloads hb hstage => exact Nat.le_refl _

theorem turns_nextD {c c' : Core} {l : Loads} (h : Turns cfg c l c') : c.nextD ≤ c'.nextD := by
  induction h with
  | refl => exact Nat.le_refl _
  | tail _ ht ih => exact ih.trans (turn_nextD ht)

/-! ## Known `Deferred`s -/

structure Tame (s t : State) : Prop where
  outstanding : ∀ d ∈ t.outstanding, d ∈ s.outstanding
  cancelled : ∀ ds, Act.cancelEach ds ∈ t.agenda → Act.cancelEach ds ∈ s.agenda

theorem Tame.refl (s : State) : Tame s s := ⟨fun _ => id, fun _ => id⟩

theorem Tame.trans {s t u : State} (h : Tame s t) (h' : Tame t u) : Tame s u where
  outstanding d hd := h.outstanding d (h'.outstanding d hd)
  cancelled ds hds := h.cancelled ds (h'.cancelled ds hds)

theorem Known.tame {s t : State} (h : Known s) (ht : Tame s t) (hn : s.nextD ≤ t.nextD) : Known t where
  outstanding d hd := (h.outstanding d (ht.outstanding d hd)).trans_le hn
  cancelled ds hds d hd := (h.cancelled ds (ht.cancelled ds hds) d hd).trans_le hn

theorem tame_advance (s : State) (c : Core) : Tame s (s.advance c) := by
  refine ⟨fun _ => id, fun ds hds => ?_⟩
  unfold State.advance at hds
  rcases List.mem_append.mp hds with hacts | hold
  · split at hacts
    · simp at hacts
    · split at hacts
      · simp at hacts
      · cases hacts
  · exact hold

theorem tame_fire (s : State) (d : Nat) (v : Value) : Tame s (fire s d v) := by
  refine ⟨fun x hx => List.mem_of_mem_erase hx, fun ds hds => ?_⟩
  rcases List.mem_cons.mp hds with heq | hold
  · cases heq
  · exact hold

theorem tame_sendBatch (s : State) (answers : List Answer) : Tame s (sendBatch cfg s answers) := by
  unfold sendBatch
  split
  · exact .refl s
  · have h := tame_advance { s with waitingByteCount := 0, waitingMsgCount := 0 } (startBatch cfg s.toCore answers)
    exact ⟨h.outstanding, h.cancelled⟩

theorem tame_checkSendBatch (s : State) (answers : List Answer) : Tame s (checkSendBatch cfg s answers) := by
  unfold checkSendBatch
  split
  · exact tame_sendBatch s answers
  · exact .refl s

theorem tame_cancelSendMessages (s : State) (d : Nat) : Tame s (cancelSendMessages s d) := by
  unfold cancelSendMessages
  split
  · exact .refl s
  · split
    · exact ⟨(tame_fire s d .none).outstanding, (tame_fire s d .none).cancelled⟩
    · exact tame_fire s d _

theorem tame_runBatch (s : State) : Tame s (runBatch cfg s) := by
  unfold runBatch
  split
  · exact .refl s
  · next b _ =>
    split
    · next d ds v work _ =>
      simp only
      split
      · exact tame_advance s _
      · exact (tame_advance s _).trans (tame_fire _ d v)
    · exact tame_advance s _
    · exact .refl s

theorem tame_cancelBatch (s : State) (outcome : CancelOutcome) : Tame s (cancelBatch cfg s outcome) := by
  unfold cancelBatch
  split
  · exact .refl s
  · split
    · exact tame_advance s _
    · exact .refl s
    · split
      · exact .refl s
      · exact tame_advance s _
    · exact tame_advance s _

theorem known_step {s t : State} {e : Event} (h : Known s) (hstep : step cfg s e = some t) : Known t := by
  have hn := turns_nextD (step_turns h hstep)
  cases takes_of_step hstep with
  | sendMessages topic key msgs answers hturn hvalid =>
    have hadd : Known (addRequest s topic key msgs) := by
      refine ⟨fun d hd => ?_, fun ds hds d hd => Nat.lt_succ_of_lt (h.cancelled ds hds d hd)⟩
      rcases List.mem_append.mp hd with hold | hnew
      · exact Nat.lt_succ_of_lt (h.outstanding d hold)
      · exact List.mem_singleton.mp hnew ▸ Nat.lt_succ_self _
    exact hadd.tame (tame_checkSendBatch _ answers) (turns_nextD (turns_checkSendBatch _ answers))
  | refused => exact h
  | cancel d hturn hd => exact h.tame (tame_cancelSendMessages s d) hn
  | stop outcome hturn =>
    have hpush : Tame s { s with stopping := true, agenda := .cancelOutstanding :: s.agenda } := by
      refine ⟨fun _ => id, fun ds hds => ?_⟩
      rcases List.mem_cons.mp hds with heq | hold
      · cases heq
      · exact hold
    exact h.tame (hpush.trans (tame_cancelBatch _ outcome)) hn
  | tick answers hidle hlooper => exact h.tame (tame_sendBatch s answers) hn
  | wakeLookup i w b requests req l hb hstage hget => exact h.tame (tame_advance s _) hn
  | clientResult r b payloads hb hstage => exact h.tame (tame_advance s _) hn
  | retryTimer b payloads hidle hb hstage => exact h.tame (tame_advance s _) hn
  | resume answers act agenda hagenda =>
    have hpop : Tame s { s with agenda := agenda } :=
      ⟨fun _ => id, fun ds hds => hagenda ▸ List.mem_cons_of_mem act hds⟩
    cases act with
    | user => exact h.tame hpop hn
    | batch => exact h.tame (hpop.trans (tame_runBatch _)) hn
    | checkSendBatch => exact h.tame (hpop.trans (tame_checkSendBatch _ answers)) hn
    | cancelOutstanding =>
      refine ⟨h.outstanding, fun ds hds => ?_⟩
      rcases List.mem_cons.mp hds with heq | hold
      · exact Act.cancelEach.inj heq ▸ h.outstanding
      · exact h.cancelled ds (hpop.cancelled ds hold)
    | cancelEach ds =>
      cases ds with
      | nil => exact h.tame hpop hn
      | cons d ds =>
        have hrest : Known { s with agenda := .cancelEach ds :: agenda } := by
          refine ⟨h.outstanding, fun ds' hds => ?_⟩
          rcases List.mem_cons.mp hds with heq | hold
          · obtain rfl := Act.cancelEach.inj heq
            have hall := h.cancelled (d :: ds') (hagenda ▸ List.mem_cons_self)
            exact fun x hx => hall x (List.mem_cons_of_mem d hx)
          · exact h.cancelled ds' (hpop.cancelled ds' hold)
        exact hrest.tame (tame_cancelSendMessages _ d) hn

theorem turns_invariant (inv : Loads → Core → Prop) (hturn : ∀ l m c c', inv l c → Turn cfg c m c' → inv (l ++ m) c')
    (l : Loads) {m : Loads} {c c' : Core} (h : Turns cfg c m c') (hc : inv l c) : inv (l ++ m) c' := by
  induction h with
  | refl =>
    rw [List.append_nil]
    exact hc
  | tail _ ht ih =>
    rw [← List.append_assoc]
    exact hturn _ _ _ _ ih ht

/-- The rule for invariants of the core that say more than a `Move` does. -/
theorem turn_invariant (inv : Core → Prop) (h0 : inv { retryInterval := cfg.initRetryInterval })
    (hturn : ∀ m c c', inv c → Turn cfg c m c' → inv c') (looper : Bool) (es : List Event) (t : State)
    (hrun : Machine.run (step cfg) (init cfg looper) es = some t) : Known t ∧ inv t.toCore := by
  refine Machine.run_invariant_all (step cfg) (fun s => Known s ∧ inv s.toCore) (fun s e u hs hstep => ?_) es
    (init cfg looper) t ⟨⟨by simp [init], by simp [init]⟩, h0⟩ hrun
  refine ⟨known_step hs.1 hstep, ?_⟩
  exact turns_invariant (fun _ => inv) (fun _ m c c' => hturn m c c') [] (step_turns hs.1 hstep) hs.2

/-! ## Counting the loads -/

def loggedStep (cfg : Config) (x : State × Loads) (e : Event) : Option (State × Loads) :=
  (step cfg x.1 e).map fun t => (t, x.2 ++ loadsOf x.1 e)

theorem loggedStep_eq {s t : State} {l l' : Loads} {e : Event} :
    loggedStep cfg (s, l) e = some (t, l') ↔ step cfg s e = some t ∧ l' = l ++ loadsOf s e := by
  unfold loggedStep
  rw [Option.map_eq_some_iff]
  constructor
  · rintro ⟨u, hu, heq⟩
    obtain ⟨rfl, rfl⟩ := Prod.mk.inj heq
    exact ⟨hu, rfl⟩
  · rintro ⟨hstep, rfl⟩
    exact ⟨t, hstep, rfl⟩

theorem step_loads {s t : State} {e : Event} (h : step cfg s e = some t) :
    loadsOf s e = [] ∨ Turn cfg s.toCore (loadsOf s e) t.toCore := by
  cases takes_of_step h with
  | wakeLookup i w b requests req l hb hstage hget =>
    simp only [loadsOf, hb, hstage, hget]
    exact .inr (.look b requests _ _ _ hb hstage (.one i req l w hget))
  | stop outcome hturn =>
    cases hb : s.batch with
    | none => exact .inl (by simp only [loadsOf, hb])
    | some b =>
      cases hstage : b.stage with
      | lookups requests =>
        simp only [loadsOf, cancelBatch, hb, hstage]
        exact .inr (.look b requests _ _ _ hb hstage (.all outcome.wakes))
      | running ds v work => exact .inl (by simp only [loadsOf, hb, hstage])
      | sent payloads => exact .inl (by simp only [loadsOf, hb, hstage])
      | retrying payloads => exact .inl (by simp only [loadsOf, hb, hstage])
  | sendMessages => exact .inl rfl
  | refused => exact .inl rfl
  | cancel => exact .inl rfl
  | tick => exact .inl rfl
  | clientResult => exact .inl rfl
  | retryTimer => exact .inl rfl
  | resume => exact .inl rfl

theorem turns_quiet (inv : Core → Prop) (hturn : ∀ c c', inv c → Turn cfg c [] c' → inv c') {m : Loads} {c c' : Core}
    (h : Turns cfg c m c') (hm : m = []) (hc : inv c) : inv c' := by
  induction h with
  | refl => exact hc
  | tail _ ht ih =>
    obtain ⟨rfl, rfl⟩ := List.append_eq_nil_iff.mp hm
    exact hturn _ _ (ih rfl) ht

end Afkak.Producer
