import Afkak.Client.Lookup

/-!
# One request for a coordinator at a time

Every step keeps the invariant of the lookups: a group has one request under way, and who waits for it is told the
result in the order in which they asked. A cancelled waiter leaves the list, or is told first.
-/

open Lib

namespace Afkak

namespace Client

namespace Lookups

variable {s : Lookups}

/-! ## Every step -/

theorem Sound.complete (h : Sound s) {r : Nat} {g : String} (hreq : s.requests.get? r = some g)
    (reply : Except Exc Bytes) : Sound (s.complete r g reply) := by
  obtain ⟨f, hf, rfl⟩ := (h.entry g r).mp hreq
  have htaken := h.taken hf (handleReply s.client g reply).1 (handleReply_outcome s.client g reply)
  simp only [Lookups.complete, hf]
  exact Sound.propagate htaken

theorem Sound.cancel (h : Sound s) {d : Nat} (hd : d < s.nextDeferred) : Sound (s.cancel d) := by
  unfold Lookups.cancel
  split
  · exact h
  next hcalled =>
  have hdeferred {d' : Nat} (hne : d' ≠ d) :
    (s.fire d .cancelled (.error .tidCancelled) true).deferred d' = s.deferred d' := by
    simp [fire, deferred, hne.symm]
  have hfirings {d' : Nat} (hne : d' ≠ d) :
    (s.fire d .cancelled (.error .tidCancelled) true).firingsOf d' = s.firingsOf d' := by
    simp [fire, firingsOf, hne.symm]
  have hline {r : Nat} {ds : List Nat} (hl : Line s r ds) :
    Line (s.fire d .cancelled (.error .tidCancelled) true) r ds := by
    refine ⟨hl.1, fun d' hd' => ⟨(hl.2 d' hd').1, ?_⟩⟩
    by_cases hne : d' = d
    · subst hne
      simp [fire, deferred]
    · rw [hdeferred hne]
      exact (hl.2 d' hd').2
  refine ⟨h.entry, h.outstanding, h.replied, fun d' hd' => ?_, h.known, fun g f hf => hline (h.waiters g f hf),
    fun p hp => ⟨hline (h.loops p hp).1, (h.loops p hp).2⟩, h.apart, fun d' r hd' => ?_⟩
  · have hne : d' ≠ d := (lt_of_lt_of_le hd hd').ne'
    obtain ⟨hj, hdef, hfir⟩ := h.fresh d' hd'
    exact ⟨hj, by simp [fire, hne.symm, hdef], (hfirings hne).trans hfir⟩
  · by_cases hne : d' = d
    · subst hne
      rcases h.marks d' r hd' with ⟨-, hnone, -⟩ | ⟨hc, -⟩ | ⟨hc, -⟩
      · refine .inr (.inl ⟨by simp [fire, deferred], s.client, ?_⟩)
        have happend := firingsOf_append s d' ⟨d', .cancelled, .error .tidCancelled, s.client⟩
          (s.deferreds.set d' ⟨true, true⟩) rfl
        rw [hnone] at happend
        exact happend
      · exact absurd hc hcalled
      · exact absurd hc hcalled
    · exact (h.marks d' r hd').of_eq (hdeferred hne) (hfirings hne) id fun _ => id

theorem Sound.load (clientId : Bytes) (h : Sound s) (group : Group) (answer : Option (Except Exc Bytes)) :
    Sound (s.loadCoordinatorForGroup clientId group answer) := by
  unfold loadCoordinatorForGroup
  cases coerceConsumerGroup group with
  | error e => exact h
  | ok g =>
    dsimp only
    cases hf : s.fetches.get? g with
    | some f => exact h.join hf
    | none =>
      dsimp only
      cases encodeConsumerMetadataRequest clientId (nextId s.correlationId) g with
      | error e => exact h.correlation _
      | ok b =>
        have hbegin : Sound (Lookups.begin { s with correlationId := nextId s.correlationId } g) :=
          (h.correlation (nextId s.correlationId)).begin hf
        cases answer with
        | none => exact hbegin
        | some reply => exact hbegin.complete (by simp [Lookups.begin]) reply

theorem sound_step (clientId : Bytes) {t : Lookups} {e : LookupEvent} (h : Sound s)
    (hstep : step clientId s e = some t) :
    Sound t := by
  cases e with
  | load group answer =>
    obtain rfl := Option.some.inj hstep
    exact h.load clientId group answer
  | reset groups =>
    obtain rfl := Option.some.inj hstep
    unfold resetGroups
    split
    · exact h
    · exact h.client _
  | cancel d =>
    simp only [step, Option.ite_none_right_eq_some, Option.some.injEq] at hstep
    obtain ⟨hd, rfl⟩ := hstep
    exact h.cancel hd
  | answer r reply =>
    simp only [step] at hstep
    split at hstep
    · cases hstep
    · next g hreq =>
      obtain rfl := Option.some.inj hstep
      exact h.complete hreq reply
  | goOn =>
    simp only [step] at hstep
    split at hstep
    · cases hstep
    · next p rest hp =>
      obtain rfl := Option.some.inj hstep
      refine Sound.propagate (s := { s with propagations := rest }) ?_
      have hsame : within { s with propagations := rest } p.request p.group p.result p.rest = s := by
        rw [within, ← hp]
      rw [hsame]
      exact h
  | elsewhere client =>
    obtain rfl := Option.some.inj hstep
    exact h.client client

/-! ## Who is told first -/

theorem FirstSettled.append {l : List Firing} (h : FirstSettled l) {x : Firing}
    (hx : ∀ r g, x.cause = .result r g → (∃ y ∈ l, ∃ g', y.cause = .result r g') ∨ Settled g x.client x.value) :
    FirstSettled (l ++ [x]) := by
  intro pre y post heq r g hcause hpre
  rcases List.eq_nil_or_concat post with rfl | ⟨post', z, rfl⟩
  · obtain ⟨rfl, hy⟩ := List.append_inj' heq rfl
    obtain rfl := (List.cons.inj hy).1
    rcases hx r g hcause with ⟨z, hz, g', hg'⟩ | hsettled
    · exact absurd hg' (hpre z hz g')
    · exact hsettled
  · rw [List.concat_eq_append, ← List.cons_append, ← List.append_assoc] at heq
    obtain ⟨rfl, -⟩ := List.append_inj' heq rfl
    exact h pre y post' rfl r g hcause hpre

/-- The first of each request found the caches settled; the loops that go on have told one. -/
structure Heard (s : Lookups) : Prop where
  first : FirstSettled s.firings
  begun : ∀ p ∈ s.propagations, ∃ y ∈ s.firings, ∃ g, y.cause = .result p.request g

theorem Heard.propagate {r : Nat} {g : String} {v : Except Exc Bool} {ds : List Nat} (h : Heard s)
    (hok : (∃ y ∈ s.firings, ∃ g', y.cause = .result r g') ∨ Settled g s.client v) : Heard (s.propagate r g v ds) := by
  induction ds generalizing s with
  | nil => exact h
  | cons d ds ih =>
    rw [Lookups.propagate]
    split
    · split
      · exact ih ⟨h.first, h.begun⟩ hok
      · exact h
    · refine ⟨h.first.append fun r' g' hcause => ?_, fun p hp => ?_⟩
      · cases hcause
        exact hok
      · rcases List.mem_cons.mp hp with rfl | hp
        · exact ⟨⟨d, .result r g, v, s.client⟩, by simp [fire], g, rfl⟩
        · obtain ⟨y, hy, hcause⟩ := h.begun p hp
          exact ⟨y, List.mem_append_left _ hy, hcause⟩

theorem Heard.complete (h : Heard s) (r : Nat) (g : String) (reply : Except Exc Bytes) :
    Heard (s.complete r g reply) := by
  cases hf : s.fetches.get? g with
  | none =>
    simp only [Lookups.complete, hf]
    exact ⟨h.first, h.begun⟩
  | some f =>
    simp only [Lookups.complete, hf]
    exact Heard.propagate ⟨h.first, h.begun⟩ (.inr (handleReply_settled s.client g reply))

theorem heard_step (clientId : Bytes) {t : Lookups} {e : LookupEvent} (h : Heard s)
    (hstep : step clientId s e = some t) :
    Heard t := by
  cases e with
  | load group answer =>
    obtain rfl := Option.some.inj hstep
    unfold loadCoordinatorForGroup
    split
    · exact h
    next g _ =>
    split
    · exact ⟨h.first, h.begun⟩
    dsimp only
    split
    · exact ⟨h.first, h.begun⟩
    split
    · exact ⟨h.first, h.begun⟩
    · next reply =>
      exact Heard.complete (s := Lookups.begin { s with correlationId := nextId s.correlationId } g)
        ⟨h.first, h.begun⟩ s.nextRequest g reply
  | reset groups =>
    obtain rfl := Option.some.inj hstep
    unfold resetGroups
    split
    · exact h
    · exact ⟨h.first, h.begun⟩
  | cancel d =>
    simp only [step, Option.ite_none_right_eq_some, Option.some.injEq] at hstep
    obtain ⟨-, rfl⟩ := hstep
    unfold Lookups.cancel
    split
    · exact h
    · refine ⟨h.first.append fun r g hcause => (nomatch hcause), fun p hp => ?_⟩
      obtain ⟨y, hy, hcause⟩ := h.begun p hp
      exact ⟨y, List.mem_append_left _ hy, hcause⟩
  | answer r reply =>
    simp only [step] at hstep
    split at hstep
    · cases hstep
    · next g _ =>
      obtain rfl := Option.some.inj hstep
      exact h.complete r g reply
  | goOn =>
    simp only [step] at hstep
    split at hstep
    · cases hstep
    · next p rest hp =>
      obtain rfl := Option.some.inj hstep
      refine Heard.propagate ⟨h.first, fun q hq => h.begun q (hp ▸ List.mem_cons_of_mem p hq)⟩ (.inl ?_)
      exact h.begun p (hp ▸ List.mem_cons_self)
  | elsewhere client =>
    obtain rfl := Option.some.inj hstep
    exact ⟨h.first, h.begun⟩

/-! ## Cancelling -/

structure Adds (e : Option LookupEvent) (s t : Lookups) : Prop where
  grows : s.firings <+: t.firings
  cancels : ∀ y ∈ t.firings, y.cause = .cancelled → y ∈ s.firings ∨ e = some (.cancel y.deferred)

theorem adds_same {e : Option LookupEvent} {t : Lookups} (h : t.firings = s.firings) : Adds e s t :=
  ⟨h ▸ List.prefix_refl _, fun _ hy _ => .inl (h ▸ hy)⟩

theorem adds_propagate (e : Option LookupEvent) (s : Lookups) (r : Nat) (g : String) (v : Except Exc Bool)
    (ds : List Nat) :
    Adds e s (s.propagate r g v ds) := by
  induction ds generalizing s with
  | nil => exact adds_same rfl
  | cons d ds ih =>
    rw [propagate]
    split
    · split
      · have h := ih { s with deferreds := s.deferreds.set d ⟨true, false⟩ }
        exact ⟨h.grows, h.cancels⟩
      · exact adds_same rfl
    · refine ⟨List.prefix_append _ _, fun y hy hcause => ?_⟩
      rcases List.mem_append.mp hy with hy | hy
      · exact .inl hy
      · rw [List.mem_singleton.mp hy] at hcause
        cases hcause

theorem adds_complete (e : Option LookupEvent) (s : Lookups) (r : Nat) (g : String) (reply : Except Exc Bytes) :
    Adds e s (s.complete r g reply) := by
  cases hf : s.fetches.get? g with
  | none =>
    simp only [complete, hf]
    exact adds_same rfl
  | some f =>
    have h := adds_propagate e { s with
      client := (handleReply s.client g reply).1
      requests := s.requests.erase r
      replies := s.replies.set r reply
      fetches := s.fetches.erase g } r g (handleReply s.client g reply).2 f.waiters
    simp only [complete, hf]
    exact ⟨h.grows, h.cancels⟩

theorem adds_step (clientId : Bytes) {t : Lookups} {e : LookupEvent} (hstep : step clientId s e = some t) :
    Adds (some e) s t := by
  cases e with
  | load group answer =>
    obtain rfl := Option.some.inj hstep
    unfold loadCoordinatorForGroup
    split
    · exact adds_same rfl
    next g _ =>
    split
    · exact adds_same rfl
    dsimp only
    split
    · exact adds_same rfl
    split
    · exact adds_same rfl
    · next reply =>
      have h := adds_complete (some (.load group (some reply)))
        (begin { s with correlationId := nextId s.correlationId } g) s.nextRequest g reply
      exact ⟨h.grows, h.cancels⟩
  | reset groups =>
    obtain rfl := Option.some.inj hstep
    unfold resetGroups
    split <;> exact adds_same rfl
  | cancel d =>
    simp only [step, Option.ite_none_right_eq_some, Option.some.injEq] at hstep
    obtain ⟨-, rfl⟩ := hstep
    unfold cancel
    split
    · exact adds_same rfl
    · refine ⟨List.prefix_append _ _, fun y hy _ => ?_⟩
      rcases List.mem_append.mp hy with hy | hy
      · exact .inl hy
      · exact .inr (by rw [List.mem_singleton.mp hy])
  | answer r reply =>
    simp only [step] at hstep
    split at hstep
    · cases hstep
    · obtain rfl := Option.some.inj hstep
      exact adds_complete _ s r _ reply
  | goOn =>
    simp only [step] at hstep
    split at hstep
    · cases hstep
    · next p rest _ =>
      obtain rfl := Option.some.inj hstep
      have h := adds_propagate (some .goOn) { s with propagations := rest } p.request p.group p.result p.rest
      exact ⟨h.grows, h.cancels⟩
  | elsewhere client =>
    obtain rfl := Option.some.inj hstep
    exact adds_same rfl

theorem Sound.cancel_fires (h : Sound s) {d : Nat} (hd : d < s.nextDeferred) (hnone : s.firingsOf d = []) :
    WasCancelled (s.cancel d) d := by
  obtain ⟨r, hr⟩ := h.known d hd
  have hcalled : (s.deferred d).called = false := by
    rcases h.marks d r hr with ⟨hempty, -⟩ | ⟨-, client, hc⟩ | ⟨-, -, group, reply, value, client, -, -, hc⟩
    · exact congrArg Deferred.called hempty
    · exact absurd (hnone.symm.trans hc) (List.cons_ne_nil _ _).symm
    · exact absurd (hnone.symm.trans hc) (List.cons_ne_nil _ _).symm
  have happend := firingsOf_append s d ⟨d, .cancelled, .error .tidCancelled,
    s.client⟩ (s.deferreds.set d ⟨true, true⟩) rfl
  rw [hnone] at happend
  rw [Lookups.cancel, hcalled, if_neg Bool.false_ne_true]
  exact ⟨s.client, happend⟩

theorem Sound.stays_cancelled {t : Lookups} (h : Sound t) (hgrows : s.firings <+: t.firings) {d : Nat}
    (hc : WasCancelled s d) : WasCancelled t d := by
  obtain ⟨client, hc⟩ := hc
  have hprefix : s.firingsOf d <+: t.firingsOf d := hgrows.filter _
  rw [hc] at hprefix
  obtain ⟨rest, hrest⟩ := hprefix
  have hd : d < t.nextDeferred := by
    by_contra hge
    have hnil := (h.fresh d (Nat.le_of_not_lt hge)).2.2
    rw [← hrest] at hnil
    cases hnil
  obtain ⟨r, hr⟩ := h.known d hd
  rcases h.marks d r hr with ⟨-, hnone, -⟩ | ⟨-, hw⟩ | ⟨-, -, group, reply, value, client', -, -, hone⟩
  · rw [← hrest] at hnone
    cases hnone
  · exact hw
  · rw [← hrest] at hone
    cases hone

/-! ## The loops end -/

theorem propagate_shortens (s : Lookups) (r : Nat) (g : String) (v : Except Exc Bool) (ds : List Nat) :
    (s.propagate r g v ds).requests = s.requests ∧ ((s.propagate r g v ds).propagations = s.propagations ∨
      ∃ ds', ds'.length < ds.length ∧ (s.propagate r g v ds).propagations = ⟨r, g, v, ds'⟩ :: s.propagations) := by
  induction ds generalizing s with
  | nil => exact ⟨rfl, .inl rfl⟩
  | cons d ds ih =>
    rw [propagate]
    split
    · split
      · obtain ⟨hreq, hprop⟩ := ih { s with deferreds := s.deferreds.set d ⟨true, false⟩ }
        refine ⟨hreq, hprop.imp id ?_⟩
        rintro ⟨ds', hlt, heq⟩
        exact ⟨ds', Nat.lt_succ_of_lt hlt, heq⟩
      · exact ⟨rfl, .inl rfl⟩
    · exact ⟨rfl, .inr ⟨ds, Nat.lt_succ_self _, rfl⟩⟩

/-- When the callbacks return, one after the other, every running loop comes to its end. -/
theorem loops_end (clientId : Bytes) (s : Lookups) :
    ∃ n t, Machine.run (step clientId) s (List.replicate n .goOn) = some t ∧ t.propagations = [] ∧
    t.requests = s.requests := by
  generalize hl : s.propagations = l
  induction l generalizing s with
  | nil => exact ⟨0, s, rfl, hl, rfl⟩
  | cons p rest ih =>
    obtain ⟨r, g, v, ds⟩ := p
    induction hn : ds.length using Nat.strong_induction_on generalizing s ds with
    | _ n ihn =>
      have hstep : step clientId s .goOn = some (propagate { s with propagations := rest } r g v ds) := by
        simp only [step, hl]
      obtain ⟨hreq, hprop⟩ := propagate_shortens { s with propagations := rest } r g v ds
      have hnext : ∃ k t, Machine.run (step clientId) (propagate { s with propagations := rest } r g v ds)
          (List.replicate k .goOn) = some t ∧ t.propagations = [] ∧ t.requests = s.requests := by
        rcases hprop with hprop | ⟨ds', hlt, hprop⟩
        · obtain ⟨k, t, hrun, hend, hsame⟩ := ih _ hprop
          exact ⟨k, t, hrun, hend, hsame.trans hreq⟩
        · obtain ⟨k, t, hrun, hend, hsame⟩ := ihn _ (hn ▸ hlt) _ ds' hprop rfl
          exact ⟨k, t, hrun, hend, hsame.trans hreq⟩
      obtain ⟨k, t, hrun, hend, hsame⟩ := hnext
      refine ⟨k + 1, t, ?_, hend, hsame⟩
      rw [List.replicate_succ, Machine.run_cons, hstep]
      exact hrun

/-! ## Every run -/

section Run

variable {clientId : Bytes} {client : State} {es : List LookupEvent} {t : Lookups}

theorem sound_run (hrun : Machine.run (step clientId) { client } es = some t) : Sound t :=
  Machine.run_invariant_all (step clientId) Sound (fun _ _ _ h hs => sound_step clientId h hs) es _ _
  (sound_start client) hrun

theorem heard_run (hrun : Machine.run (step clientId) { client } es = some t) : Heard t := by
  refine Machine.run_invariant_all (step clientId) Heard (fun _ _ _ h hs => heard_step clientId h hs) es _ _ ?_ hrun
  refine ⟨fun pre x post heq => ?_, fun p hp => nomatch hp⟩
  exact absurd heq.symm (List.append_ne_nil_of_right_ne_nil _ (List.cons_ne_nil _ _))

theorem firings_grow (hrun : Machine.run (step clientId) s es = some t) : s.firings <+: t.firings :=
  Machine.run_invariant_all (step clientId) (fun u => s.firings <+: u.firings)
    (fun _ _ _ h hs => h.trans (adds_step clientId hs).grows) es s t (List.prefix_refl _) hrun

theorem cancelled_asked (hrun : Machine.run (step clientId) { client } es = some t) {x : Firing} (hx : x ∈ t.firings)
    (hcause : x.cause = .cancelled) : .cancel x.deferred ∈ es := by
  have hinv := Machine.run_invariant (step clientId) (fun _ e => True ∧ e ∈ es)
    (fun u => ∀ y ∈ u.firings, y.cause = .cancelled → LookupEvent.cancel y.deferred ∈ es) ?_ es { client } t
    (fun y hy => nomatch hy)
    (Machine.runOk_mem (step clientId) es (fun _ he => he)
    (Machine.runOk_of_forall (step clientId) (fun _ _ => trivial) es _))
    hrun
  · exact hinv x hx hcause
  · intro u e u' hu he hstep y hy hcause
    rcases (adds_step clientId hstep).cancels y hy hcause with hold | hnew
    · exact hu y hold hcause
    · obtain rfl := Option.some.inj hnew
      exact he.2

/-- At most one request for a group is outstanding, and then the group has its entry. Every Deferred is waiting or has
fired once, as it should, and the first to be told finds the caches settled. -/
theorem load_singleFlight (hrun : Machine.run (step clientId) { client } es = some t) :
    (∀ g r r', t.requests.get? r = some g → t.requests.get? r' = some g → r = r') ∧
    (∀ g, (∃ f, t.fetches.get? g = some f) ↔ ∃ r, t.requests.get? r = some g) ∧
    (∀ d, d < t.nextDeferred → ∃ r, t.joined.get? d = some r ∧
      (Waiting t d r ∨ WasCancelled t d ∨ WasTold t d r) ∧
      (t.requests.get? r = none → t.propagations = [] → WasCancelled t d ∨ WasTold t d r)) ∧
    (∃ n u, Machine.run (step clientId) t (List.replicate n .goOn) = some u ∧ u.propagations = [] ∧
      u.requests = t.requests) ∧
    (∀ es₁ es₂ s₁ d, es = es₁ ++ .cancel d :: es₂ → Machine.run (step clientId) { client } es₁ = some s₁ →
      s₁.firingsOf d = [] → WasCancelled t d) ∧
    (∀ d, WasCancelled t d → .cancel d ∈ es) ∧
    FirstSettled t.firings := by
  have h := sound_run hrun
  refine ⟨fun g r r' hr hr' => ?_, fun g => ⟨?_, ?_⟩, fun d hd => ?_, loops_end clientId t, ?_, ?_,
    (heard_run hrun).first⟩
  · obtain ⟨f, hf, rfl⟩ := (h.entry g r).mp hr
    obtain ⟨f', hf', rfl⟩ := (h.entry g r').mp hr'
    rw [hf, Option.some.injEq] at hf'
    rw [hf']
  · rintro ⟨f, hf⟩
    exact ⟨f.request, (h.entry g f.request).mpr ⟨f, hf, rfl⟩⟩
  · rintro ⟨r, hr⟩
    obtain ⟨f, hf, -⟩ := (h.entry g r).mp hr
    exact ⟨f, hf⟩
  · obtain ⟨r, hr⟩ := h.known d hd
    have hmark : Waiting t d r ∨ WasCancelled t d ∨ WasTold t d r :=
      (h.marks d r hr).imp (·.2) (Or.imp (·.2) (·.2.2))
    refine ⟨r, hr, hmark, fun hdone hidle => hmark.resolve_left ?_⟩
    rintro ⟨-, ⟨g, f, hf, hreq, -⟩ | ⟨p, hp, -⟩⟩
    · rw [(h.entry g r).mpr ⟨f, hf, hreq⟩] at hdone
      cases hdone
    · rw [hidle] at hp
      cases hp
  · rintro es₁ es₂ s₁ d rfl hrun₁ hnone
    rw [Machine.run_append, hrun₁, Option.bind_some, Machine.run_cons, Option.bind_eq_some_iff] at hrun
    obtain ⟨s₂, hstep, hrest⟩ := hrun
    simp only [step, Option.ite_none_right_eq_some, Option.some.injEq] at hstep
    obtain ⟨hd, rfl⟩ := hstep
    exact h.stays_cancelled (firings_grow hrest) ((sound_run hrun₁).cancel_fires hd hnone)
  · rintro d ⟨c, hc⟩
    have hmem : (⟨d, .cancelled, .error .tidCancelled, c⟩ : Firing) ∈ t.firingsOf d := hc ▸ List.mem_singleton_self _
    exact cancelled_asked hrun (List.mem_filter.mp hmem).1 rfl

/-- Two wait for a group and the first is cancelled; the second starts a lookup once it is told. Another request fails
at once. -/
def lookupRun : List LookupEvent :=
  [.load (.text "g") none, .load (.bytes [103]) none, .load (.text "h") (some (.error .kafkaUnavailable)), .goOn,
  .cancel 0,
    .answer 0 (.ok [0, 0, 0, 1, 0, 0, 0, 0, 3, 233, 0, 1, 104, 0, 0, 35, 132]), .load (.text "g") none, .goOn]

theorem lookupRun_singleFlight :
    ∃ t, Machine.run (step []) { client := {} } lookupRun = some t ∧
      ∀ g r r', t.requests.get? r = some g → t.requests.get? r' = some g → r = r' := by
  have hsome : (Machine.run (step []) { client := {} } lookupRun).isSome = true := rfl
  obtain ⟨t, ht⟩ := Option.isSome_iff_exists.mp hsome
  exact ⟨t, ht, (load_singleFlight ht).1⟩

end Run

end Lookups

end Client

end Afkak
