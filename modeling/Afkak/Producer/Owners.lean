import Afkak.Producer.Turns

/-!
# Where a request is

A request waits, or belongs to the batch in flight, or to neither. It moves from the first to the second when the
batch starts. What the batch mentions it has handed to the client already, or not yet, and what it does not mention
it never will.
-/

open Lib

namespace Afkak.Producer

def Sent (c : Core) (d : Nat) : Prop := ∃ g ∈ c.groups, ∃ req ∈ g.2, req.deferred = d

def Waits (c : Core) (d : Nat) : Prop := ∃ req ∈ c.batchReqs, req.deferred = d

instance (c : Core) (d : Nat) : Decidable (Sent c d) := inferInstanceAs (Decidable (∃ g ∈ c.groups, _))

instance (c : Core) (d : Nat) : Decidable (Waits c d) := inferInstanceAs (Decidable (∃ req ∈ c.batchReqs, _))

structure Owned (c : Core) : Prop where
  issued : Issued c
  old : ∀ d, Fired c d ∨ Sent c d → d < c.nextD
  nodup : (c.batchReqs.map (·.deferred)).Nodup
  waiting : ∀ d, Waits c d → ¬ Fired c d ∧ ¬ Sent c d ∧ ∀ b, c.batch = some b → ¬ b.Mentions d
  sent : ∀ b, c.batch = some b → (∀ d ∈ b.allDeferreds, Sent c d) ∧ ∀ d, b.Mentions d → d ∈ b.allDeferreds ∨ ¬ Sent c d

structure Works (c c' : Core) (b : Batch) : Prop where
  nextD : c'.nextD = c.nextD
  batchReqs : c'.batchReqs = c.batchReqs
  fired : ∀ d, Fired c' d → Fired c d ∨ b.Mentions d
  sent : ∀ d, Sent c' d → Sent c d ∨ b.Mentions d
  mentions : ∀ b', c'.batch = some b' → ∀ d, b'.Mentions d → b.Mentions d
  after : ∀ b', c'.batch = some b' →
    (∀ d ∈ b'.allDeferreds, Sent c' d) ∧ ∀ d, b'.Mentions d → d ∈ b'.allDeferreds ∨ ¬ Sent c' d

inductive Shift (c : Core) : Core → Prop
  | enqueue (req : SendRequest) (hd : req.deferred = c.nextD) :
    Shift c { c with nextD := c.nextD + 1, batchReqs := c.batchReqs ++ [req], submitted := c.submitted ++ [req] }
  | cancel (d : Nat) (v : Value) (reqs : List SendRequest) (hlt : d < c.nextD) (hsub : reqs.Sublist c.batchReqs)
    (hne : ∀ r ∈ reqs, r.deferred ≠ d) :
    Shift c { c with batchReqs := reqs, calls := c.calls ++ [(d, v)] }
  | start (c' : Core) (hl : SameLedger c c') (hreqs : c'.batchReqs = []) (hgroups : c'.groups = c.groups)
    (hbatch : ∀ b', c'.batch = some b' → b'.allDeferreds = [] ∧ ∀ d, b'.Mentions d → Waits c d) : Shift c c'
  | work (b : Batch) (c' : Core) (hb : c.batch = some b) (hw : Works c c' b) : Shift c c'

variable {cfg : Config} {c c' : Core} {b : Batch}

theorem waits_iff (h : c'.batchReqs = c.batchReqs) (d : Nat) : Waits c' d ↔ Waits c d := by
  unfold Waits
  rw [h]

theorem sent_iff (h : c'.groups = c.groups) (d : Nat) : Sent c' d ↔ Sent c d := by
  unfold Sent
  rw [h]

theorem fired_iff (h : c'.calls = c.calls) (d : Nat) : Fired c' d ↔ Fired c d := by
  unfold Fired
  rw [h]

theorem fired_append {d : Nat} {v : Value} (h : c'.calls = c.calls ++ [(d, v)]) (x : Nat) :
    Fired c' x ↔ Fired c x ∨ x = d := by
  unfold Fired
  rw [h, List.map_append, List.mem_append, List.map_singleton, List.mem_singleton]

theorem Owned.works (h : Owned c) (hb : c.batch = some b) (hw : Works c c' b) : Owned c' where
  issued := by
    refine ⟨?_, fun b' hb' d hd => ?_⟩
    · rw [hw.batchReqs, hw.nextD]
      exact h.issued.waiting
    · rw [hw.nextD]
      exact h.issued.batch b hb d (hw.mentions b' hb' d hd)
  old d hd := by
    rw [hw.nextD]
    rcases hd with hd | hd
    · exact (hw.fired d hd).elim (fun hd => h.old d (.inl hd)) (h.issued.batch b hb d)
    · exact (hw.sent d hd).elim (fun hd => h.old d (.inr hd)) (h.issued.batch b hb d)
  nodup := by
    rw [hw.batchReqs]
    exact h.nodup
  waiting d hd := by
    obtain ⟨hfired, hsent, hbatch⟩ := h.waiting d ((waits_iff hw.batchReqs d).mp hd)
    have hnot := hbatch b hb
    exact ⟨fun hd => (hw.fired d hd).elim hfired hnot, fun hd => (hw.sent d hd).elim hsent hnot,
      fun b' hb' hd => hnot (hw.mentions b' hb' d hd)⟩
  sent := hw.after

/-! ## The batch works on -/

theorem Owned.goTo (h : Owned c) (hb : c.batch = some b) (hn : c'.nextD = c.nextD) (hreqs : c'.batchReqs = c.batchReqs)
    (hgroups : c'.groups = c.groups) (hfired : ∀ d, Fired c' d → Fired c d ∨ b.Mentions d)
    (hbatch : ∀ b', c'.batch = some b' → b'.deferreds = b.deferreds ∧ ∀ d, b'.Mentions d → b.Mentions d) :
    Works c c' b where
  nextD := hn
  batchReqs := hreqs
  fired := hfired
  sent d hd := .inl ((sent_iff hgroups d).mp hd)
  mentions b' hb' := (hbatch b' hb').2
  after b' hb' := by
    obtain ⟨hd, hm⟩ := hbatch b' hb'
    obtain ⟨hall, hunsent⟩ := h.sent b hb
    unfold Batch.allDeferreds at hall hunsent ⊢
    rw [hd]
    refine ⟨fun d hd => (sent_iff hgroups d).mpr (hall d hd), fun d hd => ?_⟩
    exact (hunsent d (hm d hd)).imp_right fun hnot hsent => hnot ((sent_iff hgroups d).mp hsent)

theorem Owned.onward (h : Owned c) (hb : c.batch = some b) (hon : Onward c c' b) : Works c c' b :=
  h.goTo hb hon.nextD hon.batchReqs hon.groups (fun d hd => .inl ((fired_iff hon.calls d).mp hd)) fun b' hb' =>
    ⟨(hon.deferreds b' hb').1, fun _ hd => .inl (hon.mentions hb' hd)⟩

theorem works_send {v : Value} {groups : Dict TopicAndPartition (List SendRequest)}
    (hstage : b.stage = .running [] v (.route [] groups)) {b' : Batch} (payloads : List Payload)
    (hn : b'.deferreds = groups.mapValues fun _ reqs => reqs.map (·.deferred)) :
    Works c (sendProduceRequest { c with groups := c.groups ++ groups.entries } b' payloads) b := by
  have hgroup (d : Nat) : (∃ tp, InGroup groups tp d) ↔ d ∈ b'.allDeferreds := by
    rw [Batch.mem_allDeferreds]
    exact exists_congr fun tp => (mem_deferredsOf_groups hn tp d).symm
  have hmentions (d : Nat) (hd : ∃ tp, InGroup groups tp d) : b.Mentions d := by
    right
    rw [hstage]
    exact .inr (.inr hd)
  refine ⟨rfl, rfl, fun _ hd => .inl hd, ?_, fun b'' hb'' d hd => ?_, fun b'' hb'' => ?_⟩
  · rintro d ⟨g, hg, hreq⟩
    rcases List.mem_append.mp hg with hold | hnew
    · exact .inl ⟨g, hold, hreq⟩
    · exact .inr (hmentions d ⟨g.1, g.2, (Dict.get?_eq_some_iff _ _ _).mpr hnew, hreq⟩)
  · obtain rfl := Option.some.inj hb''
    exact hmentions d ((hgroup d).mpr (hd.resolve_right id))
  · obtain rfl := Option.some.inj hb''
    refine ⟨fun d hd => ?_, fun d hd => .inl (hd.resolve_right id)⟩
    obtain ⟨tp, reqs, hget, hreq⟩ := (hgroup d).mpr hd
    exact ⟨(tp, reqs), List.mem_append_right _ ((Dict.get?_eq_some_iff _ _ _).mp hget), hreq⟩

theorem works_round {v : Value} {x : SendRequest × Lookup} {rest : List (SendRequest × Lookup)}
    {groups : Dict TopicAndPartition (List SendRequest)} (h : Owned c) (hb : c.batch = some b)
    (hstage : b.stage = .running [] v (.route (x :: rest) groups)) :
    Works c (runWork cfg c b v (.route (x :: rest) groups)) b := by
  have hsame : (runWork cfg c b v (.route (x :: rest) groups)).groups = c.groups ∧
      ∀ b', (runWork cfg c b v (.route (x :: rest) groups)).batch = some b' → b'.deferreds = b.deferreds := by
    obtain ⟨req, lookup⟩ := x
    simp only [runWork]
    split
    · exact ⟨rfl, fun b' hb' => Option.some.inj hb' ▸ rfl⟩
    · split <;> exact ⟨rfl, fun b' hb' => Option.some.inj hb' ▸ rfl⟩
  have hl : SameLedger c (runWork cfg c b v (.route (x :: rest) groups)) := ledger_runWork hstage
  exact h.goTo hb hl.nextD (batchReqs_runWork hstage) hsame.1 (fun d hd => .inl ((fired_iff hl.calls d).mp hd))
    fun b' hb' => ⟨hsame.2 b' hb', mentions_work hstage hb'⟩

theorem works_runWork {v : Value} {work : Work} (h : Owned c) (hb : c.batch = some b)
    (hstage : b.stage = .running [] v work) : Works c (runWork cfg c b v work) b := by
  cases work with
  | route rest groups =>
    cases rest with
    | cons x rest => exact works_round h hb hstage
    | nil =>
      have hcomplete : Works c (goOn c b [] .none .complete) b := by
        refine h.goTo hb rfl rfl rfl (fun _ hd => .inl hd) fun b' hb' => ?_
        obtain rfl := Option.some.inj hb'
        exact ⟨rfl, fun _ => mentions_complete b⟩
      simp only [runWork]
      unfold sendGroups
      split
      · exact hcomplete
      · exact hcomplete
      · next p payloads hbuild => exact works_send hstage _ rfl
  | responses rest failed => exact h.onward hb (onward_runWork hstage trivial)
  | failEach rest => exact h.onward hb (onward_runWork hstage trivial)
  | complete => exact h.onward hb (onward_runWork hstage trivial)

/-! ## Every turn -/

theorem mentions_setLookups {requests : List (SendRequest × Lookup)} {b' : Batch}
    (hb' : (setLookups c b requests).batch = some b') :
    b'.deferreds = b.deferreds ∧ ∀ d, b'.Mentions d → d ∈ b.allDeferreds ∨ ∃ x ∈ requests, x.1.deferred = d := by
  unfold setLookups at hb'
  split at hb'
  · obtain rfl := Option.some.inj hb'
    exact ⟨rfl, fun d hd => hd⟩
  · obtain rfl := Option.some.inj hb'
    refine ⟨rfl, fun d hd => hd.imp_right ?_⟩
    rintro (hd | hd | ⟨tp, reqs, hget, -⟩)
    · cases hd
    · exact hd
    · simp at hget

theorem mentions_startBatch {answers : List Answer} {b' : Batch} (hb' : (startBatch cfg c answers).batch = some b') :
    b'.allDeferreds = [] ∧ ∀ d, b'.Mentions d → Waits c d := by
  unfold startBatch at hb'
  obtain ⟨hempty, hm⟩ := mentions_setLookups hb'
  have hall : b'.allDeferreds = [] := by
    unfold Batch.allDeferreds
    rw [hempty]
    rfl
  refine ⟨hall, fun d hd => ?_⟩
  rcases hm d hd with hd | ⟨x, hx, rfl⟩
  · simp [Batch.allDeferreds, Dict.empty, Dict.values] at hd
  · obtain ⟨y, hy, rfl⟩ := List.mem_map.mp hx
    exact ⟨y.1, List.fst_mem_of_mem_zipIdx hy, rfl⟩

theorem mentions_head {d : Nat} {ds : List Nat} {v : Value} {work : Work}
    (hstage : b.stage = .running (d :: ds) v work) : b.Mentions d := by
  right
  rw [hstage]
  cases work with
  | route rest groups => exact .inl List.mem_cons_self
  | responses rest failed => exact List.mem_cons_self
  | failEach rest => exact List.mem_cons_self
  | complete => exact List.mem_cons_self

theorem batchReqs_setLookups (c : Core) (b : Batch) (requests : List (SendRequest × Lookup)) :
    (setLookups c b requests).batchReqs = c.batchReqs := by
  unfold setLookups
  split <;> rfl

theorem groups_setLookups (c : Core) (b : Batch) (requests : List (SendRequest × Lookup)) :
    (setLookups c b requests).groups = c.groups := by
  unfold setLookups
  split <;> rfl

theorem batchReqs_startBatch (cfg : Config) (c : Core) (answers : List Answer) :
    (startBatch cfg c answers).batchReqs = [] :=
  batchReqs_setLookups _ _ _

theorem works_look (h : Owned c) (hb : c.batch = some b) {requests requests' : List (SendRequest × Lookup)}
    {ds : List Nat} {c₁ : Core} (hstage : b.stage = .lookups requests) (hwoken : Woken cfg c requests ds c₁ requests') :
    Works c (setLookups c₁ b requests') b := by
  have hl := look_ledger hwoken b
  obtain ⟨⟨interval, rfl⟩, hmap⟩ := hwoken.counts
  refine h.goTo hb hl.nextD (batchReqs_setLookups _ _ _) (groups_setLookups _ _ _)
    (fun d hd => .inl ((fired_iff hl.calls d).mp hd)) fun b' hb' => ?_
  obtain ⟨hd, hm⟩ := mentions_setLookups hb'
  refine ⟨hd, fun d hd => (hm d hd).imp_right ?_⟩
  rintro ⟨x, hx, rfl⟩
  rw [hstage]
  have hmem : x.1 ∈ requests.map Prod.fst := hmap ▸ List.mem_map_of_mem hx
  obtain ⟨y, hy, heq⟩ := List.mem_map.mp hmem
  exact ⟨y, hy, by rw [heq]⟩

theorem Owned.erase_ne (h : Owned c) {d : Nat} {req : SendRequest}
    (hreq : (c.batchReqs.find? fun req => req.deferred = d) = some req) :
    ∀ r ∈ c.batchReqs.erase req, r.deferred ≠ d := by
  intro r hr hrd
  have hreqd : req.deferred = d := by simpa using List.find?_some hreq
  have hnodup : c.batchReqs.Nodup := h.nodup.of_map
  obtain ⟨hne, hmem⟩ := hnodup.mem_erase_iff.mp hr
  exact hne (List.inj_on_of_nodup_map h.nodup hmem (List.mem_of_find?_eq_some hreq) (hrd.trans hreqd.symm))

theorem not_waits_of_find {d : Nat} (hnone : (c.batchReqs.find? fun req => req.deferred = d) = none) : ¬ Waits c d := by
  rintro ⟨r, hr, hrd⟩
  simpa [hrd] using List.find?_eq_none.mp hnone r hr

theorem shift_turn (h : Owned c) {l : Loads} (ht : Turn cfg c l c') : Shift c c' := by
  cases ht with
  | enqueue req hd => exact .enqueue req hd
  | drop d e req hlt hf hreq => exact .cancel d _ _ hlt List.erase_sublist (h.erase_ne hreq)
  | disown d e hlt hf hnone =>
    exact .cancel d _ _ hlt (List.Sublist.refl _) fun r hr hrd => not_waits_of_find hnone ⟨r, hr, hrd⟩
  | start answers hb =>
    exact .start _ (startBatch_ledger c answers) (batchReqs_startBatch cfg c answers) (groups_setLookups _ _ _)
      fun _ => mentions_startBatch
  | look b requests requests' ds c₁ hb hstage hwoken => exact .work b _ hb (works_look h hb hstage hwoken)
  | skip b d ds v work hb hstage hf =>
    refine .work b _ hb (h.goTo hb rfl rfl rfl (fun _ hd => .inl hd) fun b' hb' => ?_)
    obtain rfl := Option.some.inj hb'
    exact ⟨rfl, mentions_tail hstage⟩
  | deliver b d ds v work hb hstage hf =>
    refine .work b _ hb (h.goTo hb rfl rfl rfl (fun x hx => ?_) fun b' hb' => ?_)
    · rw [fired_append (c := c) rfl] at hx
      rcases hx with hx | rfl
      · exact .inl hx
      · exact .inr (mentions_head hstage)
    · obtain rfl := Option.some.inj hb'
      exact ⟨rfl, mentions_tail hstage⟩
  | work b v work hb hstage => exact .work b _ hb (works_runWork h hb hstage)
  | result b payloads r hb hstage =>
    have hnote : Owned (noteResult cfg c b r) :=
      ⟨⟨h.issued.waiting, h.issued.batch⟩, h.old, h.nodup, h.waiting, h.sent⟩
    obtain ⟨hn, hreqs, hfired, hsent, hm, hafter⟩ := hnote.onward hb (onward_handleSendResponse cfg c b r)
    exact .work b _ hb ⟨hn, hreqs, hfired, hsent, hm, hafter⟩
  | retry b payloads hb hstage =>
    refine .work b _ hb (h.goTo hb rfl rfl rfl (fun _ hd => .inl hd) fun b' hb' => ?_)
    obtain rfl := Option.some.inj hb'
    exact ⟨rfl, fun d hd => .inl (hd.resolve_right id)⟩
  | cancelRetry b payloads hb hstage =>
    refine .work b _ hb (h.goTo hb rfl rfl rfl (fun _ hd => .inl hd) fun b' hb' => ?_)
    obtain rfl := Option.some.inj hb'
    exact ⟨rfl, fun d hd => .inl (hd.elim id id)⟩

/-! ## Every run -/

theorem Owned.enqueue (h : Owned c) {req : SendRequest} (hd : req.deferred = c.nextD) :
    Owned { c with nextD := c.nextD + 1, batchReqs := c.batchReqs ++ [req], submitted := c.submitted ++ [req] } where
  issued := by
    refine ⟨fun r hr => ?_, fun b hb d hd => Nat.lt_succ_of_lt (h.issued.batch b hb d hd)⟩
    rcases List.mem_append.mp hr with hr | hr
    · exact Nat.lt_succ_of_lt (h.issued.waiting r hr)
    · rw [List.mem_singleton.mp hr, hd]
      exact Nat.lt_succ_self _
  old d hd := Nat.lt_succ_of_lt (h.old d hd)
  nodup := by
    rw [List.map_append, List.map_singleton, List.nodup_append]
    refine ⟨h.nodup, List.nodup_singleton _, fun x hx y hy => ?_⟩
    obtain ⟨r, hr, rfl⟩ := List.mem_map.mp hx
    have hlt := h.issued.waiting r hr
    rw [List.mem_singleton.mp hy, hd]
    exact hlt.ne
  waiting d hw := by
    obtain ⟨r, hr, rfl⟩ := hw
    rcases List.mem_append.mp hr with hr | hr
    · exact h.waiting _ ⟨r, hr, rfl⟩
    · rw [List.mem_singleton.mp hr, hd]
      exact ⟨fun hf => (h.old _ (.inl hf)).false, fun hs => (h.old _ (.inr hs)).false,
        fun b hb hm => (h.issued.batch b hb _ hm).false⟩
  sent := h.sent

theorem Owned.cancel (h : Owned c) {d : Nat} (hlt : d < c.nextD) (v : Value) {reqs : List SendRequest}
    (hsub : reqs.Sublist c.batchReqs) (hne : ∀ r ∈ reqs, r.deferred ≠ d) :
    Owned { c with batchReqs := reqs, calls := c.calls ++ [(d, v)] } := by
  have hfired (x : Nat) : Fired { c with batchReqs := reqs, calls := c.calls ++ [(d, v)] } x ↔ Fired c x ∨ x = d :=
    fired_append rfl x
  refine ⟨⟨fun r hr => h.issued.waiting r (hsub.subset hr), h.issued.batch⟩, fun x hx => ?_,
    h.nodup.sublist (hsub.map _), fun x hx => ?_, h.sent⟩
  · rw [hfired] at hx
    rcases hx with (hx | rfl) | hx
    · exact h.old x (.inl hx)
    · exact hlt
    · exact h.old x (.inr hx)
  · obtain ⟨r, hr, rfl⟩ := hx
    obtain ⟨hf, hrest⟩ := h.waiting r.deferred ⟨r, hsub.subset hr, rfl⟩
    rw [hfired]
    exact ⟨fun hx => hx.elim hf (hne r hr), hrest⟩

theorem Owned.start (h : Owned c) (hl : SameLedger c c') (hreqs : c'.batchReqs = []) (hgroups : c'.groups = c.groups)
    (hbatch : ∀ b', c'.batch = some b' → b'.allDeferreds = [] ∧ ∀ d, b'.Mentions d → Waits c d) : Owned c' := by
  refine ⟨⟨by simp [hreqs], fun b hb d hd => ?_⟩, fun d hd => ?_, by simp [hreqs], fun d hd => ?_, fun b hb => ?_⟩
  · obtain ⟨req, hreq, rfl⟩ := (hbatch b hb).2 d hd
    rw [hl.nextD]
    exact h.issued.waiting req hreq
  · rw [fired_iff hl.calls, sent_iff hgroups] at hd
    rw [hl.nextD]
    exact h.old d hd
  · unfold Waits at hd
    simp [hreqs] at hd
  · obtain ⟨hempty, hm⟩ := hbatch b hb
    refine ⟨by simp [hempty], fun d hd => .inr ?_⟩
    rw [sent_iff hgroups]
    exact (h.waiting d (hm d hd)).2.1

theorem owned_shift (h : Owned c) (hs : Shift c c') : Owned c' := by
  cases hs with
  | enqueue req hd => exact h.enqueue hd
  | cancel d v reqs hlt hsub hne => exact h.cancel hlt v hsub hne
  | start c' hl hreqs hgroups hbatch => exact h.start hl hreqs hgroups hbatch
  | work b c' hb hw => exact h.works hb hw

theorem owned_new (interval : Rat) : Owned { retryInterval := interval } where
  issued := ⟨by simp, by simp⟩
  old d hd := by simp [Fired, Sent] at hd
  nodup := by simp
  waiting d hd := by simp [Waits] at hd
  sent := by simp

theorem owned_turns {l : Loads} (h : Owned c) (ht : Turns cfg c l c') : Owned c' :=
  turns_invariant (fun _ => Owned) (fun _ _ _ _ h ht => owned_shift h (shift_turn h ht)) [] ht h

theorem owned_run {looper : Bool} {es : List Event} {t : State}
    (hrun : Machine.run (step cfg) (init cfg looper) es = some t) : Known t ∧ Owned t.toCore :=
  turn_invariant Owned (owned_new _) (fun _ _ _ h ht => owned_shift h (shift_turn h ht)) looper es t hrun

end Afkak.Producer
