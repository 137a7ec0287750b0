import Afkak.Producer.Resolve

/-!
# No false acknowledgement

A `Deferred` takes its success path only with a response without an error, for the payload that had its
request. One whose payload failed at the last attempt takes its failure path before the calls under way
return.
-/

open Lib

namespace Afkak.Producer

def Honest (groups : List (TopicAndPartition × List SendRequest)) (d : Nat) (v : Value) : Prop :=
  v.isFailure ∨ ∃ r, v = .response r ∧ r.error = 0 ∧ ∃ g ∈ groups, g.1 = r.topicPart ∧ d ∈ g.2.map (·.deferred)

def Failed (c : Core) (d : Nat) : Prop := ∃ x ∈ c.calls, x.1 = d ∧ x.2.isFailure

instance (c : Core) (d : Nat) : Decidable (Failed c d) := inferInstanceAs (Decidable (∃ x ∈ _, _))

variable (cfg : Config)

/-- An error in a response is to a payload of the batch, and at the last attempt there is none. -/
def errorsRetried (attempts : Int) (b : Batch) (r : ClientResult) : Prop :=
  (∀ res ∈ r.held, res.error ≠ 0 → (b.payloads.get? res.topicPart).isSome) ∧
    (cfg.maxAttempts ≤ attempts → ∀ res ∈ r.held, res.error = 0)

instance (attempts : Int) (b : Batch) (r : ClientResult) : Decidable (errorsRetried cfg attempts b r) :=
  inferInstanceAs (Decidable (_ ∧ _))

def retried : Cond where
  result := errorsRetried cfg
  build _ := True

instance (a : Int) (b : Batch) (r : ClientResult) : Decidable ((retried cfg).result a b r) :=
  inferInstanceAs (Decidable (errorsRetried cfg a b r))

instance (groups : Dict TopicAndPartition (List SendRequest)) : Decidable ((retried cfg).build groups) :=
  inferInstanceAs (Decidable True)

/-- No two requests have one `Deferred`. With no attempt left, all that is to be delivered for failed
payloads is a `Failure`. -/
def Work.Honest (attempts : Int) (payloads : Dict TopicAndPartition Payload) : Work → Prop
  | .route rest groups =>
    (rest.map fun x => x.1.deferred).Nodup ∧ (∀ x ∈ rest, ∀ tp, ¬ InGroup groups tp x.1.deferred) ∧
      ∀ d tp tp', InGroup groups tp d → InGroup groups tp' d → tp = tp'
  | .responses rest failed =>
    (∀ res ∈ rest, res.error ≠ 0 → (payloads.get? res.topicPart).isSome) ∧ (∀ x ∈ failed, x.1.isSome) ∧
      (cfg.maxAttempts ≤ attempts → (∀ res ∈ rest, res.error = 0) ∧ ∀ x ∈ failed, x.2.isFailure)
  | .failEach rest => ∀ x ∈ rest, x.1.isSome ∧ x.2.isFailure
  | .complete => True

def Stage.Honest (groups : List (TopicAndPartition × List SendRequest)) (attempts : Int)
    (payloads : Dict TopicAndPartition Payload) : Stage → Prop
  | .lookups requests => (requests.map fun x => x.1.deferred).Nodup
  | .running ds v work => (∀ d ∈ ds, Producer.Honest groups d v) ∧ work.Honest cfg attempts payloads
  | .sent _ | .retrying _ => True

structure Batch.Honest (groups : List (TopicAndPartition × List SendRequest)) (attempts : Int) (b : Batch) :
    Prop where
  formed : b.Formed
  grouped : ∀ tp, ∀ d ∈ b.deferredsOf tp, ∃ g ∈ groups, g.1 = tp ∧ d ∈ g.2.map (·.deferred)
  unique : ∀ d tp tp', d ∈ b.deferredsOf tp → d ∈ b.deferredsOf tp' → tp = tp'
  stage : b.stage.Honest cfg groups attempts b.payloads

def Work.Dooms (attempts : Int) (b : Batch) (d : Nat) : Work → Prop
  | .responses rest failed =>
    cfg.maxAttempts ≤ attempts ∧ ∃ p v, (some p, v) ∈ failed ∧ d ∈ b.deferredsOf p.topicPart ∧
      ∀ res ∈ rest, res.topicPart ≠ p.topicPart
  | .failEach rest => ∃ p v, (some p, v) ∈ rest ∧ d ∈ b.deferredsOf p.topicPart
  | .route _ _ | .complete => False

def Batch.Dooms (attempts : Int) (b : Batch) (d : Nat) : Prop :=
  match b.stage with
  | .running ds v work => (d ∈ ds ∧ v.isFailure) ∨ (d ∉ ds ∧ work.Dooms cfg attempts b d)
  | _ => False

def DoomedBy (attempts : Int) (b : Batch) (failed : List (Payload × Value)) (d : Nat) : Prop :=
  cfg.maxAttempts ≤ attempts ∧ ∃ p v, (some p, v) ∈ failed ∧ d ∈ b.deferredsOf p.topicPart

structure Truthful (c : Core) : Prop where
  once : (c.calls.map Prod.fst).Nodup
  calls : ∀ x ∈ c.calls, Honest c.groups x.1 x.2
  reqs : (c.batchReqs.map (·.deferred)).Nodup ∧ ∀ req ∈ c.batchReqs, req.deferred < c.nextD
  batch : ∀ b, c.batch = some b → b.Honest cfg c.groups c.reqAttempts
  doomed : ∀ d ∈ c.doomed, Failed c d ∨ (¬ Fired c d ∧ ∃ b, c.batch = some b ∧ b.Dooms cfg c.reqAttempts d)

variable {cfg} {c : Core} {b : Batch}

theorem Honest.mono {groups groups' : List (TopicAndPartition × List SendRequest)} {d : Nat} {v : Value}
    (h : Honest groups d v) (hsub : ∀ g ∈ groups, g ∈ groups') : Honest groups' d v := by
  refine h.imp_right ?_
  rintro ⟨r, hv, he, g, hg, hd⟩
  exact ⟨r, hv, he, g, hsub g hg, hd⟩

theorem Truthful.next (h : Truthful cfg c) (hb : c.batch = some b) {u : Core} {w : Batch}
    (hn : u.nextD = c.nextD) (hreqs : u.batchReqs = c.batchReqs) (hcalls : u.calls = c.calls)
    (hgroups : ∀ g ∈ c.groups, g ∈ u.groups) (hb' : u.batch = some w)
    (hhonest : w.Honest cfg u.groups u.reqAttempts)
    (hnew : ∀ d ∈ u.doomed, d ∈ c.doomed ∨ (¬ Fired c d ∧ w.Dooms cfg u.reqAttempts d))
    (hdooms : ∀ d, ¬ Fired c d → b.Dooms cfg c.reqAttempts d → w.Dooms cfg u.reqAttempts d) : Truthful cfg u where
  once := hcalls ▸ h.once
  calls x hx := (h.calls x (hcalls ▸ hx)).mono hgroups
  reqs := by
    rw [hreqs, hn]
    exact h.reqs
  batch b₀ hb₀ := by
    rw [hb', Option.some.injEq] at hb₀
    exact hb₀ ▸ hhonest
  doomed d hd := by
    unfold Failed Fired
    rw [hcalls]
    rcases hnew d hd with hd | ⟨hf, hdoom⟩
    · rcases h.doomed d hd with hfail | ⟨hf, b₀, hb₀, hdoom⟩
      · exact .inl hfail
      · rw [hb, Option.some.injEq] at hb₀
        subst hb₀
        exact .inr ⟨hf, w, hb', hdooms d hf hdoom⟩
    · exact .inr ⟨hf, w, hb', hdoom⟩

theorem Truthful.goTo (h : Truthful cfg c) (hb : c.batch = some b) {g : Stage}
    (hstage : g.Honest cfg c.groups c.reqAttempts b.payloads)
    (hdooms : ∀ d, ¬ Fired c d → b.Dooms cfg c.reqAttempts d →
      Batch.Dooms cfg c.reqAttempts { b with stage := g } d) : Truthful cfg (c.setStage b g) := by
  have hold := h.batch b hb
  exact h.next (u := c.setStage b g) hb rfl rfl rfl (fun _ => id) rfl
    ⟨hold.formed.of_eq rfl rfl, hold.grouped, hold.unique, hstage⟩ (fun d hd => .inl hd) hdooms

theorem truthful_checkRetry (h : Truthful cfg c) (hb : c.batch = some b) {u : Core} {w : Batch}
    (hn : u.nextD = c.nextD) (hreqs : u.batchReqs = c.batchReqs) (hcalls : u.calls = c.calls)
    (hgroups : u.groups = c.groups) (hattempts : u.reqAttempts = c.reqAttempts)
    (hp : w.payloads = b.payloads) (hd : w.deferreds = b.deferreds) {failed : List (Payload × Value)}
    (hsome : ∀ x ∈ failed, x.1.isSome) (hfail : cfg.maxAttempts ≤ c.reqAttempts → ∀ x ∈ failed, x.2.isFailure)
    (hnew : ∀ d ∈ u.doomed, d ∈ c.doomed ∨ (¬ Fired c d ∧ DoomedBy cfg c.reqAttempts b failed d))
    (hdooms : ∀ d, ¬ Fired c d → b.Dooms cfg c.reqAttempts d → DoomedBy cfg c.reqAttempts b failed d) :
    Truthful cfg (checkRetryPayloads cfg u w failed) := by
  have hold := h.batch b hb
  have hdef : ∀ tp, w.deferredsOf tp = b.deferredsOf tp := by simp [Batch.deferredsOf, hd]
  have hsub : ∀ g ∈ c.groups, g ∈ u.groups := fun g hg => hgroups ▸ hg
  have hhonest : ∀ stage, stage.Honest cfg u.groups u.reqAttempts w.payloads →
      Batch.Honest cfg u.groups u.reqAttempts { w with stage := stage } := fun stage hstage =>
    { formed := hold.formed.of_eq hp hd
      grouped := fun tp d hmem => by
        rw [hgroups]
        exact hold.grouped tp d (hdef tp ▸ hmem)
      unique := fun d tp tp' hmem hmem' => hold.unique d tp tp' (hdef tp ▸ hmem) (hdef tp' ▸ hmem')
      stage := hstage }
  have hnone := none_missing hsome
  unfold checkRetryPayloads
  split
  · next hout =>
    rw [hattempts] at hout
    have hby : ∀ d, DoomedBy cfg c.reqAttempts b failed d →
        Batch.Dooms cfg u.reqAttempts { w with stage := .running [] .none (.failEach failed) } d := by
      rintro d ⟨-, p, v, hm, hmem⟩
      exact .inr ⟨List.not_mem_nil, p, v, hm, (hdef p.topicPart).symm ▸ hmem⟩
    exact h.next (u := goOn u w [] .none (.failEach failed)) hb hn hreqs hcalls hsub rfl
      (hhonest _ ⟨by simp, fun x hx => ⟨hsome x hx, hfail hout x hx⟩⟩)
      (fun d hd => (hnew d hd).imp_right fun hd => ⟨hd.1, hby d hd.2⟩)
      fun d hf hdoom => hby d (hdooms d hf hdoom)
  · next hleft =>
    rw [hattempts] at hleft
    simp only [hnone, Bool.false_eq_true, if_false]
    refine h.next (w := { w with stage := .retrying (failed.map Prod.fst) }) hb hn hreqs hcalls hsub rfl
      (hhonest (.retrying _) trivial) (fun d hd => ?_) fun d hf hdoom => absurd (hdooms d hf hdoom).1 hleft
    exact (hnew d hd).imp_right fun hd => absurd hd.2.1 hleft

theorem lastErrors_subset {r : ClientResult} {d : Nat} (h : d ∈ lastErrors cfg c b r) : d ∈ b.allDeferreds := by
  unfold lastErrors at h
  split at h
  · exact h
  · exact h
  · split at h
    · cases h
    · exact h
  · split at h
    · cases h
    · obtain ⟨tp, -, hd⟩ := List.mem_flatMap.mp h
      exact Batch.mem_allDeferreds.mpr ⟨tp, hd⟩

theorem truthful_result (hacks : cfg.reqAcks ≠ PRODUCER_ACK_NOT_REQUIRED) (h : Truthful cfg c)
    (hb : c.batch = some b) {payloads : List Payload} (hstage : b.stage = .sent payloads) {r : ClientResult}
    (hr : errorsRetried cfg c.reqAttempts b r) : Truthful cfg (handleSendResponse cfg c b r) := by
  have hold := h.batch b hb
  have hnew : ∀ d ∈ (noteResult cfg c b r).doomed, d ∈ c.doomed ∨ (¬ Fired c d ∧ d ∈ lastErrors cfg c b r) := by
    intro d hd
    simp only [noteResult, List.mem_append, List.mem_filter, decide_eq_true_eq] at hd
    exact hd.imp_right fun hd => ⟨hd.2, hd.1⟩
  -- Nothing is doomed while the result is awaited.
  have hnodoom : ∀ d, ¬ b.Dooms cfg c.reqAttempts d := by
    intro d
    simp [Batch.Dooms, hstage]
  have hgo : ∀ ds v work, Stage.Honest cfg c.groups c.reqAttempts b.payloads (.running ds v work) →
      (∀ d ∈ lastErrors cfg c b r, (d ∈ ds ∧ v.isFailure) ∨ (d ∉ ds ∧ work.Dooms cfg c.reqAttempts b d)) →
      Truthful cfg (goOn (noteResult cfg c b r) { b with acked := b.acked ++ r.acks } ds v work) :=
    fun ds v work hs hdoom => h.next
      (u := goOn (noteResult cfg c b r) { b with acked := b.acked ++ r.acks } ds v work) hb rfl rfl rfl
      (fun _ => id) rfl ⟨hold.formed.of_eq rfl rfl, hold.grouped, hold.unique, hs⟩
      (fun d hd => (hnew d hd).imp_right fun hd => ⟨hd.1, hdoom d hd.2⟩)
      fun d _ hd => absurd hd (hnodoom d)
  have hall : ∀ v : Value, v.isFailure →
      Truthful cfg (goOn (noteResult cfg c b r) { b with acked := b.acked ++ r.acks } b.allDeferreds v .complete) :=
    fun v hv => hgo _ _ _ ⟨fun _ _ => .inl hv, trivial⟩ fun d hd => .inl ⟨lastErrors_subset hd, hv⟩
  have hloop : ∀ failed, (∀ x ∈ failed, x.1.isSome ∧ x.2.isFailure) →
      (∀ tp ∈ r.errors, (∀ res ∈ r.held, res.error = 0) → ∃ p v, (some p, v) ∈ failed ∧ p.topicPart = tp) →
      lastErrors cfg c b r = (if c.reqAttempts < cfg.maxAttempts then [] else r.errors.flatMap b.deferredsOf) →
      Truthful cfg (goOn (noteResult cfg c b r) { b with acked := b.acked ++ r.acks } [] .none
        (.responses r.held failed)) := by
    intro failed hfailed hcover hlast
    refine hgo _ _ _ ⟨by simp, hr.1, fun x hx => (hfailed x hx).1, fun hout => ⟨hr.2 hout, fun x hx => (hfailed x hx).2⟩⟩
      fun d hd => .inr ⟨by simp, ?_⟩
    rw [hlast] at hd
    split at hd
    · cases hd
    · next hout =>
      have hzero := hr.2 (by omega)
      obtain ⟨tp, htp, hmem⟩ := List.mem_flatMap.mp hd
      obtain ⟨p, v, hm, rfl⟩ := hcover tp htp hzero
      refine ⟨by omega, p, v, hm, hmem, fun res hres heq => ?_⟩
      -- A response without an error is an acknowledgement.
      have hack : p.topicPart ∈ r.acks :=
        List.mem_map.mpr ⟨res, List.mem_filter.mpr ⟨hres, by simp [hzero res hres]⟩, heq⟩
      simp only [ClientResult.errors, List.mem_filter, decide_eq_true_eq] at htp
      exact htp.2 hack
  unfold handleSendResponse
  simp only [if_neg hacks]
  split
  · exact hall _ rfl
  · exact hall _ rfl
  · next l hne =>
    refine hloop [] (by simp) (fun tp htp hzero => ?_) ?_
    · simp only [ClientResult.errors, List.nil_append, List.mem_filter, List.mem_map, decide_eq_true_eq] at htp
      obtain ⟨⟨res, ⟨hres, he⟩, -⟩, -⟩ := htp
      exact absurd (hzero res hres) he
    · cases l with
      | nil => exact absurd rfl hne
      | cons res l => rfl
  · next l failed =>
    refine hloop _ (fun x hx => ?_) (fun tp htp hzero => ?_) rfl
    · obtain ⟨y, -, rfl⟩ := List.mem_map.mp hx
      exact ⟨rfl, rfl⟩
    · simp only [ClientResult.errors, List.mem_filter, List.mem_append, List.mem_map, decide_eq_true_eq] at htp
      obtain ⟨⟨x, hx, rfl⟩ | ⟨res, ⟨hres, he⟩, -⟩, -⟩ := htp
      · exact ⟨x.1, .failure x.2, List.mem_map.mpr ⟨x, hx, rfl⟩, rfl⟩
      · exact absurd (hzero res hres) he
  · next e =>
    split
    · next hk =>
      have hby : ∀ d ∈ lastErrors cfg c b (.failure e), DoomedBy cfg c.reqAttempts b
          (b.payloads.values.map fun p => (p, .failure e)) d := by
        intro d hd
        obtain ⟨tp, hmem⟩ := Batch.mem_allDeferreds.mp (lastErrors_subset hd)
        obtain ⟨p, hp⟩ := hold.formed.deferred tp d hmem
        obtain ⟨q, rfl, rfl⟩ := hold.formed.payload tp p hp
        refine ⟨?_, q, .failure e, ?_, hmem⟩
        · by_contra hout
          simp [lastErrors, hk, not_le.mp hout] at hd
        · exact List.mem_map.mpr ⟨some q, List.mem_map.mpr ⟨_, (Dict.get?_eq_some_iff _ _ _).mp hp, rfl⟩, rfl⟩
      split
      · next hnil =>
        refine hgo _ _ _ ⟨by simp, trivial⟩ fun d hd => ?_
        obtain ⟨-, p, v, hm, -⟩ := hby d hd
        rw [hnil] at hm
        cases hm
      · refine truthful_checkRetry (u := noteResult cfg c b (.failure e))
          (w := { b with acked := b.acked ++ (ClientResult.failure e).acks }) h hb rfl rfl rfl rfl rfl rfl rfl
          (fun x hx => ?_) (fun _ x hx => ?_) (fun d hd => (hnew d hd).imp_right fun hd => ⟨hd.1, hby d hd.2⟩)
          fun d _ hd => absurd hd (hnodoom d)
        · obtain ⟨p, hp, rfl⟩ := List.mem_map.mp hx
          obtain ⟨⟨tp, p⟩, he, rfl⟩ := List.mem_map.mp hp
          obtain ⟨q, hq, -⟩ := hold.formed.payload tp p ((Dict.get?_eq_some_iff _ _ _).mpr he)
          simp [hq]
        · obtain ⟨p, -, rfl⟩ := List.mem_map.mp hx
          rfl
    · exact hall _ rfl

theorem truthful_sendGroups (h : Truthful cfg c) (hb : c.batch = some b) {v : Value}
    {groups : Dict TopicAndPartition (List SendRequest)} (hstage : b.stage = .running [] v (.route [] groups)) :
    Truthful cfg (sendGroups cfg c b groups) := by
  have hold := h.batch b hb
  have hst := hold.stage
  rw [hstage] at hst
  have hnodoom : ∀ d, ¬ b.Dooms cfg c.reqAttempts d := by
    intro d
    simp [Batch.Dooms, hstage, Work.Dooms]
  have hend : Truthful cfg (goOn c b [] .none .complete) :=
    h.goTo hb ⟨by simp, trivial⟩ fun d _ hd => absurd hd (hnodoom d)
  unfold sendGroups
  split
  · exact hend
  · exact hend
  · next p payloads hbuild =>
    refine h.next (u := sendProduceRequest { c with groups := c.groups ++ groups.entries }
      { b with
        payloads := Dict.empty.update ((p :: payloads).map fun p => (p.topicPart, some p))
        deferreds := groups.mapValues fun _ reqs => reqs.map (·.deferred) } ((p :: payloads).map some))
      hb rfl rfl rfl (fun g hg => List.mem_append_left _ hg) rfl ⟨⟨fun tp q hq => ?_, fun tp d hd => ?_⟩,
        fun tp d hd => ?_, fun d tp tp' hd hd' => ?_, trivial⟩ (fun d hd => .inl hd) fun d _ hd => absurd hd (hnodoom d)
    · obtain ⟨q', -, rfl, htp⟩ := (get?_payloads hbuild tp q).mp hq
      exact ⟨q', rfl, htp⟩
    · obtain ⟨reqs, hget, -⟩ := (mem_deferredsOf_groups rfl tp d).mp hd
      have hmem : tp ∈ (p :: payloads).map (·.topicPart) := by
        rw [buildPayloads_keys hbuild]
        exact List.mem_map_of_mem ((Dict.get?_eq_some_iff _ _ _).mp hget)
      obtain ⟨q, hq, htp⟩ := List.mem_map.mp hmem
      exact ⟨some q, (get?_payloads hbuild tp _).mpr ⟨q, hq, rfl, htp⟩⟩
    · obtain ⟨reqs, hget, req, hreq, rfl⟩ := (mem_deferredsOf_groups rfl tp d).mp hd
      exact ⟨(tp, reqs), List.mem_append_right _ ((Dict.get?_eq_some_iff _ _ _).mp hget), rfl,
        List.mem_map_of_mem hreq⟩
    · exact hst.2.2.2 d tp tp' ((mem_deferredsOf_groups rfl tp d).mp hd) ((mem_deferredsOf_groups rfl tp' d).mp hd')

theorem truthful_work (h : Truthful cfg c) (hb : c.batch = some b) {v : Value} {work : Work}
    (hstage : b.stage = .running [] v work) : Truthful cfg (runWork cfg c b v work) := by
  have hold := h.batch b hb
  have hst := hold.stage
  rw [hstage] at hst
  replace hst := hst.2
  have hgo : ∀ ds v' work', Stage.Honest cfg c.groups c.reqAttempts b.payloads (.running ds v' work') →
      (∀ d, work.Dooms cfg c.reqAttempts b d → (d ∈ ds ∧ v'.isFailure) ∨ (d ∉ ds ∧ work'.Dooms cfg c.reqAttempts b d)) →
      Truthful cfg (goOn c b ds v' work') := by
    intro ds v' work' hs hdoom
    refine h.goTo hb hs fun d _ hd => hdoom d ?_
    simpa [Batch.Dooms, hstage] using hd
  cases work with
  | route rest groups =>
    cases rest with
    | nil => exact truthful_sendGroups h hb hstage
    | cons x rest =>
      obtain ⟨req, lookup⟩ := x
      obtain ⟨hnodup, hfresh, hunique⟩ := hst
      rw [List.map_cons, List.nodup_cons] at hnodup
      have hrest : ∀ x ∈ rest, ∀ tp, ¬ InGroup groups tp x.1.deferred :=
        fun x hx => hfresh x (List.mem_cons_of_mem _ hx)
      have hkeep : Work.Honest cfg c.reqAttempts b.payloads (.route rest groups) := ⟨hnodup.2, hrest, hunique⟩
      simp only [runWork]
      split
      · exact hgo _ _ _ ⟨by simp, hkeep⟩ fun d hd => hd.elim
      · split
        · exact hgo _ _ _ ⟨fun _ _ => .inl rfl, hkeep⟩ fun d hd => hd.elim
        · next p =>
          refine hgo _ _ _ ⟨by simp, hnodup.2, fun x hx tp hg => ?_, fun d tp tp' hg hg' => ?_⟩ fun d hd => hd.elim
          · rcases inGroup_set.mp hg with hg | ⟨-, heq⟩
            · exact hrest x hx tp hg
            · exact hnodup.1 (heq ▸ List.mem_map_of_mem hx)
          · rcases inGroup_set.mp hg with hg | ⟨rfl, rfl⟩
            · rcases inGroup_set.mp hg' with hg' | ⟨-, rfl⟩
              · exact hunique d tp tp' hg hg'
              · exact absurd hg (hfresh _ List.mem_cons_self tp)
            · rcases inGroup_set.mp hg' with hg' | ⟨rfl, -⟩
              · exact absurd hg' (hfresh _ List.mem_cons_self tp')
              · rfl
        · exact hgo _ _ _ ⟨by simp, hkeep⟩ fun d hd => hd.elim
        · exact hgo _ _ _ ⟨by simp, hkeep⟩ fun d hd => hd.elim
  | responses rest failed =>
    obtain ⟨hpayload, hsome, hout⟩ := hst
    cases rest with
    | nil =>
      simp only [runWork]
      split
      · next hnil =>
        refine hgo _ _ _ ⟨by simp, trivial⟩ fun d hd => ?_
        obtain ⟨-, p, v, hm, -⟩ := hd
        simp [hnil] at hm
      · refine truthful_checkRetry h hb rfl rfl rfl rfl rfl rfl rfl hsome (fun hle => (hout hle).2)
          (fun d hd => .inl hd)
          fun d _ hd => ?_
        simp only [Batch.Dooms, hstage, Work.Dooms, List.not_mem_nil, false_and, not_false_eq_true, true_and,
          false_or] at hd
        obtain ⟨hle, p, v, hm, hmem, -⟩ := hd
        exact ⟨hle, p, v, hm, hmem⟩
    | cons res rest =>
      rw [List.forall_mem_cons] at hpayload
      have hout' : cfg.maxAttempts ≤ c.reqAttempts → (∀ x ∈ rest, x.error = 0) ∧ ∀ x ∈ failed, x.2.isFailure :=
        fun hle => ⟨fun x hx => (hout hle).1 x (List.mem_cons_of_mem _ hx), (hout hle).2⟩
      simp only [runWork]
      split
      · next hzero =>
        refine hgo _ _ _ ⟨fun d hd => .inr ⟨res, rfl, hzero, hold.grouped _ d hd⟩, hpayload.2, hsome, hout'⟩
          fun d hd => .inr ?_
        obtain ⟨hle, p, f, hm, hmem, hne⟩ := hd
        refine ⟨fun hd => ?_, hle, p, f, hm, hmem, fun x hx => hne x (List.mem_cons_of_mem _ hx)⟩
        exact hne res List.mem_cons_self (hold.unique d _ _ hd hmem)
      · next he =>
        -- There is an attempt left, so nothing is doomed.
        have hleft : ¬ cfg.maxAttempts ≤ c.reqAttempts := fun hle => he ((hout hle).1 res List.mem_cons_self)
        obtain ⟨p, hp⟩ := Option.isSome_iff_exists.mp (hpayload.1 he)
        obtain ⟨q, rfl, -⟩ := hold.formed.payload _ _ hp
        rw [hp]
        refine hgo _ _ _ ⟨by simp, hpayload.2, fun x hx => ?_, fun hle => absurd hle hleft⟩
          fun d hd => absurd hd.1 hleft
        rcases List.mem_append.mp hx with hx | hx
        · exact hsome x hx
        · simp [List.mem_singleton.mp hx]
  | failEach rest =>
    cases rest with
    | nil =>
      refine hgo _ _ _ ⟨by simp, trivial⟩ fun d hd => ?_
      obtain ⟨p, f, hm, -⟩ := hd
      cases hm
    | cons x rest =>
      obtain ⟨p, f⟩ := x
      obtain ⟨⟨hsome, hfail⟩, hrest⟩ := List.forall_mem_cons.mp hst
      obtain ⟨q, rfl⟩ := Option.isSome_iff_exists.mp hsome
      refine hgo _ _ _ ⟨fun _ _ => .inl hfail, hrest⟩ fun d hd => ?_
      by_cases hmem : d ∈ b.deferredsOf q.topicPart
      · exact .inl ⟨hmem, hfail⟩
      · obtain ⟨p', f', hm, hd⟩ := hd
        refine .inr ⟨hmem, p', f', ?_, hd⟩
        rcases List.mem_cons.mp hm with heq | hm
        · simp only [Prod.mk.injEq, Option.some.injEq] at heq
          exact absurd (heq.1 ▸ hd) hmem
        · exact hm
  | complete =>
    refine ⟨h.once, h.calls, h.reqs, by simp [runWork], fun d hd => .inl ?_⟩
    rcases h.doomed d hd with hfail | ⟨-, b₀, hb₀, hdoom⟩
    · exact hfail
    · rw [hb, Option.some.injEq] at hb₀
      subst hb₀
      simp [Batch.Dooms, hstage, Work.Dooms] at hdoom

theorem Truthful.fire (h : Truthful cfg c) {d : Nat} {v : Value} (hf : ¬ Fired c d) (hv : Honest c.groups d v)
    {c' : Core} (hcalls : c'.calls = c.calls ++ [(d, v)]) (hgroups : c'.groups = c.groups)
    (hreqs : (c'.batchReqs.map (·.deferred)).Nodup ∧ ∀ req ∈ c'.batchReqs, req.deferred < c'.nextD)
    (hbatch : ∀ b, c'.batch = some b → b.Honest cfg c'.groups c'.reqAttempts) (hdoomed : c'.doomed = c.doomed)
    (hdooms : ∀ d' ∈ c.doomed, ∀ b, c.batch = some b → b.Dooms cfg c.reqAttempts d' → (d' = d ∧ v.isFailure) ∨
      (d' ≠ d ∧ ∃ b', c'.batch = some b' ∧ b'.Dooms cfg c'.reqAttempts d')) : Truthful cfg c' where
  once := by
    rw [hcalls, List.map_append, List.map_singleton, ← List.concat_eq_append, List.nodup_concat]
    exact ⟨hf, h.once⟩
  calls x hx := by
    rw [hcalls, List.mem_append, List.mem_singleton] at hx
    rw [hgroups]
    rcases hx with hx | rfl
    · exact h.calls x hx
    · exact hv
  reqs := hreqs
  batch := hbatch
  doomed d' hd' := by
    unfold Failed Fired
    rw [hcalls]
    rcases h.doomed d' (hdoomed ▸ hd') with ⟨x, hx, hfail⟩ | ⟨hf', b, hb, hdoom⟩
    · exact .inl ⟨x, List.mem_append_left _ hx, hfail⟩
    · rcases hdooms d' (hdoomed ▸ hd') b hb hdoom with ⟨rfl, hfail⟩ | ⟨hne, hdoom'⟩
      · exact .inl ⟨(d', v), List.mem_append_right _ (List.mem_singleton_self _), rfl, hfail⟩
      · refine .inr ⟨fun hfd => ?_, hdoom'⟩
        rw [List.map_append, List.mem_append] at hfd
        rcases hfd with hfd | hfd
        · exact hf' hfd
        · exact hne (by simpa using hfd)

theorem truthful_move (hacks : cfg.reqAcks ≠ PRODUCER_ACK_NOT_REQUIRED) {c' : Core} (h : Truthful cfg c)
    (hm : Move cfg (retried cfg) c c') : Truthful cfg c' := by
  cases hm with
  | enqueue req hd =>
    refine ⟨h.once, h.calls, ⟨?_, fun r hr => ?_⟩, h.batch, h.doomed⟩
    · rw [List.map_append, List.map_singleton, ← List.concat_eq_append, List.nodup_concat]
      refine ⟨fun hmem => ?_, h.reqs.1⟩
      obtain ⟨r, hr, heq⟩ := List.mem_map.mp hmem
      have := h.reqs.2 r hr
      omega
    · rcases List.mem_append.mp hr with hr | hr
      · exact Nat.lt_succ_of_lt (h.reqs.2 r hr)
      · rw [List.mem_singleton.mp hr, hd]
        exact Nat.lt_succ_self _
  | cancel d e reqs hf hsub hkeep =>
    refine h.fire hf (.inl rfl) rfl rfl ⟨h.reqs.1.sublist (hsub.map _), fun r hr => h.reqs.2 r (hsub.subset hr)⟩
      h.batch rfl fun d' _ b hb hdoom => ?_
    by_cases heq : d' = d
    · exact .inl ⟨heq, rfl⟩
    · exact .inr ⟨heq, b, hb, hdoom⟩
  | start requests hb hreqs =>
    refine ⟨h.once, h.calls, by simp, fun b hb' => ?_, fun d hd => .inl ?_⟩
    · simp only [Option.some.injEq] at hb'
      subst hb'
      refine ⟨⟨by simp, by simp [Batch.deferredsOf]⟩, by simp [Batch.deferredsOf], by simp [Batch.deferredsOf], ?_⟩
      have hnodup := h.reqs.1
      rw [← hreqs, List.map_map] at hnodup
      exact hnodup
    · rcases h.doomed d hd with hfail | ⟨-, b, hb', -⟩
      · exact hfail
      · rw [hb] at hb'
        cases hb'
  | look b requests requests' attempts interval hb hstage hreqs =>
    have hold := h.batch b hb
    have hst := hold.stage
    rw [hstage] at hst
    refine h.next (u := ({ c with reqAttempts := attempts, retryInterval := interval } : Core).setStage b
      (.lookups requests')) hb rfl rfl rfl (fun _ => id) rfl
      ⟨hold.formed.of_eq rfl rfl, hold.grouped, hold.unique, ?_⟩ (fun d hd => .inl hd) fun d _ hd => ?_
    · have hmap : (requests'.map fun x => x.1.deferred) = requests.map fun x => x.1.deferred := by
        simpa only [List.map_map, Function.comp_def] using congrArg (List.map (·.deferred)) hreqs
      show (requests'.map fun x => x.1.deferred).Nodup
      rw [hmap]
      exact hst
    · simp [Batch.Dooms, hstage] at hd
  | route b requests hb hstage hdone =>
    have hst := (h.batch b hb).stage
    rw [hstage] at hst
    refine h.goTo hb ⟨by simp, hst, ?_, ?_⟩ fun d _ hd => ?_
    · simp [InGroup]
    · simp [InGroup]
    · simp [Batch.Dooms, hstage] at hd
  | skip b d ds v work hb hstage hf =>
    have hst := (h.batch b hb).stage
    rw [hstage] at hst
    refine h.goTo hb (g := .running ds v work) ⟨fun d' hd' => hst.1 d' (List.mem_cons_of_mem _ hd'), hst.2⟩
      fun d' hf' hd' => ?_
    simp only [Batch.Dooms, hstage, List.mem_cons, not_or] at hd'
    rcases hd' with ⟨rfl | hmem, hv⟩ | ⟨hnot, hdoom⟩
    · exact absurd hf hf'
    · exact .inl ⟨hmem, hv⟩
    · exact .inr ⟨hnot.2, hdoom⟩
  | deliver b d ds v work hb hstage hf =>
    have hold := h.batch b hb
    have hst := hold.stage
    rw [hstage] at hst
    refine h.fire hf (hst.1 d List.mem_cons_self) rfl rfl h.reqs (fun b' hb' => ?_) rfl fun d' _ b₀ hb₀ hd' => ?_
    · simp only [goOn, Core.setStage, Option.some.injEq] at hb'
      subst hb'
      exact ⟨hold.formed.of_eq rfl rfl, hold.grouped, hold.unique,
        fun d' hd' => hst.1 d' (List.mem_cons_of_mem _ hd'), hst.2⟩
    · rw [hb, Option.some.injEq] at hb₀
      subst hb₀
      simp only [Batch.Dooms, hstage, List.mem_cons, not_or] at hd'
      by_cases heq : d' = d
      · rcases hd' with ⟨-, hv⟩ | ⟨hnot, -⟩
        · exact .inl ⟨heq, hv⟩
        · exact absurd heq hnot.1
      · refine .inr ⟨heq, _, rfl, ?_⟩
        rcases hd' with ⟨hmem, hv⟩ | ⟨hnot, hdoom⟩
        · exact .inl ⟨hmem.resolve_left heq, hv⟩
        · exact .inr ⟨hnot.2, hdoom⟩
  | work b v work hb hstage hbuild => exact truthful_work h hb hstage
  | result b payloads r hb hstage hr => exact truthful_result hacks h hb hstage hr
  | retry b payloads hb hstage =>
    have hold := h.batch b hb
    refine h.next (u := sendProduceRequest c b payloads) hb rfl rfl rfl (fun _ => id) rfl
      ⟨hold.formed.of_eq rfl rfl, hold.grouped, hold.unique, trivial⟩ (fun d hd => .inl hd) fun d _ hd => ?_
    simp [Batch.Dooms, hstage] at hd
  | cancelRetry b payloads hb hstage =>
    have hold := h.batch b hb
    refine h.next (u := cancelRetry c b) hb rfl rfl rfl (fun _ => id) rfl
      ⟨hold.formed.of_eq rfl rfl, hold.grouped, hold.unique, ⟨fun _ _ => .inl rfl, trivial⟩⟩ (fun d hd => .inl hd)
      fun d _ hd => ?_
    simp [Batch.Dooms, hstage] at hd

/-! ## Between the calls -/

def Busy (s : State) : Prop :=
  ∀ b ds v work, s.batch = some b → b.stage = .running ds v work → .batch ∈ s.agenda

theorem busy_advance (s : State) (c : Core) : Busy (s.advance c) := by
  intro b ds v work hb hstage
  have hb' : c.batch = some b := hb
  simp [State.advance, hb', hstage]

theorem Busy.mono {s t : State} (h : Busy s) (hb : t.batch = s.batch) (hagenda : ∀ a ∈ s.agenda, a ∈ t.agenda) :
    Busy t := fun b ds v work hb' hstage => hagenda _ (h b ds v work (hb ▸ hb') hstage)

theorem busy_sendBatch {s : State} (h : Busy s) (answers : List Answer) : Busy (sendBatch cfg s answers) := by
  unfold sendBatch
  split
  · exact h
  · exact busy_advance _ _

theorem busy_checkSendBatch {s : State} (h : Busy s) (answers : List Answer) : Busy (checkSendBatch cfg s answers) := by
  unfold checkSendBatch
  split
  · exact busy_sendBatch h answers
  · exact h

theorem busy_fire {s : State} (h : Busy s) (d : Nat) (v : Value) : Busy (fire s d v) :=
  h.mono rfl fun _ ha => List.mem_cons_of_mem _ ha

theorem busy_cancelSendMessages {s : State} (h : Busy s) (d : Nat) : Busy (cancelSendMessages s d) := by
  unfold cancelSendMessages
  split
  · exact h
  · split
    · next req hreq => exact h.mono rfl fun _ ha => List.mem_cons_of_mem _ ha
    · exact busy_fire h _ _

theorem busy_runBatch (s : State) : Busy (runBatch cfg s) := by
  unfold runBatch
  cases hb : s.batch with
  | none =>
    intro b ds v work hb'
    rw [hb] at hb'
    cases hb'
  | some b =>
    simp only
    split
    · split
      · exact busy_advance _ _
      · exact busy_fire (busy_advance _ _) _ _
    · exact busy_advance _ _
    · next h₁ h₂ =>
      intro b' ds v work hb' hstage
      rw [hb, Option.some.injEq] at hb'
      subst hb'
      cases ds with
      | nil => exact absurd hstage (h₂ v work)
      | cons d ds => exact absurd hstage (h₁ d ds v work)

theorem busy_cancelBatch {s : State} (h : Busy s) (outcome : CancelOutcome) : Busy (cancelBatch cfg s outcome) := by
  unfold cancelBatch
  repeat' split
  all_goals first | exact h | exact busy_advance _ _

theorem busy_step {s t : State} {e : Event} (h : Busy s) (hstep : step cfg s e = some t) : Busy t := by
  cases takes_of_step hstep with
  | sendMessages topic key msgs answers hturn hvalid =>
    exact busy_checkSendBatch (s := addRequest s topic key msgs) (h.mono rfl fun _ => id) answers
  | refused => exact h
  | cancel d hturn hd => exact busy_cancelSendMessages h d
  | stop outcome hturn =>
    exact busy_cancelBatch (s := { s with stopping := true, agenda := .cancelOutstanding :: s.agenda })
      (h.mono rfl fun _ ha => List.mem_cons_of_mem _ ha) outcome
  | tick answers hidle hlooper => exact busy_sendBatch h answers
  | wakeLookup i w b requests req l hb hstage hget => exact busy_advance _ _
  | clientResult r b payloads hb hstage => exact busy_advance _ _
  | retryTimer b payloads hidle hb hstage => exact busy_advance _ _
  | resume answers act agenda hagenda =>
    -- Any other turn leaves that of the batch where it is.
    have hrest : act ≠ .batch → Busy { s with agenda := agenda } := by
      intro hne b ds v work hb hstage
      have hmem := h b ds v work hb hstage
      rw [hagenda] at hmem
      exact (List.mem_cons.mp hmem).resolve_left (Ne.symm hne)
    cases act with
    | user => exact hrest (by simp)
    | batch => exact busy_runBatch _
    | checkSendBatch => exact busy_checkSendBatch (hrest (by simp)) answers
    | cancelOutstanding => exact (hrest (by simp)).mono rfl fun _ ha => List.mem_cons_of_mem _ ha
    | cancelEach ds =>
      cases ds with
      | nil => exact hrest (by simp)
      | cons d ds =>
        exact busy_cancelSendMessages (s := { s with agenda := .cancelEach ds :: agenda })
          ((hrest (by simp)).mono rfl fun _ ha => List.mem_cons_of_mem _ ha) d

/-- No `Deferred` fires twice; it fires on the success path only with the truth, and on the failure path
if the last attempt failed. -/
theorem no_false_acknowledgement (cfg : Config) (hacks : cfg.reqAcks ≠ PRODUCER_ACK_NOT_REQUIRED) (looper : Bool)
    (es : List Event) (t : State) (hok : Machine.RunOk (step cfg) (retried cfg).Meets (init cfg looper) es)
    (hrun : Machine.run (step cfg) (init cfg looper) es = some t) :
    (t.calls.map Prod.fst).Nodup ∧ (∀ x ∈ t.calls, Honest t.groups x.1 x.2) ∧
      (t.agenda = [] → ∀ d ∈ t.doomed, Failed t.toCore d) := by
  have hinv : Truthful cfg t.toCore := core_invariant (Truthful cfg) ⟨by simp, by simp, by simp, by simp, by simp⟩
    (fun _ _ h hm => truthful_move hacks h hm) looper es t hok hrun
  have hbusy : Busy t := Machine.run_invariant_all (step cfg) Busy (fun _ _ _ h hstep => busy_step h hstep) es
    (init cfg looper) t (fun _ _ _ _ hb => nomatch hb) hrun
  refine ⟨hinv.once, hinv.calls, fun hagenda d hd => ?_⟩
  rcases hinv.doomed d hd with hfail | ⟨-, b, hb, hdoom⟩
  · exact hfail
  · unfold Batch.Dooms at hdoom
    split at hdoom
    · next ds v work hstage =>
      have hmem := hbusy b ds v work hb hstage
      rw [hagenda] at hmem
      cases hmem
    · exact hdoom.elim

theorem partialSuccess_then_failed_payload : ∃ t,
    Machine.run (step pairConfig) (init pairConfig false)
      (partialSuccess ++ answer (.failedPayloads [] [(⟨"t", 1, []⟩, .requestTimedOut)]) 7) = some t ∧
      t.agenda.isEmpty ∧ t.doomed = [1] ∧
      (t.calls.map Prod.fst).Nodup ∧ (∀ x ∈ t.calls, Honest t.groups x.1 x.2) ∧
      (t.agenda = [] → ∀ d ∈ t.doomed, Failed t.toCore d) := by
  refine ⟨_, rfl, rfl, by decide, ?_⟩
  exact no_false_acknowledgement pairConfig (by decide) false
    (partialSuccess ++ answer (.failedPayloads [] [(⟨"t", 1, []⟩, .requestTimedOut)]) 7) _ (by decide) rfl

/-- The broker reports error 6 at the last attempt: `callback` is called with the exception. -/
theorem last_error_acknowledged : pairConfig.reqAcks ≠ PRODUCER_ACK_NOT_REQUIRED ∧ ∃ t,
    Machine.run (step pairConfig) (init pairConfig false)
      (partialSuccess ++ answer (.responses [⟨"t", 1, 6, -1⟩]) 8) = some t ∧
      t.agenda.isEmpty ∧ 1 ∈ t.doomed ∧ ¬ Failed t.toCore 1 ∧ ∃ x ∈ t.calls, ¬ Honest t.groups x.1 x.2 := by
  refine ⟨by decide, _, rfl, rfl, by decide, ?_, (1, .exception (.brokerResponse 6)), by decide, ?_⟩
  · decide
  · rintro (hfail | ⟨r, hr, -⟩)
    · cases hfail
    · cases hr

end Afkak.Producer
