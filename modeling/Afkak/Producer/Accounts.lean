import Afkak.Producer.Rounds

/-!
# What becomes of the payloads of a batch

A payload that the client was given is acknowledged in the end, or it fails when there is nothing left to try. Until
then its batch is in flight and owes it: it is in the request that is out, in the retry that is scheduled, or among
the errors of a result that is being worked through.
-/

open Lib

namespace Afkak.Producer

/-! ## The outcomes -/

/-- There is no retry after it, whatever attempts are left. An empty result is a success where no acknowledgement
was asked for, and else a `NoResponseError`. -/
def ClientResult.Final : ClientResult → Prop
  | .none | .responses [] => True
  | .failure e => e.isKafkaError = false
  | .responses (_ :: _) | .failedPayloads _ _ => False

/-- It has an error for the payload, and does not acknowledge it as well. -/
def ClientResult.Reports (tp : TopicAndPartition) : ClientResult → Prop
  | .failure _ => True
  | r => tp ∈ r.errors

def Acknowledged (c : Core) (n : Nat) (tp : TopicAndPartition) : Prop :=
  ∃ r, .result n r ∈ c.log ∧ tp ∈ r.acks

/-- The payload has failed, and there is nothing left to try. -/
inductive FinallyFailed (c : Core) (n : Nat) (tp : TopicAndPartition) : Prop
  | final (r : ClientResult) (h : .result n r ∈ c.log) (hr : r.Final)
  | exhausted (r : ClientResult) (h : (n, r) ∈ c.lastResults) (hr : r.Reports tp)
  | cancelled (h : n ∈ c.abandoned)

def Closed (c : Core) (n : Nat) (tp : TopicAndPartition) : Prop := Acknowledged c n tp ∨ FinallyFailed c n tp

/-! ## The invariant -/

variable (cfg : Config)

def Work.Owes (attempts : Int) (tp : TopicAndPartition) : Work → Prop
  | .responses rest failed =>
    attempts < cfg.maxAttempts ∧
      ((∃ res ∈ rest, res.error ≠ 0 ∧ res.topicPart = tp) ∨ ∃ q v, (some q, v) ∈ failed ∧ q.topicPart = tp)
  | .route _ _ | .failEach _ | .complete => False

def Stage.Owes (attempts : Int) (tp : TopicAndPartition) : Stage → Prop
  | .lookups _ => False
  | .running _ _ work => work.Owes cfg attempts tp
  | .sent payloads | .retrying payloads => ∃ q, some q ∈ payloads ∧ q.topicPart = tp

/-- `payloadsByTopicPart` has the payloads that were sent, each under its own topic and partition. -/
structure Batch.Entered (log : List Action) (b : Batch) : Prop where
  payload : ∀ tp p, b.payloads.get? tp = some p → ∃ q, p = some q ∧ q.topicPart = tp
  sent : ∀ p, some p ∈ batchPayloads b.number log → (b.payloads.get? p.topicPart).isSome
  sorted : b.Sorted

structure Owing (c : Core) : Prop where
  closed : ∀ n p, some p ∈ batchPayloads n c.log →
    (∃ b, c.batch = some b ∧ b.number = n ∧ b.stage.Owes cfg c.reqAttempts p.topicPart) ∨ Closed c n p.topicPart
  entered : ∀ b, c.batch = some b → b.Entered c.log

variable {cfg} {c u : Core} {b w : Batch}

/-! ## What was recorded stays -/

structure Recorded (c u : Core) : Prop where
  log : c.log ⊆ u.log
  lastResults : c.lastResults ⊆ u.lastResults
  abandoned : c.abandoned ⊆ u.abandoned

theorem Closed.mono (h : Recorded c u) {n : Nat} {tp : TopicAndPartition} (hc : Closed c n tp) : Closed u n tp := by
  rcases hc with ⟨r, hr, hacks⟩ | hfail
  · exact .inl ⟨r, h.log hr, hacks⟩
  · right
    cases hfail with
    | final r hr hfinal => exact .final r (h.log hr) hfinal
    | exhausted r hr herr => exact .exhausted r (h.lastResults hr) herr
    | cancelled hn => exact .cancelled (h.abandoned hn)

theorem Batch.Entered.of_eq {log : List Action} (h : b.Entered log) (hn : w.number = b.number)
    (hp : w.payloads = b.payloads) {log' : List Action}
    (hlog : batchPayloads b.number log' = batchPayloads b.number log) (hs : w.Sorted) : w.Entered log' where
  payload := by
    rw [hp]
    exact h.payload
  sent := by
    rw [hp, hn, hlog]
    exact h.sent
  sorted := hs

theorem Owing.next (h : Owing cfg c) (hb : c.batch = some b) (hu : u.batch = some w) (hn : w.number = b.number)
    (hrec : Recorded c u) (hlog : ∀ n, batchPayloads n u.log = batchPayloads n c.log) (hent : w.Entered u.log)
    (howes : ∀ p, some p ∈ batchPayloads b.number c.log → b.stage.Owes cfg c.reqAttempts p.topicPart →
      w.stage.Owes cfg u.reqAttempts p.topicPart ∨ Closed u b.number p.topicPart) : Owing cfg u where
  closed n p hp := by
    rw [hlog] at hp
    rcases h.closed n p hp with ⟨b₀, hb₀, rfl, hold⟩ | hold
    · obtain rfl : b = b₀ := Option.some.inj (hb.symm.trans hb₀)
      exact (howes p hp hold).imp_left fun hw => ⟨w, hu, hn, hw⟩
    · exact .inr (hold.mono hrec)
  entered b₀ hb₀ := by
    obtain rfl : w = b₀ := Option.some.inj (hu.symm.trans hb₀)
    exact hent

theorem Owing.goTo (h : Owing cfg c) (hb : c.batch = some b) {g : Stage}
    (hs : Batch.Sorted { b with stage := g })
    (howes : ∀ tp, b.stage.Owes cfg c.reqAttempts tp → g.Owes cfg c.reqAttempts tp) : Owing cfg (c.setStage b g) :=
  h.next (u := c.setStage b g) (w := { b with stage := g }) hb rfl rfl ⟨fun _ => id, fun _ => id, fun _ => id⟩
    (fun _ => rfl) ((h.entered b hb).of_eq (w := { b with stage := g }) rfl rfl rfl hs)
    fun p _ hold => .inl (howes p.topicPart hold)

theorem Owing.same (h : Owing cfg c) (hlog : c.log = u.log) (hlast : c.lastResults = u.lastResults)
    (habandoned : c.abandoned = u.abandoned) (hbatch : c.batch = u.batch) (hattempts : c.reqAttempts = u.reqAttempts) :
    Owing cfg u where
  closed n p hp := by
    rw [← hlog] at hp
    rw [← hbatch, ← hattempts]
    refine (h.closed n p hp).imp_right (Closed.mono ?_)
    exact ⟨hlog ▸ fun _ => id, hlast ▸ fun _ => id, habandoned ▸ fun _ => id⟩
  entered := by
    rw [← hlog, ← hbatch]
    exact h.entered

/-! ## Results -/

theorem error_of_not_acked {res : ProduceResponse} {r : ClientResult} (hres : res ∈ r.held)
    (hack : res.topicPart ∉ r.acks) : res.error ≠ 0 := fun h0 =>
  hack (List.mem_map.mpr ⟨res, List.mem_filter.mpr ⟨hres, by simpa using h0⟩, rfl⟩)

theorem reports_of_held {res : ProduceResponse} {r : ClientResult} (hres : res ∈ r.held)
    (hack : res.topicPart ∉ r.acks) : r.Reports res.topicPart := by
  have herr : res.topicPart ∈ r.errors := by
    refine List.mem_filter.mpr ⟨List.mem_append_right _ ?_, by simpa using hack⟩
    exact List.mem_map.mpr ⟨res, List.mem_filter.mpr ⟨hres, by simpa using error_of_not_acked hres hack⟩, rfl⟩
  cases r with
  | failure e => trivial
  | none => exact herr
  | responses l => exact herr
  | failedPayloads l failed => exact herr

theorem reports_of_failed {l : List ProduceResponse} {failed : List (ProduceRequest × Exc)}
    {x : ProduceRequest × Exc} (hx : x ∈ failed)
    (hack : x.1.topicPart ∉ (ClientResult.failedPayloads l failed).acks) :
    (ClientResult.failedPayloads l failed).Reports x.1.topicPart := by
  refine List.mem_filter.mpr ⟨List.mem_append_left _ ?_, by simpa using hack⟩
  exact List.mem_map.mpr ⟨x, hx, rfl⟩

theorem recorded_noteResult (c : Core) (b : Batch) (r : ClientResult) : Recorded c (noteResult cfg c b r) :=
  ⟨List.subset_append_left _ _, List.subset_append_left _ _, fun _ => id⟩

/-- What the result says of a payload closes it, or an attempt is left. -/
theorem closed_or_left {r : ClientResult} {tp : TopicAndPartition} (hr : tp ∉ r.acks → r.Reports tp) :
    Closed (noteResult cfg c b r) b.number tp ∨ (c.reqAttempts < cfg.maxAttempts ∧ tp ∉ r.acks) := by
  have hlog : .result b.number r ∈ (noteResult cfg c b r).log := by simp [noteResult]
  by_cases hack : tp ∈ r.acks
  · exact .inl (.inl ⟨r, hlog, hack⟩)
  · by_cases hleft : c.reqAttempts < cfg.maxAttempts
    · exact .inr ⟨hleft, hack⟩
    · refine .inl (.inr (.exhausted r ?_ (hr hack)))
      simp [noteResult, Int.not_lt.mp hleft]

theorem held_accounted {res : ProduceResponse} {r : ClientResult} (hres : res ∈ r.held) :
    (c.reqAttempts < cfg.maxAttempts ∧ res.error ≠ 0) ∨ Closed (noteResult cfg c b r) b.number res.topicPart :=
  (closed_or_left (reports_of_held hres)).symm.imp_left fun ⟨hleft, hack⟩ => ⟨hleft, error_of_not_acked hres hack⟩

theorem owing_checkRetry (h : Owing cfg c) (hb : c.batch = some b) (hn : w.number = b.number)
    (hp : w.payloads = b.payloads) (hrec : Recorded c u) (hlog : ∀ n, batchPayloads n u.log = batchPayloads n c.log)
    {failed : List (Payload × Value)} (hsome : ∀ x ∈ failed, x.1.isSome)
    (hcover : ∀ p, some p ∈ batchPayloads b.number c.log → b.stage.Owes cfg c.reqAttempts p.topicPart →
      Closed u b.number p.topicPart ∨
        (u.reqAttempts < cfg.maxAttempts ∧ ∃ q v, (some q, v) ∈ failed ∧ q.topicPart = p.topicPart)) :
    Owing cfg (checkRetryPayloads cfg u w failed) := by
  have hent := h.entered b hb
  unfold checkRetryPayloads
  split
  · next hle =>
    have hw := hent.of_eq (w := { w with stage := .running [] .none (.failEach failed) }) hn hp (hlog _) hsome
    refine h.next hb rfl hn ⟨hrec.log, hrec.lastResults, hrec.abandoned⟩ hlog hw fun p hmem hold => .inr ?_
    rcases hcover p hmem hold with hclosed | ⟨hleft, -⟩
    · refine Closed.mono ?_ hclosed
      exact ⟨fun _ => id, fun _ => id, fun _ => id⟩
    · exact absurd hle (Int.not_le.mpr hleft)
  · simp only [none_missing hsome, Bool.false_eq_true, if_false]
    have hw := hent.of_eq (w := { w with stage := .retrying (failed.map Prod.fst) }) hn hp (hlog _) trivial
    refine h.next hb rfl hn ⟨hrec.log, hrec.lastResults, hrec.abandoned⟩ hlog hw fun p hmem hold => ?_
    rcases hcover p hmem hold with hclosed | ⟨-, q, v, hq, htp⟩
    · refine .inr (Closed.mono ?_ hclosed)
      exact ⟨fun _ => id, fun _ => id, fun _ => id⟩
    · exact .inl ⟨q, List.mem_map.mpr ⟨_, hq, rfl⟩, htp⟩

theorem owing_result (h : Owing cfg c) (hb : c.batch = some b) {payloads : List Payload}
    (hstage : b.stage = .sent payloads) {r : ClientResult} (hr : resolvesAll b r) :
    Owing cfg (handleSendResponse cfg c b r) := by
  have hent := h.entered b hb
  have hrec : Recorded c (noteResult cfg c b r) := recorded_noteResult c b r
  have hlog : ∀ n, batchPayloads n (noteResult cfg c b r).log = batchPayloads n c.log := fun n =>
    batchPayloads_result n c.log b.number r
  have hsent : ∀ tp, b.stage.Owes cfg c.reqAttempts tp → ∃ q, some q ∈ payloads ∧ q.topicPart = tp := by
    intro tp hold
    rwa [hstage] at hold
  have hmem : Action.result b.number r ∈ (noteResult cfg c b r).log := by simp [noteResult]
  have hgo : ∀ ds v work, work.Sorted b.payloads →
      (∀ p, some p ∈ batchPayloads b.number c.log → b.stage.Owes cfg c.reqAttempts p.topicPart →
        work.Owes cfg c.reqAttempts p.topicPart ∨ Closed (noteResult cfg c b r) b.number p.topicPart) →
      Owing cfg (goOn (noteResult cfg c b r) { b with acked := b.acked ++ r.acks } ds v work) := by
    intro ds v work hs howes
    have hw := hent.of_eq (w := { b with acked := b.acked ++ r.acks, stage := .running ds v work }) rfl rfl (hlog _) hs
    refine h.next hb rfl rfl ⟨hrec.log, hrec.lastResults, hrec.abandoned⟩ hlog hw fun p hp hold => ?_
    refine (howes p hp hold).imp_right fun hclosed => Closed.mono ?_ hclosed
    exact ⟨fun _ => id, fun _ => id, fun _ => id⟩
  unfold handleSendResponse
  simp only
  split
  · exact hgo _ _ _ trivial fun p _ _ => .inr (.inr (.final _ hmem trivial))
  · exact hgo _ _ _ trivial fun p _ _ => .inr (.inr (.final _ hmem trivial))
  · next l hne =>
    refine hgo _ _ _ ⟨fun res hres he => Option.isSome_iff_exists.mp (hr.1 res hres he), by simp⟩ fun p _ hold => ?_
    obtain ⟨q, hq, htp⟩ := hsent _ hold
    obtain ⟨x, hx, hxq⟩ : ∃ x ∈ l, x.topicPart = q.topicPart := by
      have hall := hr.2
      cases l with
      | nil => exact absurd rfl hne
      | cons res l =>
        simp only [hstage] at hall
        exact hall q (List.mem_filterMap.mpr ⟨_, hq, rfl⟩)
    rw [← htp, ← hxq]
    exact (held_accounted (r := .responses l) hx).imp_left (And.imp_right fun herr => .inl ⟨x, hx, herr, rfl⟩)
  · next l failed =>
    refine hgo _ _ _ ⟨fun res hres he => Option.isSome_iff_exists.mp (hr.1 res hres he), ?_⟩ fun p _ hold => ?_
    · simp only [List.forall_mem_map, Option.isSome_some, implies_true]
    obtain ⟨q, hq, htp⟩ := hsent _ hold
    have hall := hr.2
    simp only [hstage] at hall
    rw [← htp]
    rcases hall q (List.mem_filterMap.mpr ⟨_, hq, rfl⟩) with ⟨x, hx, hxq⟩ | ⟨x, hx, hxq⟩
    · rw [← hxq]
      exact (held_accounted (r := .failedPayloads l failed) hx).imp_left
        (And.imp_right fun herr => .inl ⟨x, hx, herr, rfl⟩)
    · rw [← hxq]
      exact (closed_or_left (reports_of_failed hx)).symm.imp_left
        (And.imp_right fun _ => .inr ⟨x.1, .failure x.2, List.mem_map.mpr ⟨x, hx, rfl⟩, rfl⟩)
  · next e =>
    -- The batch's payloads are all retried.
    have hsome : ∀ x ∈ b.payloads.values.map fun p => (p, Value.failure e), x.1.isSome := by
      intro x hx
      obtain ⟨p, hp, rfl⟩ := List.mem_map.mp hx
      obtain ⟨tp, hget⟩ := (Dict.mem_values_iff _ _).mp hp
      obtain ⟨q, rfl, -⟩ := hent.payload tp p hget
      rfl
    have hcover : ∀ p, some p ∈ batchPayloads b.number c.log →
        ∃ q v, (some q, v) ∈ b.payloads.values.map (fun p => (p, Value.failure e)) ∧ q.topicPart = p.topicPart := by
      intro p hp
      obtain ⟨p', hget⟩ := Option.isSome_iff_exists.mp (hent.sent p hp)
      obtain ⟨q, rfl, hq⟩ := hent.payload _ _ hget
      exact ⟨q, .failure e, List.mem_map.mpr ⟨_, (Dict.mem_values_iff _ _).mpr ⟨_, hget⟩, rfl⟩, hq⟩
    split
    · split
      · next hnil =>
        refine hgo _ _ _ trivial fun p hp _ => ?_
        obtain ⟨q, v, hq, -⟩ := hcover p hp
        rw [hnil] at hq
        cases hq
      · refine owing_checkRetry (w := { b with acked := b.acked ++ (ClientResult.failure e).acks }) h hb rfl rfl hrec
          hlog hsome fun p hp _ => ?_
        exact (closed_or_left (r := .failure e) fun _ => trivial).imp_right (And.imp_right fun _ => hcover p hp)
    · next hkafka =>
      refine hgo _ _ _ trivial fun p _ _ => .inr (.inr (.final _ hmem ?_))
      simpa [ClientResult.Final] using hkafka

/-! ## The work of a batch -/

theorem recorded_send (c : Core) (b : Batch) (payloads : List Payload)
    (groups : List (TopicAndPartition × List SendRequest)) :
    Recorded c (sendProduceRequest { c with groups := groups } b payloads) :=
  ⟨List.subset_append_left _ _, fun _ => id, fun _ => id⟩

theorem owing_first (h : Owing cfg c) (hb : c.batch = some b) (hfresh : b.number ∉ sendNumbers c.log)
    (hidle : ∀ tp, ¬ b.stage.Owes cfg c.reqAttempts tp) (hn : w.number = b.number) {payloads : List Payload}
    {groups : List (TopicAndPartition × List SendRequest)}
    (hpayload : ∀ tp p, w.payloads.get? tp = some p → ∃ q, p = some q ∧ q.topicPart = tp)
    (hsent : ∀ p, some p ∈ payloads → (w.payloads.get? p.topicPart).isSome) :
    Owing cfg (sendProduceRequest { c with groups := groups } w payloads) where
  closed n p hp := by
    simp only [sendProduceRequest, hn, batchPayloads_send] at hp
    split at hp
    · rcases h.closed n p hp with ⟨b₀, hb₀, -, hold⟩ | hold
      · obtain rfl : b = b₀ := Option.some.inj (hb.symm.trans hb₀)
        exact absurd hold (hidle _)
      · exact .inr (hold.mono (recorded_send c w payloads groups))
    · split at hp
      · next heq => exact .inl ⟨_, rfl, hn.trans heq, p, hp, rfl⟩
      · cases hp
  entered b₀ hb₀ := by
    obtain rfl := Option.some.inj hb₀
    refine ⟨hpayload, fun p hp => hsent p ?_, trivial⟩
    simp only [sendProduceRequest, hn, batchPayloads_send, if_neg hfresh, if_pos] at hp
    exact hp

theorem batchPayloads_resend {n : Nat} {log : List Action} (h : n ∈ sendNumbers log) (payloads : List Payload)
    (m : Nat) : batchPayloads m (log ++ [.send n payloads]) = batchPayloads m log := by
  rw [batchPayloads_send]
  split
  · rfl
  · next hm =>
    have hne : n ≠ m := fun heq => hm (heq ▸ h)
    rw [if_neg hne, eq_comm, List.eq_nil_iff_forall_not_mem]
    exact fun p hp => hm (sent_of_mem hp)

theorem owing_retry (h : Owing cfg c) (hb : c.batch = some b) (hnum : b.number ∈ sendNumbers c.log)
    {payloads : List Payload} (hstage : b.stage = .retrying payloads) :
    Owing cfg (sendProduceRequest c b payloads) := by
  have hlog := batchPayloads_resend hnum payloads
  have hw := (h.entered b hb).of_eq (w := { b with stage := .sent payloads }) rfl rfl (hlog b.number) trivial
  refine h.next hb rfl rfl (recorded_send c b payloads c.groups) hlog hw fun p _ hold => .inl ?_
  rwa [hstage] at hold

theorem owing_sendGroups (h : Owing cfg c) (hb : c.batch = some b) (hfresh : b.number ∉ sendNumbers c.log) {v : Value}
    {groups : Dict TopicAndPartition (List SendRequest)} (hstage : b.stage = .running [] v (.route [] groups)) :
    Owing cfg (sendGroups cfg c b groups) := by
  have hidle : ∀ tp, ¬ b.stage.Owes cfg c.reqAttempts tp := by
    intro tp hold
    rwa [hstage] at hold
  have hdone : Owing cfg (goOn c b [] .none .complete) :=
    h.goTo hb (g := .running [] .none .complete) trivial fun tp hold => absurd hold (hidle tp)
  unfold sendGroups
  cases hbuild : buildPayloads cfg groups.entries with
  | error e => exact hdone
  | ok payloads =>
    cases payloads with
    | nil => exact hdone
    | cons p payloads =>
      refine owing_first h hb hfresh hidle (by rfl) (fun tp p' hp' => ?_) fun p' hp' => ?_
      · obtain ⟨q, -, rfl, htp⟩ := (get?_payloads hbuild tp p').mp hp'
        exact ⟨q, rfl, htp⟩
      · obtain ⟨q, hq, heq⟩ := List.mem_map.mp hp'
        obtain rfl := Option.some.inj heq
        exact Option.isSome_iff_exists.mpr ⟨some q, (get?_payloads hbuild _ _).mpr ⟨q, hq, rfl, rfl⟩⟩

theorem owing_work (h : Owing cfg c) (hb : c.batch = some b)
    (hfresh : ∀ v groups, b.stage = .running [] v (.route [] groups) → b.number ∉ sendNumbers c.log) {v : Value}
    {work : Work} (hstage : b.stage = .running [] v work) : Owing cfg (runWork cfg c b v work) := by
  have hent := h.entered b hb
  have hsorted := hent.sorted
  have hgo : ∀ ds v' work', work'.Sorted b.payloads →
      (∀ tp, work.Owes cfg c.reqAttempts tp → work'.Owes cfg c.reqAttempts tp) → Owing cfg (goOn c b ds v' work') := by
    intro ds v' work' hs howes
    refine h.goTo hb (g := .running ds v' work') hs fun tp hold => howes tp ?_
    rwa [hstage] at hold
  simp only [Batch.Sorted, hstage] at hsorted
  cases work with
  | route rest groups =>
    cases rest with
    | nil => exact owing_sendGroups h hb (hfresh v groups hstage) hstage
    | cons x rest =>
      obtain ⟨req, lookup⟩ := x
      have hrest := (List.forall_mem_cons.mp hsorted).2
      simp only [runWork]
      split
      · exact hgo _ _ _ hrest fun _ => id
      · split
        all_goals exact hgo _ _ _ hrest fun _ => id
  | responses rest failed =>
    obtain ⟨hknown, hsome⟩ := hsorted
    cases rest with
    | nil =>
      have hcover : ∀ tp, (Work.responses [] failed).Owes cfg c.reqAttempts tp →
          c.reqAttempts < cfg.maxAttempts ∧ ∃ q v, (some q, v) ∈ failed ∧ q.topicPart = tp := by
        rintro tp ⟨hleft, ⟨res, hres, -⟩ | hq⟩
        · cases hres
        · exact ⟨hleft, hq⟩
      simp only [runWork]
      split
      · next hnil =>
        refine hgo _ _ _ trivial fun tp hold => ?_
        obtain ⟨-, q, v, hq, -⟩ := hcover tp hold
        rw [hnil] at hq
        cases hq
      · refine owing_checkRetry h hb rfl rfl ⟨fun _ => id, fun _ => id, fun _ => id⟩ (fun _ => rfl) hsome
          fun p _ hold => .inr (hcover _ ?_)
        rwa [hstage] at hold
    | cons res rest =>
      rw [List.forall_mem_cons] at hknown
      simp only [runWork]
      split
      · next h0 =>
        refine hgo _ _ _ ⟨hknown.2, hsome⟩ fun tp hold => ⟨hold.1, hold.2.imp_left ?_⟩
        rintro ⟨x, hx, herr, htp⟩
        rcases List.mem_cons.mp hx with rfl | hx
        · exact absurd h0 herr
        · exact ⟨x, hx, herr, htp⟩
      · next he =>
        obtain ⟨p, hp⟩ := hknown.1 he
        obtain ⟨q, rfl, hq⟩ := hent.payload _ _ hp
        rw [hp]
        refine hgo _ _ _ ⟨hknown.2, fun x hx => ?_⟩ fun tp hold => ⟨hold.1, ?_⟩
        · rcases List.mem_append.mp hx with hx | hx
          · exact hsome x hx
          · simp [List.mem_singleton.mp hx]
        · rcases hold.2 with ⟨x, hx, herr, htp⟩ | ⟨q', v', hm, htp⟩
          · rcases List.mem_cons.mp hx with rfl | hx
            · exact .inr ⟨q, _, List.mem_append_right _ (List.mem_singleton_self _), hq.trans htp⟩
            · exact .inl ⟨x, hx, herr, htp⟩
          · exact .inr ⟨q', v', List.mem_append_left _ hm, htp⟩
  | failEach rest =>
    cases rest with
    | nil => exact hgo _ _ _ trivial fun _ => id
    | cons x rest =>
      obtain ⟨p, f⟩ := x
      have hrest := (List.forall_mem_cons.mp hsorted).2
      cases p with
      | none => exact hgo _ _ _ trivial fun _ => id
      | some p => exact hgo _ _ _ hrest fun _ => id
  | complete =>
    refine ⟨fun n p hp => .inr ?_, fun b₀ hb₀ => by simp [runWork] at hb₀⟩
    rcases h.closed n p hp with ⟨b₀, hb₀, -, hold⟩ | hold
    · obtain rfl : b = b₀ := Option.some.inj (hb.symm.trans hb₀)
      rw [hstage] at hold
      exact hold.elim
    · refine hold.mono ?_
      exact ⟨fun _ => id, fun _ => id, fun _ => id⟩

/-! ## The moves -/

theorem owing_move {c' : Core} {rounds : List Round} (hs : Serial c rounds) (h : Owing cfg c)
    (hm : Move cfg answering c c') : Owing cfg c' := by
  have hnum : ∀ b, c.batch = some b → b.stage.Numbered (sendNumbers c.log) b.number := fun b hb => (hs.current b hb).2.2
  cases hm with
  | enqueue req hd => exact h.same rfl rfl rfl rfl rfl
  | cancel d e reqs hf hsub hkeep => exact h.same rfl rfl rfl rfl rfl
  | start requests hb hreqs =>
    refine ⟨fun n p hp => .inr ?_, fun b hb' => ?_⟩
    · rcases h.closed n p hp with ⟨b, hb', -⟩ | hold
      · rw [hb] at hb'
        cases hb'
      · refine hold.mono ?_
        exact ⟨fun _ => id, fun _ => id, fun _ => id⟩
    · obtain rfl := Option.some.inj hb'
      refine ⟨by simp, fun p hp => ?_, trivial⟩
      exact absurd (hs.known _ (sent_of_mem hp)) (Nat.lt_irrefl _)
  | look b requests requests' attempts interval hb hstage hreqs =>
    have hw := (h.entered b hb).of_eq (w := { b with stage := .lookups requests' }) rfl rfl rfl trivial
    refine h.next hb rfl rfl ⟨fun _ => id, fun _ => id, fun _ => id⟩ (fun _ => rfl) hw fun p _ hold => ?_
    rw [hstage] at hold
    exact hold.elim
  | route b requests hb hstage hdone =>
    refine h.goTo hb (g := .running [] .none (.route requests .empty)) hdone fun tp hold => ?_
    rw [hstage] at hold
    exact hold.elim
  | skip b d ds v work hb hstage hf =>
    have hsorted := (h.entered b hb).sorted
    simp only [Batch.Sorted, hstage] at hsorted
    refine h.goTo hb (g := .running ds v work) hsorted fun tp hold => ?_
    rwa [hstage] at hold
  | deliver b d ds v work hb hstage hf =>
    have hsorted := (h.entered b hb).sorted
    simp only [Batch.Sorted, hstage] at hsorted
    have hgo : Owing cfg (goOn c b ds v work) := by
      refine h.goTo hb (g := .running ds v work) hsorted fun tp hold => ?_
      rwa [hstage] at hold
    exact hgo.same rfl rfl rfl rfl rfl
  | work b v work hb hstage hbuild =>
    refine owing_work h hb (fun v groups hroute => ?_) hstage
    have hold := hnum b hb
    rwa [hroute] at hold
  | result b payloads r hb hstage hr => exact owing_result h hb hstage hr
  | retry b payloads hb hstage =>
    refine owing_retry h hb ?_ hstage
    have hold := hnum b hb
    rwa [hstage] at hold
  | cancelRetry b payloads hb hstage =>
    have hw := (h.entered b hb).of_eq
      (w := { b with stage := .running b.allDeferreds (.failure .tidCancelled) .complete }) rfl rfl rfl trivial
    refine h.next hb rfl rfl ⟨fun _ => id, fun _ => id, List.subset_append_left _ _⟩ (fun _ => rfl) hw
      fun p _ _ => .inr (.inr (.cancelled ?_))
    simp [cancelRetry, goOn, Core.setStage]

end Afkak.Producer
