import Afkak.Producer.Moves

/-!
# Every request is resolved

An unfired `Deferred` is waiting for a batch or held by the batch in flight: by a lookup, a group, a
payload that is out, or a result that is being worked through. A batch that has ended holds none.
-/

open Lib

namespace Afkak.Producer

def Work.Holds (b : Batch) (d : Nat) : Work → Prop
  | .route rest groups =>
    (∃ x ∈ rest, x.1.deferred = d) ∨ ∃ tp, InGroup groups tp d
  | .responses rest failed =>
    ∃ tp, d ∈ b.deferredsOf tp ∧
      ((∃ res ∈ rest, res.topicPart = tp) ∨ ∃ p v, (some p, v) ∈ failed ∧ p.topicPart = tp)
  | .failEach rest => ∃ p v, (some p, v) ∈ rest ∧ d ∈ b.deferredsOf p.topicPart
  | .complete => False

def Batch.Holds (b : Batch) (d : Nat) : Prop :=
  match b.stage with
  | .lookups requests => ∃ x ∈ requests, x.1.deferred = d
  | .running ds _ work => d ∈ ds ∨ work.Holds b d
  | .sent payloads | .retrying payloads => ∃ p, some p ∈ payloads ∧ d ∈ b.deferredsOf p.topicPart

structure Batch.Formed (b : Batch) : Prop where
  payload : ∀ tp p, b.payloads.get? tp = some p → ∃ q, p = some q ∧ q.topicPart = tp
  deferred : ∀ tp d, d ∈ b.deferredsOf tp → ∃ p, b.payloads.get? tp = some p

def Work.Sorted (payloads : Dict TopicAndPartition Payload) : Work → Prop
  | .route rest _ => ∀ x ∈ rest, x.2.pending = false
  | .responses rest failed =>
    (∀ res ∈ rest, res.error ≠ 0 → ∃ p, payloads.get? res.topicPart = some p) ∧ ∀ x ∈ failed, x.1.isSome
  | .failEach rest => ∀ x ∈ rest, x.1.isSome
  | .complete => True

def Batch.Sorted (b : Batch) : Prop :=
  match b.stage with
  | .running _ _ work => work.Sorted b.payloads
  | _ => True

/-- The result is about every payload that was sent, and an error in it is to one of the batch's. -/
def resolvesAll (b : Batch) (r : ClientResult) : Prop :=
  (∀ res ∈ r.held, res.error ≠ 0 → (b.payloads.get? res.topicPart).isSome) ∧
  match b.stage, r with
  | .sent payloads, .responses (res :: l) =>
    ∀ p ∈ payloads.filterMap id, ∃ x ∈ res :: l, x.topicPart = p.topicPart
  | .sent payloads, .failedPayloads l failed =>
    ∀ p ∈ payloads.filterMap id, (∃ x ∈ l, x.topicPart = p.topicPart) ∨ ∃ x ∈ failed, x.1.topicPart = p.topicPart
  | _, _ => True

instance : ∀ (b : Batch) (r : ClientResult), Decidable (resolvesAll b r)
  | ⟨_, .sent _, _, _, _⟩, .responses (_ :: _) => inferInstanceAs (Decidable (_ ∧ _))
  | ⟨_, .sent _, _, _, _⟩, .failedPayloads _ _ => inferInstanceAs (Decidable (_ ∧ _))
  | ⟨_, .sent _, _, _, _⟩, .responses [] => inferInstanceAs (Decidable (_ ∧ True))
  | ⟨_, .sent _, _, _, _⟩, .none => inferInstanceAs (Decidable (_ ∧ True))
  | ⟨_, .sent _, _, _, _⟩, .failure _ => inferInstanceAs (Decidable (_ ∧ True))
  | ⟨_, .lookups _, _, _, _⟩, _ => inferInstanceAs (Decidable (_ ∧ True))
  | ⟨_, .running _ _ _, _, _, _⟩, _ => inferInstanceAs (Decidable (_ ∧ True))
  | ⟨_, .retrying _, _, _, _⟩, _ => inferInstanceAs (Decidable (_ ∧ True))

variable (cfg : Config)

/-- No result leaves a payload out, and building the payloads does not raise. -/
def resolving : Cond where
  result _ b r := resolvesAll b r
  build groups := (buildPayloads cfg groups.entries).isOk

instance (a : Int) (b : Batch) (r : ClientResult) : Decidable ((resolving cfg).result a b r) :=
  inferInstanceAs (Decidable (resolvesAll b r))

instance (groups : Dict TopicAndPartition (List SendRequest)) : Decidable ((resolving cfg).build groups) :=
  inferInstanceAs (Decidable (_ = true))

structure Resolved (c : Core) : Prop where
  held : ∀ d < c.nextD, ¬ Fired c d →
    (∃ req ∈ c.batchReqs, req.deferred = d) ∨ ∃ b, c.batch = some b ∧ b.Holds d
  formed : ∀ b, c.batch = some b → b.Formed ∧ b.Sorted

variable {cfg} {c : Core} {b : Batch}

theorem Resolved.next (h : Resolved c) (hb : c.batch = some b) {u : Core} {w : Batch} (hn : u.nextD = c.nextD)
    (hreqs : u.batchReqs = c.batchReqs) (hcalls : ∀ d, Fired c d → Fired u d) (hb' : u.batch = some w)
    (hformed : w.Formed ∧ w.Sorted) (hholds : ∀ d, ¬ Fired u d → b.Holds d → w.Holds d) : Resolved u where
  held d hd hf := by
    rw [hn] at hd
    rcases h.held d hd fun hfc => hf (hcalls d hfc) with hreq | ⟨b₀, hb₀, hold⟩
    · exact .inl (hreqs ▸ hreq)
    · rw [hb, Option.some.injEq] at hb₀
      subst hb₀
      exact .inr ⟨w, hb', hholds d hf hold⟩
  formed b₀ hb₀ := by
    rw [hb', Option.some.injEq] at hb₀
    exact hb₀ ▸ hformed

theorem Batch.Formed.of_eq {b' : Batch} (h : b.Formed) (hp : b'.payloads = b.payloads)
    (hd : b'.deferreds = b.deferreds) : b'.Formed where
  payload := by
    rw [hp]
    exact h.payload
  deferred tp d := by
    unfold Batch.deferredsOf
    rw [hp, hd]
    exact h.deferred tp d

theorem Batch.mem_allDeferreds {d : Nat} : d ∈ b.allDeferreds ↔ ∃ tp, d ∈ b.deferredsOf tp := by
  unfold Batch.allDeferreds Batch.deferredsOf
  constructor
  · intro h
    obtain ⟨l, hl, hd⟩ := List.mem_flatten.mp h
    obtain ⟨tp, hget⟩ := (Dict.mem_values_iff _ _).mp hl
    exact ⟨tp, by rwa [hget, Option.getD_some]⟩
  · rintro ⟨tp, hd⟩
    cases hget : b.deferreds.get? tp with
    | none => simp [hget] at hd
    | some l =>
      rw [hget, Option.getD_some] at hd
      exact List.mem_flatten.mpr ⟨l, (Dict.mem_values_iff _ _).mpr ⟨tp, hget⟩, hd⟩

theorem Batch.Holds.mem_all {d : Nat} {payloads : List Payload}
    (hstage : b.stage = .sent payloads ∨ b.stage = .retrying payloads) (h : b.Holds d) : d ∈ b.allDeferreds := by
  rcases hstage with hstage | hstage
  all_goals
    simp only [Batch.Holds, hstage] at h
    obtain ⟨p, -, hd⟩ := h
    exact Batch.mem_allDeferreds.mpr ⟨_, hd⟩

theorem none_missing {failed : List (Payload × Value)} (hsome : ∀ x ∈ failed, x.1.isSome) :
    (failed.any fun x => x.1.isNone && resetsMetadata x.2) = false := by
  rw [List.any_eq_false]
  intro x hx
  obtain ⟨p, hp⟩ := Option.isSome_iff_exists.mp (hsome x hx)
  simp [hp]

theorem resolved_checkRetry (h : Resolved c) (hb : c.batch = some b) {w : Batch} (hp : w.payloads = b.payloads)
    (hd : w.deferreds = b.deferreds) {u : Core} (hn : u.nextD = c.nextD) (hreqs : u.batchReqs = c.batchReqs)
    (hcalls : u.calls = c.calls) {failed : List (Payload × Value)} (hsome : ∀ x ∈ failed, x.1.isSome)
    (hcover : ∀ d, ¬ Fired c d → b.Holds d → ∃ p v, (some p, v) ∈ failed ∧ d ∈ b.deferredsOf p.topicPart) :
    Resolved (checkRetryPayloads cfg u w failed) := by
  have hformed : w.Formed := (h.formed b hb).1.of_eq hp hd
  have hfired : ∀ d, Fired c d ↔ Fired u d := by simp [Fired, hcalls]
  have hdef : ∀ tp, w.deferredsOf tp = b.deferredsOf tp := by simp [Batch.deferredsOf, hd]
  have hnone := none_missing hsome
  unfold checkRetryPayloads
  split
  · refine h.next (w := { w with stage := .running [] .none (.failEach failed) }) hb hn hreqs
      (fun d => (hfired d).mp) rfl ⟨hformed.of_eq rfl rfl, hsome⟩ fun d hf hold => ?_
    obtain ⟨p, v, hm, hmem⟩ := hcover d (fun hfc => hf ((hfired d).mp hfc)) hold
    exact .inr ⟨p, v, hm, hdef p.topicPart ▸ hmem⟩
  · simp only [hnone, Bool.false_eq_true, if_false]
    refine h.next (w := { w with stage := .retrying (failed.map Prod.fst) }) hb hn hreqs
      (fun d => (hfired d).mp) rfl ⟨hformed.of_eq rfl rfl, trivial⟩ fun d hf hold => ?_
    obtain ⟨p, v, hm, hmem⟩ := hcover d (fun hfc => hf ((hfired d).mp hfc)) hold
    exact ⟨p, List.mem_map.mpr ⟨_, hm, rfl⟩, hdef p.topicPart ▸ hmem⟩

theorem resolved_result (h : Resolved c) (hb : c.batch = some b) {payloads : List Payload}
    (hstage : b.stage = .sent payloads) {r : ClientResult} (hr : resolvesAll b r) :
    Resolved (handleSendResponse cfg c b r) := by
  obtain ⟨hformed, -⟩ := h.formed b hb
  have hall : ∀ v, Resolved
    (goOn (noteResult cfg c b r) { b with acked := b.acked ++ r.acks } b.allDeferreds v .complete) :=
    fun v => h.next (u := goOn (noteResult cfg c b r) { b with acked := b.acked ++ r.acks } b.allDeferreds v .complete)
      hb rfl rfl (fun _ => id) rfl ⟨hformed.of_eq rfl rfl, trivial⟩
      fun d _ hold => .inl (hold.mem_all (.inl hstage))
  have hloop : ∀ l failed, l = r.held → (∀ x ∈ failed, x.1.isSome) →
      (∀ p, some p ∈ payloads → (∃ x ∈ l, x.topicPart = p.topicPart) ∨
        ∃ q v, (some q, v) ∈ failed ∧ q.topicPart = p.topicPart) →
      Resolved (goOn (noteResult cfg c b r) { b with acked := b.acked ++ r.acks } [] .none (.responses l failed)) := by
    rintro l failed rfl hsome hcover
    refine h.next (u := goOn (noteResult cfg c b r) { b with acked := b.acked ++ r.acks } [] .none
      (.responses r.held failed)) hb rfl rfl (fun _ => id) rfl ⟨hformed.of_eq rfl rfl, ?_, hsome⟩ fun d _ hold => ?_
    · intro res hres he
      exact Option.isSome_iff_exists.mp (hr.1 res hres he)
    · simp only [Batch.Holds, hstage] at hold
      obtain ⟨p, hp, hd⟩ := hold
      exact .inr ⟨p.topicPart, hd, hcover p hp⟩
  unfold handleSendResponse
  simp only
  split
  · exact hall _
  · exact hall _
  · next l hne =>
    refine hloop l [] rfl (by simp) fun p hp => .inl ?_
    have := hr.2
    cases l with
    | nil => exact absurd rfl hne
    | cons res l =>
      simp only [hstage] at this
      exact this p (List.mem_filterMap.mpr ⟨_, hp, rfl⟩)
  · next l failed =>
    refine hloop l _ rfl (by simp only [List.forall_mem_map, Option.isSome_some, implies_true]) fun p hp => ?_
    have := hr.2
    simp only [hstage] at this
    refine (this p (List.mem_filterMap.mpr ⟨_, hp, rfl⟩)).imp_right ?_
    rintro ⟨x, hx, heq⟩
    exact ⟨x.1, .failure x.2, List.mem_map.mpr ⟨x, hx, rfl⟩, heq⟩
  · next e =>
    -- The failed payloads are all of the batch's.
    have hsome : ∀ x ∈ b.payloads.values.map fun p => (p, Value.failure e), x.1.isSome := by
      intro x hx
      obtain ⟨p, hp, rfl⟩ := List.mem_map.mp hx
      obtain ⟨⟨tp, p⟩, he, rfl⟩ := List.mem_map.mp hp
      obtain ⟨q, hq, -⟩ := hformed.payload tp p ((Dict.get?_eq_some_iff _ _ _).mpr he)
      simp [hq]
    have hcover : ∀ d, b.Holds d →
        ∃ p v, (some p, v) ∈ b.payloads.values.map (fun p => (p, Value.failure e)) ∧ d ∈ b.deferredsOf p.topicPart := by
      intro d hold
      simp only [Batch.Holds, hstage] at hold
      obtain ⟨p, -, hd⟩ := hold
      obtain ⟨p', hp'⟩ := hformed.deferred _ _ hd
      obtain ⟨q, rfl, hq⟩ := hformed.payload _ _ hp'
      refine ⟨q, .failure e, ?_, hq ▸ hd⟩
      exact List.mem_map.mpr ⟨some q, List.mem_map.mpr ⟨_, (Dict.get?_eq_some_iff _ _ _).mp hp', rfl⟩, rfl⟩
    split
    · split
      · next hnil =>
        refine h.next (u := goOn (noteResult cfg c b (.failure e))
          { b with acked := b.acked ++ (ClientResult.failure e).acks } [] .none .complete) hb rfl rfl (fun _ => id) rfl
          ⟨hformed.of_eq rfl rfl, trivial⟩ fun d _ hold => ?_
        obtain ⟨p, v, hm, -⟩ := hcover d hold
        rw [hnil] at hm
        cases hm
      · exact resolved_checkRetry (u := noteResult cfg c b (.failure e))
          (w := { b with acked := b.acked ++ (ClientResult.failure e).acks }) h hb rfl rfl rfl rfl rfl hsome
          fun d _ hold => hcover d hold
    · exact hall _

theorem resolved_sendGroups (h : Resolved c) (hb : c.batch = some b) {v : Value}
    {groups : Dict TopicAndPartition (List SendRequest)} (hstage : b.stage = .running [] v (.route [] groups))
    (hbuild : (buildPayloads cfg groups.entries).isOk) : Resolved (sendGroups cfg c b groups) := by
  obtain ⟨hformed, -⟩ := h.formed b hb
  obtain ⟨payloads, hpayloads⟩ : ∃ payloads, buildPayloads cfg groups.entries = .ok payloads := by
    cases hp : buildPayloads cfg groups.entries with
    | error e => simp [hp, Except.isOk, Except.toBool] at hbuild
    | ok payloads => exact ⟨payloads, rfl⟩
  have hkeys := buildPayloads_keys hpayloads
  -- What the batch holds is in a group, and so under one of the payloads.
  have hgroup : ∀ d, b.Holds d → ∃ tp, InGroup groups tp d := by
    intro d hold
    simpa [Batch.Holds, hstage, Work.Holds] using hold
  have hkey : ∀ tp reqs, groups.get? tp = some reqs → ∃ p ∈ payloads, p.topicPart = tp := by
    intro tp reqs hget
    have hmem : tp ∈ payloads.map (·.topicPart) := by
      rw [hkeys]
      exact List.mem_map_of_mem ((Dict.get?_eq_some_iff _ _ _).mp hget)
    exact List.mem_map.mp hmem
  unfold sendGroups
  rw [hpayloads]
  cases payloads with
  | nil =>
    refine h.next (u := goOn c b [] .none .complete) hb rfl rfl (fun _ => id) rfl
      ⟨hformed.of_eq rfl rfl, trivial⟩ fun d _ hold => ?_
    obtain ⟨tp, reqs, hget, -⟩ := hgroup d hold
    obtain ⟨p, hp, -⟩ := hkey tp reqs hget
    cases hp
  | cons p payloads =>
    refine h.next (u := sendProduceRequest { c with groups := c.groups ++ groups.entries }
      { b with
        payloads := Dict.empty.update ((p :: payloads).map fun p => (p.topicPart, some p))
        deferreds := groups.mapValues fun _ reqs => reqs.map (·.deferred) } ((p :: payloads).map some))
      hb rfl rfl (fun _ => id) rfl ⟨⟨?_, ?_⟩, trivial⟩ fun d _ hold => ?_
    · intro tp q hq
      obtain ⟨q', -, rfl, htp⟩ := (get?_payloads hpayloads tp q).mp hq
      exact ⟨q', rfl, htp⟩
    · intro tp d hd
      obtain ⟨reqs, hget, -⟩ := (mem_deferredsOf_groups rfl tp d).mp hd
      obtain ⟨q, hq, htp⟩ := hkey tp reqs hget
      exact ⟨some q, (get?_payloads hpayloads tp _).mpr ⟨q, hq, rfl, htp⟩⟩
    · obtain ⟨tp, reqs, hget, hreq⟩ := hgroup d hold
      obtain ⟨q, hq, rfl⟩ := hkey tp reqs hget
      exact ⟨q, List.mem_map_of_mem hq, (mem_deferredsOf_groups rfl q.topicPart d).mpr ⟨reqs, hget, hreq⟩⟩

theorem resolved_work (h : Resolved c) (hb : c.batch = some b) {v : Value} {work : Work}
    (hstage : b.stage = .running [] v work)
    (hbuild : ∀ groups, work = .route [] groups → (buildPayloads cfg groups.entries).isOk) :
    Resolved (runWork cfg c b v work) := by
  obtain ⟨hformed, hsorted⟩ := h.formed b hb
  -- Going on within the batch: its payloads may only have got an entry.
  have hgo : ∀ ds v' work', (Batch.Sorted { b with stage := .running ds v' work' }) →
      (∀ d, ¬ Fired c d → work.Holds b d → d ∈ ds ∨ work'.Holds b d) → Resolved (goOn c b ds v' work') := by
    intro ds v' work' hs hh
    refine h.next (u := goOn c b ds v' work') hb rfl rfl (fun _ => id) rfl ⟨hformed.of_eq rfl rfl, hs⟩
      fun d hf hold => ?_
    simp only [Batch.Holds, hstage, List.not_mem_nil, false_or] at hold
    exact hh d hf hold
  cases work with
  | route rest groups =>
    cases rest with
    | nil => exact resolved_sendGroups h hb hstage (hbuild groups rfl)
    | cons x rest =>
      obtain ⟨req, lookup⟩ := x
      simp only [Batch.Sorted, Work.Sorted, hstage, List.forall_mem_cons] at hsorted
      simp only [runWork]
      split
      · next hf =>
        refine hgo _ _ _ hsorted.2 fun d hnf hold => .inr ?_
        rcases hold with ⟨x, hx, rfl⟩ | hg
        · rcases List.mem_cons.mp hx with rfl | hx
          · exact absurd hf hnf
          · exact .inl ⟨x, hx, rfl⟩
        · exact .inr hg
      · split
        · refine hgo _ _ _ hsorted.2 fun d _ hold => ?_
          rcases hold with ⟨x, hx, rfl⟩ | hg
          · rcases List.mem_cons.mp hx with rfl | hx
            · exact .inl (by simp)
            · exact .inr (.inl ⟨x, hx, rfl⟩)
          · exact .inr (.inr hg)
        · next p =>
          refine hgo _ _ _ hsorted.2 fun d _ hold => .inr ?_
          rcases hold with ⟨x, hx, rfl⟩ | ⟨tp, hg⟩
          · rcases List.mem_cons.mp hx with rfl | hx
            · exact .inr ⟨_, inGroup_set.mpr (.inr ⟨rfl, rfl⟩)⟩
            · exact .inl ⟨x, hx, rfl⟩
          · exact .inr ⟨tp, inGroup_set.mpr (.inl hg)⟩
        · simp [Lookup.pending] at hsorted
        · simp [Lookup.pending] at hsorted
  | responses rest failed =>
    simp only [Batch.Sorted, Work.Sorted, hstage] at hsorted
    cases rest with
    | nil =>
      simp only [runWork]
      have hcover : ∀ d, b.Holds d → ∃ p v, (some p, v) ∈ failed ∧ d ∈ b.deferredsOf p.topicPart := by
        intro d hold
        simp only [Batch.Holds, hstage, List.not_mem_nil, false_or] at hold
        obtain ⟨tp, hd, ⟨res, hres, -⟩ | ⟨p, v, hm, rfl⟩⟩ := hold
        · cases hres
        · exact ⟨p, v, hm, hd⟩
      split
      · next hnil =>
        refine hgo _ _ _ trivial fun d hf hold => ?_
        obtain ⟨p, v, hm, -⟩ := hcover d (by simpa [Batch.Holds, hstage] using hold)
        simp [hnil] at hm
      · exact resolved_checkRetry h hb rfl rfl rfl rfl rfl hsorted.2 fun d _ hold => hcover d hold
    | cons res rest =>
      rw [List.forall_mem_cons] at hsorted
      simp only [runWork]
      split
      · refine hgo _ _ _ ⟨hsorted.1.2, hsorted.2⟩ fun d _ hold => ?_
        obtain ⟨tp, hd, ⟨x, hx, rfl⟩ | hfailed⟩ := hold
        · rcases List.mem_cons.mp hx with rfl | hx
          · exact .inl hd
          · exact .inr ⟨_, hd, .inl ⟨x, hx, rfl⟩⟩
        · exact .inr ⟨tp, hd, .inr hfailed⟩
      · next he =>
        obtain ⟨p, hp⟩ := hsorted.1.1 he
        obtain ⟨q, rfl, hq⟩ := hformed.payload _ _ hp
        rw [hp]
        refine hgo _ _ _ ⟨hsorted.1.2, ?_⟩ fun d _ hold => .inr ?_
        · intro x hx
          rcases List.mem_append.mp hx with hx | hx
          · exact hsorted.2 x hx
          · simp [List.mem_singleton.mp hx]
        · obtain ⟨tp, hd, ⟨x, hx, rfl⟩ | ⟨p', v', hm, heq⟩⟩ := hold
          · rcases List.mem_cons.mp hx with rfl | hx
            · exact ⟨_, hd, .inr ⟨q, _, List.mem_append_right _ (List.mem_singleton_self _), hq⟩⟩
            · exact ⟨_, hd, .inl ⟨x, hx, rfl⟩⟩
          · exact ⟨tp, hd, .inr ⟨p', v', List.mem_append_left _ hm, heq⟩⟩
  | failEach rest =>
    simp only [Batch.Sorted, Work.Sorted, hstage] at hsorted
    cases rest with
    | nil =>
      refine hgo _ _ _ trivial fun d _ hold => ?_
      obtain ⟨p, v, hm, -⟩ := hold
      cases hm
    | cons x rest =>
      obtain ⟨p, f⟩ := x
      rw [List.forall_mem_cons] at hsorted
      obtain ⟨q, rfl⟩ := Option.isSome_iff_exists.mp hsorted.1
      refine hgo _ _ _ hsorted.2 fun d _ hold => ?_
      obtain ⟨p', v', hm, hd⟩ := hold
      rcases List.mem_cons.mp hm with heq | hm
      · simp only [Prod.mk.injEq, Option.some.injEq] at heq
        exact .inl (heq.1 ▸ hd)
      · exact .inr ⟨p', v', hm, hd⟩
  | complete =>
    refine ⟨fun d hd hf => ?_, by simp [runWork]⟩
    rcases h.held d hd hf with hreq | ⟨b₀, hb₀, hold⟩
    · exact .inl hreq
    · rw [hb, Option.some.injEq] at hb₀
      subst hb₀
      simp [Batch.Holds, hstage, Work.Holds] at hold

theorem resolved_move {c' : Core} (h : Resolved c) (hm : Move cfg (resolving cfg) c c') : Resolved c' := by
  cases hm with
  | enqueue req hd =>
    refine ⟨fun d hlt hf => ?_, h.formed⟩
    simp only at hlt
    rcases Nat.lt_succ_iff_lt_or_eq.mp hlt with hlt | rfl
    · rcases h.held d hlt hf with ⟨r, hr, heq⟩ | hb
      · exact .inl ⟨r, List.mem_append_left _ hr, heq⟩
      · exact .inr hb
    · exact .inl ⟨req, by simp, hd⟩
  | cancel d e reqs hf hsub hkeep =>
    refine ⟨fun d' hlt hf' => ?_, h.formed⟩
    have hne : d' ≠ d := by
      rintro rfl
      exact hf' (by simp [Fired])
    rcases h.held d' hlt fun hfc => hf' (by simp only [Fired, List.map_append, List.mem_append]; exact .inl hfc)
      with ⟨r, hr, rfl⟩ | hb
    · exact .inl ⟨r, hkeep r hr hne, rfl⟩
    · exact .inr hb
  | start requests hb hreqs =>
    refine ⟨fun d hlt hf => .inr ⟨_, rfl, ?_⟩, fun b hb' => ?_⟩
    · rcases h.held d hlt hf with ⟨r, hr, rfl⟩ | ⟨b, hb', -⟩
      · rw [← hreqs] at hr
        obtain ⟨x, hx, rfl⟩ := List.mem_map.mp hr
        exact ⟨x, hx, rfl⟩
      · rw [hb] at hb'
        cases hb'
    · simp only [Option.some.injEq] at hb'
      subst hb'
      exact ⟨⟨by simp, by simp [Batch.deferredsOf]⟩, trivial⟩
  | look b requests requests' attempts interval hb hstage hreqs =>
    refine h.next (u := ({ c with reqAttempts := attempts, retryInterval := interval } : Core).setStage b
      (.lookups requests')) hb rfl rfl (fun _ => id) rfl ⟨(h.formed b hb).1.of_eq rfl rfl, trivial⟩
      fun d _ hold => ?_
    simp only [Batch.Holds, hstage] at hold
    obtain ⟨x, hx, rfl⟩ := hold
    have hmem : x.1 ∈ requests'.map Prod.fst := by
      rw [hreqs]
      exact List.mem_map_of_mem hx
    obtain ⟨y, hy, heq⟩ := List.mem_map.mp hmem
    exact ⟨y, hy, by rw [heq]⟩
  | route b requests hb hstage hdone =>
    refine h.next (u := goOn c b [] .none (.route requests .empty)) hb rfl rfl (fun _ => id) rfl
      ⟨(h.formed b hb).1.of_eq rfl rfl, hdone⟩ fun d _ hold => ?_
    simp only [Batch.Holds, hstage] at hold
    exact .inr (.inl hold)
  | skip b d ds v work hb hstage hf =>
    obtain ⟨hformed, hsorted⟩ := h.formed b hb
    refine h.next (u := goOn c b ds v work) hb rfl rfl (fun _ => id) rfl
      ⟨hformed.of_eq rfl rfl, by simpa only [Batch.Sorted, hstage] using hsorted⟩ fun d' hf' hold => ?_
    simp only [Batch.Holds, hstage, List.mem_cons, or_assoc] at hold
    rcases hold with rfl | hold
    · exact absurd hf hf'
    · exact hold
  | deliver b d ds v work hb hstage hf =>
    obtain ⟨hformed, hsorted⟩ := h.formed b hb
    refine h.next (u := { goOn c b ds v work with calls := c.calls ++ [(d, v)] }) hb rfl rfl
      (fun d' hd' => ?_) rfl ⟨hformed.of_eq rfl rfl, by simpa only [Batch.Sorted, hstage] using hsorted⟩
      fun d' hf' hold => ?_
    · simp only [Fired, List.map_append, List.mem_append]
      exact .inl hd'
    · simp only [Batch.Holds, hstage, List.mem_cons, or_assoc] at hold
      rcases hold with rfl | hold
      · exact absurd (by simp [Fired]) hf'
      · exact hold
  | work b v work hb hstage hbuild => exact resolved_work h hb hstage hbuild
  | result b payloads r hb hstage hr => exact resolved_result h hb hstage hr
  | retry b payloads hb hstage =>
    refine h.next (u := sendProduceRequest c b payloads) hb rfl rfl (fun _ => id) rfl
      ⟨(h.formed b hb).1.of_eq rfl rfl, trivial⟩ fun d _ hold => ?_
    simp only [Batch.Holds, hstage] at hold
    exact hold
  | cancelRetry b payloads hb hstage =>
    exact h.next (u := cancelRetry c b) hb rfl rfl (fun _ => id) rfl
      ⟨(h.formed b hb).1.of_eq rfl rfl, trivial⟩ fun d _ hold => .inl (hold.mem_all (.inr hstage))

/-- When no batch is in flight, what has not fired is waiting for the next one. -/
theorem unfired_waiting (cfg : Config) (looper : Bool) (es : List Event) (t : State)
    (hok : Machine.RunOk (step cfg) (resolving cfg).Meets (init cfg looper) es)
    (hrun : Machine.run (step cfg) (init cfg looper) es = some t) (hb : t.batch = none) :
    ∀ d < t.nextD, ¬ Fired t.toCore d → ∃ req ∈ t.batchReqs, req.deferred = d := by
  have hinv : Resolved t.toCore := core_invariant Resolved ⟨by simp, by simp⟩
    (fun _ _ h hm => resolved_move h hm) looper es t hok hrun
  intro d hd hf
  refine (hinv.held d hd hf).resolve_right ?_
  rintro ⟨b, hb', -⟩
  rw [hb] at hb'
  cases hb'

def pairConfig : Config where
  lib := hiCodec
  reqAcks := 1
  maxAttempts := 2
  initRetryInterval := 1 / 4
  codec := CODEC_NONE
  batchEveryN := 2
  batchEveryB := 0

def sendPair : List Event :=
  [.sendMessages "t" none [some [1]] [], .sendMessages "t" none [some [2]] [⟨0, .ok 0⟩, ⟨0, .ok 1⟩],
    .resume [], .resume [], .resume []]

def answer (r : ClientResult) (n : Nat) : List Event := .clientResult r :: List.replicate n (.resume [])

/-- The first partition is acknowledged, the second one is sent again. -/
def partialSuccess : List Event :=
  sendPair ++ answer (.responses [⟨"t", 0, 0, 5⟩, ⟨"t", 1, 6, -1⟩]) 5 ++ [.retryTimer]

theorem answered_pair_waiting : ∃ t,
    Machine.run (step pairConfig) (init pairConfig false)
      (sendPair ++ answer (.responses [⟨"t", 0, 0, 5⟩, ⟨"t", 1, 0, 8⟩]) 9) = some t ∧
      ∀ d < t.nextD, ¬ Fired t.toCore d → ∃ req ∈ t.batchReqs, req.deferred = d :=
  ⟨_, rfl, unfired_waiting pairConfig false (sendPair ++ answer (.responses [⟨"t", 0, 0, 5⟩, ⟨"t", 1, 0, 8⟩]) 9) _
    (by decide) rfl rfl⟩

/-- The second partition is missing in the result: its `Deferred` never fires. -/
theorem omitted_partition_stranded : ∃ t,
    Machine.run (step pairConfig) (init pairConfig false)
      (sendPair ++ answer (.responses [⟨"t", 0, 0, 5⟩]) 6) = some t ∧
      t.batch.isNone ∧ t.agenda.isEmpty ∧ 1 < t.nextD ∧ ¬ Fired t.toCore 1 ∧ t.batchReqs = [] := by
  refine ⟨_, rfl, ?_⟩
  refine ⟨rfl, rfl, ?_, ?_, rfl⟩
  · decide
  · decide

end Afkak.Producer
