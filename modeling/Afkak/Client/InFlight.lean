import Afkak.Client.Timeouts

/-!
# Requests in flight, step by step

A step of the client keeps the invariant, as long as no id is drawn twice within 2 ^ 31 draws: each request is told once
what came of it, and the broker clients never see two requests under one id.
-/

open Lib

namespace Afkak.Client

open BrokerClient (RequestState Outcome Fired Outstanding UniqueIds queuedBy getResponseCorrelationId)

namespace Requests

/-! ## One step -/

structure Follows (b b' : BrokerClient.State) : Prop where
  inv : BrokerClient.Inv b'
  nextD : b.nextD ≤ b'.nextD
  calls : ∀ x ∈ b.calls, x ∈ b'.calls
  answered : ∀ d response, (d, .success (some response)) ∈ b'.calls → (d, .success (some response)) ∈ b.calls ∨
    ∃ r, b.heap.get? d = some r ∧ getResponseCorrelationId response = .ok r.correlationId

theorem follows_of_effect {b b' : BrokerClient.State} {e : BrokerClient.Event} (h : BrokerClient.Effect b e b') :
    Follows b b' := by
  refine ⟨h.inv, h.later.nextD, fun x hx => ?_, fun d response hd => ?_⟩
  · obtain heq | ⟨d, out, heq, -⟩ := h.calls
    · exact heq ▸ hx
    · exact heq ▸ List.mem_append_left _ hx
  · obtain heq | ⟨d', out, heq, hfires⟩ := h.calls
    · exact .inl (heq ▸ hd)
    · rw [heq, List.mem_append, List.mem_singleton, Prod.mk.injEq] at hd
      obtain hd | ⟨rfl, rfl⟩ := hd
      · exact .inl hd
      · right
        cases hfires with
        | sentAtOnce _ hsends => rcases hsends with ⟨e, he⟩ | ⟨he, -⟩ <;> cases he
        | flushed _ _ hsends => rcases hsends with ⟨e, he⟩ | ⟨he, -⟩ <;> cases he
        | answered _ _ ho hid => exact ⟨_, ho.1, hid⟩

theorem Bears.settle {s : Requests} {i d : Nat} {cid : Int} (h : s.Bears i d cid) : (settle s).Bears i d cid := by
  obtain ⟨c, hc, hi, hd, hid⟩ := h
  exact ⟨_, List.mem_map_of_mem hc, by simpa using hi, by simpa using hd, by rwa [finish_number]⟩

theorem inv_settle {start : Int} {s : Requests} (hnumbered : Numbered start s)
    (hbrokers : ∀ b ∈ s.brokers, BrokerClient.Inv b)
    (hknown : ∀ c ∈ s.calls, ∃ b, s.brokers[c.broker]? = some b ∧ c.d < b.nextD)
    (hdistinct : (s.calls.map fun c => (c.broker, c.d)).Nodup)
    (htracks : ∀ c ∈ s.calls, ∀ b, s.brokers[c.broker]? = some b → Tracks (finish s.brokers c) b)
    (howned : ∀ (i : Nat) (b : BrokerClient.State), s.brokers[i]? = some b → ∀ o r, b.heap.get? o = some r →
      s.Bears i o r.correlationId)
    (hanswers : ∀ (i : Nat) (b : BrokerClient.State), s.brokers[i]? = some b → ∀ d response,
      (d, .success (some response)) ∈ b.calls →
        ∃ cid, getResponseCorrelationId response = .ok cid ∧ s.Bears i d cid) : Inv start (settle s) where
  numbered := ⟨hnumbered.next, hnumbered.drawn⟩
  brokers := hbrokers
  known c hc := by
    obtain ⟨c, hold, rfl⟩ := List.mem_map.mp hc
    rw [finish_broker, finish_d]
    exact hknown c hold
  distinct := by simpa [Requests.settle, Function.comp_def] using hdistinct
  tracks c hc b hb := by
    obtain ⟨c, hold, rfl⟩ := List.mem_map.mp hc
    rw [finish_broker] at hb
    exact htracks c hold b hb
  owned i b hb o r hr := (howned i b hb o r hr).settle
  answers i b hb d response hd := by
    obtain ⟨cid, hcid, hbears⟩ := hanswers i b hb d response hd
    exact ⟨cid, hcid, hbears.settle⟩

section SetBroker

variable {s : Requests} {i j : Nat} {b b' : BrokerClient.State}

theorem get_set (hget : s.brokers[i]? = some b) {x : BrokerClient.State}
    (hx : (s.brokers.set i b')[j]? = some x) : (j = i ∧ x = b') ∨ (j ≠ i ∧ s.brokers[j]? = some x) := by
  have hlen := (List.getElem?_eq_some_iff.mp hget).1
  rw [List.getElem?_set] at hx
  split at hx
  · next heq =>
    subst heq
    exact .inl ⟨rfl, (Option.some.inj hx).symm⟩
  · next hne => exact .inr ⟨fun heq => hne heq.symm, hx⟩

theorem get_set_self (hget : s.brokers[i]? = some b) : (s.brokers.set i b')[i]? = some b' :=
  List.getElem?_set_self (List.getElem?_eq_some_iff.mp hget).1

theorem known_set (hget : s.brokers[i]? = some b) (h : Follows b b') {c : Call}
    (hc : ∃ x, s.brokers[c.broker]? = some x ∧ c.d < x.nextD) :
    ∃ x, (s.brokers.set i b')[c.broker]? = some x ∧ c.d < x.nextD := by
  obtain ⟨x, hx, hd⟩ := hc
  by_cases heq : i = c.broker
  · subst heq
    obtain rfl := Option.some.inj (hget.symm.trans hx)
    exact ⟨b', get_set_self hget, hd.trans_le h.nextD⟩
  · exact ⟨x, by rwa [List.getElem?_set_ne heq], hd⟩

theorem tracks_set (hget : s.brokers[i]? = some b) (hbrokers : ∀ b ∈ s.brokers, BrokerClient.Inv b)
    (h : Follows b b') {c : Call} (hc : ∀ x, s.brokers[c.broker]? = some x → Tracks c x) {x : BrokerClient.State}
    (hx : (s.brokers.set i b')[c.broker]? = some x) : Tracks (finish (s.brokers.set i b') c) x := by
  rcases get_set hget hx with ⟨heq, rfl⟩ | ⟨-, hold⟩
  · exact (hc b (heq ▸ hget)).finish hx h.inv h.calls
  · exact (hc x hold).finish hx (hbrokers x (List.mem_of_getElem? hold)) fun _ hmem => hmem

theorem brokers_set (hbrokers : ∀ b ∈ s.brokers, BrokerClient.Inv b) (h : Follows b b') :
    ∀ x ∈ s.brokers.set i b', BrokerClient.Inv x := by
  intro x hx
  rcases List.mem_or_eq_of_mem_set hx with hx | rfl
  · exact hbrokers x hx
  · exact h.inv

theorem answers_set {start : Int} (hs : Inv start s) (hget : s.brokers[i]? = some b) (h : Follows b b')
    {x : BrokerClient.State} (hx : (s.brokers.set i b')[j]? = some x) {d : Nat} {response : Bytes}
    (hd : (d, .success (some response)) ∈ x.calls) :
    ∃ cid, getResponseCorrelationId response = .ok cid ∧ s.Bears j d cid := by
  rcases get_set hget hx with ⟨rfl, rfl⟩ | ⟨-, hold⟩
  · obtain hd | ⟨r, hr, hid⟩ := h.answered d response hd
    · exact hs.answers j b hget d response hd
    · exact ⟨_, hid, hs.owned j b hget d r hr⟩
  · exact hs.answers j x hold d response hd

theorem owned_set {start : Int} (hs : Inv start s) (hget : s.brokers[i]? = some b) (hkeeps : KeepsIds b b')
    {x : BrokerClient.State} (hx : (s.brokers.set i b')[j]? = some x) {o : Nat} {r : RequestState}
    (hr : x.heap.get? o = some r) : s.Bears j o r.correlationId := by
  rcases get_set hget hx with ⟨rfl, rfl⟩ | ⟨-, hold⟩
  · obtain ⟨r', hr', heq⟩ := hkeeps.ids o r hr
    exact heq ▸ hs.owned j b hget o r' hr'
  · exact hs.owned j x hold o r hr

theorem Inv.setBroker {start : Int} (hs : Inv start s) (hget : s.brokers[i]? = some b) (h : Follows b b')
    (hkeeps : KeepsIds b b') : Inv start (s.setBroker i b') :=
  inv_settle ⟨hs.numbered.next, hs.numbered.drawn⟩ (brokers_set hs.brokers h)
    (fun c hc => known_set hget h (hs.known c hc)) hs.distinct
    (fun c hc _ hx => tracks_set hget hs.brokers h (hs.tracks c hc) hx)
    (fun _ _ hx _ _ hr => owned_set hs hget hkeeps hx hr) (fun _ _ hx _ _ hd => answers_set hs hget h hx hd)

end SetBroker

section Step

variable {cfg : TimeoutConfig} {start : Int} {s : Requests}

theorem Inv.unheld (h : Inv start s) {i number : Nat} {b : BrokerClient.State} {id : Int}
    (hget : s.brokers[i]? = some b) (hid : s.ids[number]? = some id) (hunused : s.Unused i number)
    (hrecent : ∀ c ∈ s.calls, c.broker = i → s.Held c → number < c.number + 2 ^ 31 ∧ c.number < number + 2 ^ 31)
    {o : Nat} {r : RequestState} (hr : b.heap.get? o = some r)
    (hheld : o ∈ b.requests.values ∨ o ∈ queuedBy b.stack) : r.correlationId ≠ id := by
  rintro rfl
  obtain ⟨c, hc, rfl, rfl, hcid⟩ := h.owned i b hget o r hr
  have hheld : s.Held c := by
    unfold Held
    rw [hget]
    exact hheld
  obtain ⟨hlt, hgt⟩ := hrecent c hc rfl hheld
  exact hunused c hc ⟨rfl, h.numbered.inj hcid hid hgt hlt⟩

theorem Inv.newRequest (h : Inv start s) {i number : Nat} {b : BrokerClient.State} {id : Int}
    (hget : s.brokers[i]? = some b) (hid : s.ids[number]? = some id) (hunused : s.Unused i number)
    (hrecent : ∀ c ∈ s.calls, c.broker = i → s.Held c → number < c.number + 2 ^ 31 ∧ c.number < number + 2 ^ 31) :
    b.requests.get? id = none ∧ ∀ request expectResponse sendFails,
      UniqueIds b (.makeRequest id request expectResponse sendFails) := by
  have hb := h.brokers b (List.mem_of_getElem? hget)
  refine ⟨?_, fun _ _ _ => .inr fun o ho heq => ?_⟩
  · rw [Option.eq_none_iff_forall_ne_some]
    intro o ho
    obtain ⟨r, hr, hcid⟩ := hb.entry id o ho
    exact h.unheld hget hid hunused hrecent hr (.inl ((b.requests.mem_values_iff o).mpr ⟨id, ho⟩)) hcid
  · obtain ⟨r, hr, hcid⟩ := Option.map_eq_some_iff.mp heq
    exact h.unheld hget hid hunused hrecent hr (.inr ho) hcid

theorem Bears.append {i d : Nat} {cid : Int} (h : s.Bears i d cid) (c : Call) :
    ({ s with calls := s.calls ++ [c] } : Requests).Bears i d cid := by
  obtain ⟨c', hc', hrest⟩ := h
  exact ⟨c', List.mem_append_left _ hc', hrest⟩

theorem Inv.request (h : Inv start s) {i number : Nat} {b : BrokerClient.State} {id : Int}
    (hget : s.brokers[i]? = some b) (hid : s.ids[number]? = some id) (hunused : s.Unused i number)
    (hrecent : ∀ c ∈ s.calls, c.broker = i → s.Held c → number < c.number + 2 ^ 31 ∧ c.number < number + 2 ^ 31)
    (request : Bytes) (expectResponse : Bool) (minTimeout : Option Nat) (sendFails : Option Exc) :
    Inv start (makeRequestToBroker cfg s i b number id request expectResponse minTimeout sendFails) := by
  obtain ⟨hnew, hunique⟩ := h.newRequest hget hid hunused hrecent
  have hb := h.brokers b (List.mem_of_getElem? hget)
  have hfollows := follows_of_effect (BrokerClient.effect_makeRequest hb id request expectResponse sendFails
    (hunique request expectResponse sendFails))
  obtain ⟨hnext, hids⟩ := ids_makeRequest hnew request expectResponse sendFails
  unfold makeRequestToBroker
  rw [if_neg (by simp [hnew])]
  refine inv_settle ⟨h.numbered.next, h.numbered.drawn⟩ (brokers_set h.brokers hfollows) ?_ ?_ ?_ ?_ ?_
  · intro c hc
    rcases List.mem_append.mp hc with hc | hc
    · exact known_set hget hfollows (h.known c hc)
    · obtain rfl := List.mem_singleton.mp hc
      exact ⟨_, get_set_self hget, hnext ▸ Nat.lt_succ_self _⟩
  · -- Each `Deferred` of the broker client has a number below the new one.
    rw [List.map_append, List.nodup_append]
    refine ⟨h.distinct, by simp, ?_⟩
    rintro x hx y hy rfl
    obtain ⟨c, hc, heq⟩ := List.mem_map.mp hx
    obtain ⟨x, hx, hd⟩ := h.known c hc
    simp only [List.map_cons, List.map_nil, List.mem_singleton] at hy
    obtain ⟨hbroker, hcd⟩ := Prod.mk.inj (heq.trans hy)
    rw [hbroker, hget, Option.some.injEq] at hx
    subst hx
    omega
  · intro c hc x hx
    refine tracks_set hget h.brokers hfollows (fun y hy => ?_) hx
    rcases List.mem_append.mp hc with hc | hc
    · exact h.tracks c hc y hy
    · obtain rfl := List.mem_singleton.mp hc
      obtain rfl : b = y := Option.some.inj (hget.symm.trans hy)
      exact ⟨by simp [(hb.fresh b.nextD le_rfl).2], rfl, by simp, by simp⟩
  · intro j x hx o r hr
    rcases get_set hget hx with ⟨rfl, rfl⟩ | ⟨-, hold⟩
    · obtain ⟨rfl, hcid⟩ | ⟨r', hr', heq⟩ := hids o r hr
      · exact ⟨_, List.mem_append_right _ (List.mem_singleton_self _), rfl, rfl, hcid ▸ hid⟩
      · exact heq ▸ (h.owned j b hget o r' hr').append _
    · exact (h.owned j x hold o r hr).append _
  · intro j x hx d response hd
    obtain ⟨cid, hcid, hbears⟩ := answers_set h hget hfollows hx hd
    exact ⟨cid, hcid, hbears.append _⟩

theorem calls_cancel {b : BrokerClient.State} (hb : BrokerClient.Inv b) {d : Nat} (hd : d < b.nextD)
    (hf : ¬ Fired b d) : (BrokerClient.cancel b d).calls = b.calls ++ [(d, .failed .tidCancelled)] := by
  obtain ⟨r, ho⟩ := (hb.outstanding hd).mp hf
  unfold BrokerClient.cancel
  rw [if_neg hf, ho.1]
  simp only [ho.2.1, ho.1]
  unfold BrokerClient.cancelRequest
  split <;> rfl

theorem Bears.set {i d k : Nat} {cid : Int} (h : s.Bears i d cid) {c q : Call} (hk : s.calls[k]? = some c)
    (hbroker : q.broker = c.broker) (hd : q.d = c.d) (hnumber : q.number = c.number) :
    ({ s with calls := s.calls.set k q } : Requests).Bears i d cid := by
  obtain ⟨c', hc', hrest⟩ := h
  obtain ⟨m, hm⟩ := List.mem_iff_getElem?.mp hc'
  by_cases hkm : k = m
  · subst hkm
    obtain rfl := Option.some.inj (hk.symm.trans hm)
    refine ⟨q, List.mem_of_getElem? (i := k) (List.getElem?_set_self (List.getElem?_eq_some_iff.mp hk).1), ?_⟩
    rwa [hbroker, hd, hnumber]
  · exact ⟨c', List.mem_of_getElem? (i := m) (by rwa [List.getElem?_set_ne hkm]), hrest⟩

def expired (c : Call) : Call :=
  { c with timer := false, failure := true, result := some (.failed .requestTimedOut) }

theorem Inv.timeOut (h : Inv start s) {k : Nat} {c : Call} {b : BrokerClient.State} (hk : s.calls[k]? = some c)
    (hget : s.brokers[c.broker]? = some b) (htimer : c.timer = true) :
    Inv start (timeOut cfg s k c b) ∧ (timeOut cfg s k c b).calls[k]? = some (expired c) := by
  have hb := h.brokers b (List.mem_of_getElem? hget)
  have hc := List.mem_of_getElem? hk
  have htracks := h.tracks c hc b hget
  have hresult : c.result = none := by simpa [htracks.timer] using htimer
  have hd : c.d < b.nextD := by
    obtain ⟨x, hx, hd⟩ := h.known c hc
    obtain rfl := Option.some.inj (hget.symm.trans hx)
    exact hd
  have hcancel := calls_cancel hb hd (htracks.ended.mp hresult)
  have hfollows := follows_of_effect (BrokerClient.effect_cancel hb c.d)
  have hfired : (c.d, .failed .tidCancelled) ∈ (BrokerClient.cancel b c.d).calls := by simp [hcancel]
  have hfinish : finish (s.brokers.set c.broker (BrokerClient.cancel b c.d)) { c with timer := false, failure := true } =
      expired c :=
    finish_fired (c := { c with timer := false, failure := true }) (get_set_self hget) hfollows.inv hresult hfired
  refine ⟨inv_settle ⟨h.numbered.next, h.numbered.drawn⟩ (brokers_set h.brokers hfollows) ?_ ?_ ?_ ?_ ?_, ?_⟩
  · intro c' hc'
    rcases List.mem_or_eq_of_mem_set hc' with hc' | rfl
    · exact known_set hget hfollows (h.known c' hc')
    · exact known_set hget hfollows (h.known c hc)
  · have hmap : (s.calls.set k { c with timer := false, failure := true }).map (fun c => (c.broker, c.d)) =
        s.calls.map fun c => (c.broker, c.d) := by
      obtain ⟨hlen, hck⟩ := List.getElem?_eq_some_iff.mp hk
      have hlen' : k < (s.calls.map fun c => (c.broker, c.d)).length := by simpa using hlen
      have hself := List.set_getElem_self hlen'
      rwa [List.getElem_map, hck, ← List.map_set (f := fun c : Call => (c.broker, c.d))
        (a := { c with timer := false, failure := true })] at hself
    exact hmap ▸ h.distinct
  · intro c' hc' x hx
    rcases List.mem_or_eq_of_mem_set hc' with hc' | rfl
    · exact tracks_set hget h.brokers hfollows (h.tracks c' hc') hx
    · obtain rfl := Option.some.inj ((get_set_self hget).symm.trans hx)
      refine Eq.subst (motive := fun q => Tracks q _) hfinish.symm ⟨?_, rfl, fun _ => rfl, fun _ _ hno => by cases hno⟩
      simpa [Fired, expired] using ⟨_, hfired⟩
  · intro j x hx o r hr
    exact (owned_set h hget (keepsIds_cancel b c.d) hx hr).set hk rfl rfl rfl
  · intro j x hx d response hmem
    obtain ⟨cid, hcid, hbears⟩ := answers_set h hget hfollows hx hmem
    exact ⟨cid, hcid, hbears.set hk rfl rfl rfl⟩
  · simp only [Requests.timeOut, Requests.setBroker, settle, List.getElem?_map,
      List.getElem?_set_self (List.getElem?_eq_some_iff.mp hk).1, Option.map_some, hfinish]

theorem inv_init (start : Int) : Inv start (init start) where
  numbered := numbered_init start
  brokers := by simp [init]
  known := by simp [init]
  distinct := by simp [init]
  tracks := by simp [init]
  owned := by simp [init]
  answers := by simp [init]

theorem inv_advance (h : Inv start s) (n : Nat) : Inv start { s with
    seconds := s.seconds + n, brokers := s.brokers.map fun b => { b with seconds := b.seconds + n } } := by
  have hget {i : Nat} {x : BrokerClient.State}
      (hx : (s.brokers.map fun b => { b with seconds := b.seconds + n })[i]? = some x) :
      ∃ b, s.brokers[i]? = some b ∧ x = { b with seconds := b.seconds + n } := by
    rw [List.getElem?_map, Option.map_eq_some_iff] at hx
    obtain ⟨b, hb, heq⟩ := hx
    exact ⟨b, hb, heq.symm⟩
  refine ⟨⟨h.numbered.next, h.numbered.drawn⟩, ?_, ?_, h.distinct, ?_, ?_, ?_⟩
  · intro x hx
    obtain ⟨b, hb, rfl⟩ := List.mem_map.mp hx
    have hi := h.brokers b hb
    exact hi.congr ⟨rfl, rfl, rfl, rfl⟩ (fun _ ho => .inl ho) hi.closing
  · intro c hc
    obtain ⟨b, hb, hd⟩ := h.known c hc
    exact ⟨{ b with seconds := b.seconds + n }, by rw [List.getElem?_map, hb]; rfl, hd⟩
  · intro c hc x hx
    obtain ⟨b, hb, rfl⟩ := hget hx
    obtain ⟨hended, htimer, hfailure, htold⟩ := h.tracks c hc b hb
    exact ⟨hended, htimer, hfailure, htold⟩
  · intro i x hx o r hr
    obtain ⟨b, hb, rfl⟩ := hget hx
    exact h.owned i b hb o r hr
  · intro i x hx d response hd
    obtain ⟨b, hb, rfl⟩ := hget hx
    exact h.answers i b hb d response hd

theorem inv_create (h : Inv start s) :
    Inv start { s with brokers := s.brokers ++ [{ BrokerClient.init with seconds := s.seconds }] } := by
  have hnew : BrokerClient.Inv { BrokerClient.init with seconds := s.seconds } :=
    BrokerClient.inv_init.congr ⟨rfl, rfl, rfl, rfl⟩ (fun _ ho => .inl ho) BrokerClient.inv_init.closing
  have hold {i : Nat} {b : BrokerClient.State} (hb : s.brokers[i]? = some b) :
      (s.brokers ++ [{ BrokerClient.init with seconds := s.seconds }])[i]? = some b := by
    rwa [List.getElem?_append_left (List.getElem?_eq_some_iff.mp hb).1]
  have hget {i : Nat} {x : BrokerClient.State}
      (hx : (s.brokers ++ [{ BrokerClient.init with seconds := s.seconds }])[i]? = some x) :
      s.brokers[i]? = some x ∨ x = { BrokerClient.init with seconds := s.seconds } := by
    rw [List.getElem?_append] at hx
    split at hx
    · exact .inl hx
    · exact .inr (List.mem_singleton.mp (List.mem_of_getElem? hx))
  refine ⟨⟨h.numbered.next, h.numbered.drawn⟩, fun x hx => ?_, fun c hc => ?_, h.distinct, fun c hc x hx => ?_,
    fun i x hx o r hr => ?_, fun i x hx d response hd => ?_⟩
  · rcases List.mem_append.mp hx with hx | hx
    · exact h.brokers x hx
    · exact List.mem_singleton.mp hx ▸ hnew
  · obtain ⟨b, hb, hd⟩ := h.known c hc
    exact ⟨b, hold hb, hd⟩
  · obtain ⟨b, hb, -⟩ := h.known c hc
    obtain rfl := Option.some.inj ((hold hb).symm.trans hx)
    exact h.tracks c hc b hb
  · rcases hget hx with hx | rfl
    · exact h.owned i x hx o r hr
    · simp [BrokerClient.init] at hr
  · rcases hget hx with hx | rfl
    · exact h.answers i x hx d response hd
    · simp [BrokerClient.init] at hd

theorem inv_draw (h : Inv start s) : Inv start { s with
    correlationId := nextId s.correlationId, ids := s.ids ++ [nextId s.correlationId] } := by
  have hbears {i d : Nat} {cid : Int} (hb : s.Bears i d cid) : Bears { s with
      correlationId := nextId s.correlationId, ids := s.ids ++ [nextId s.correlationId] } i d cid := by
    obtain ⟨c, hc, hi, hd, hid⟩ := hb
    refine ⟨c, hc, hi, hd, ?_⟩
    rwa [List.getElem?_append_left (List.getElem?_eq_some_iff.mp hid).1]
  refine ⟨h.numbered.draw, h.brokers, h.known, h.distinct, h.tracks, fun i b hb o r hr => hbears (h.owned i b hb o r hr),
    fun i b hb d response hd => ?_⟩
  obtain ⟨cid, hcid, hold⟩ := h.answers i b hb d response hd
  exact ⟨cid, hcid, hbears hold⟩

theorem unique_of_allowed {b : BrokerClient.State} {e : BrokerClient.Event} (h : s.Allowed e) : UniqueIds b e := by
  cases e <;> trivial

theorem Inv.step {t : Requests} {e : Event} (h : Inv start s) (hr : s.Recent e) (hstep : step cfg s e = some t) :
    Inv start t := by
  cases e with
  | advance n =>
    simp only [Requests.step, Option.ite_none_right_eq_some, Option.some.injEq] at hstep
    exact hstep.2 ▸ inv_advance h n
  | create => exact Option.some.inj hstep ▸ inv_create h
  | draw => exact Option.some.inj hstep ▸ inv_draw h
  | request i number request expectResponse minTimeout sendFails =>
    simp only [Requests.step] at hstep
    split at hstep
    · next b id hget hid =>
      simp only [Option.ite_none_right_eq_some, Option.some.injEq] at hstep
      exact hstep.2 ▸ h.request hget hid hstep.1 hr request expectResponse minTimeout sendFails
    · cases hstep
  | broker i e =>
    simp only [Requests.step] at hstep
    split at hstep
    · next b hget =>
      simp only [Option.ite_none_right_eq_some, Option.map_eq_some_iff] at hstep
      obtain ⟨hallowed, b', hb', rfl⟩ := hstep
      have heffect := BrokerClient.step_effect (h.brokers b (List.mem_of_getElem? hget)) (unique_of_allowed hallowed) hb'
      refine h.setBroker hget (follows_of_effect heffect) (keepsIds_step hb' ?_)
      rintro cid request expectResponse sendFails rfl
      exact hallowed
    · cases hstep
  | timeout k =>
    simp only [Requests.step] at hstep
    split at hstep
    · next c hk =>
      split at hstep
      · next b hget =>
        simp only [Option.ite_none_right_eq_some, Option.some.injEq] at hstep
        obtain ⟨⟨-, htimer, -⟩, rfl⟩ := hstep
        exact (h.timeOut hk hget htimer).1
      · cases hstep
    · cases hstep
  | disconnect =>
    simp only [Requests.step] at hstep
    split at hstep
    · cases hstep
    · next i rest _ =>
      split at hstep
      · next b hget =>
        obtain rfl := Option.some.inj hstep
        have heffect := BrokerClient.step_effect (e := .disconnect) (h.brokers b (List.mem_of_getElem? hget)) trivial rfl
        have hrest : Inv start { s with disconnecting := rest } :=
          ⟨⟨h.numbered.next, h.numbered.drawn⟩, h.brokers, h.known, h.distinct, h.tracks, h.owned, h.answers⟩
        exact hrest.setBroker hget (follows_of_effect heffect) (keepsIds_step (e := .disconnect) rfl (by simp))
      · cases hstep

/-! ## Every run -/

structure Goes (c c' : Call) : Prop where
  broker : c'.broker = c.broker
  d : c'.d = c.d
  number : c'.number = c.number
  deadline : c'.deadline = c.deadline
  ended : c.result ≠ none → c' = c

theorem Goes.refl (c : Call) : Goes c c := ⟨rfl, rfl, rfl, rfl, fun _ => rfl⟩

theorem goes_finish (brokers : List BrokerClient.State) (c : Call) : Goes c (finish brokers c) := by
  refine ⟨finish_broker .., finish_d .., finish_number .., ?_, fun h => finish_ended h⟩
  unfold finish
  split <;> rfl

theorem goes_setBroker {i k : Nat} {b : BrokerClient.State} {c : Call} (hk : s.calls[k]? = some c) :
    ∃ c', (s.setBroker i b).calls[k]? = some c' ∧ Goes c c' := by
  refine ⟨finish (s.brokers.set i b) c, ?_, goes_finish ..⟩
  simp [Requests.setBroker, settle, hk]

theorem Inv.goes (h : Inv start s) {t : Requests} {e : Event} (hstep : Requests.step cfg s e = some t) {k : Nat}
    {c : Call} (hk : s.calls[k]? = some c) : ∃ c', t.calls[k]? = some c' ∧ Goes c c' := by
  cases e with
  | advance n =>
    simp only [Requests.step, Option.ite_none_right_eq_some, Option.some.injEq] at hstep
    exact hstep.2 ▸ ⟨c, hk, .refl c⟩
  | create => exact Option.some.inj hstep ▸ ⟨c, hk, .refl c⟩
  | draw => exact Option.some.inj hstep ▸ ⟨c, hk, .refl c⟩
  | request i number request expectResponse minTimeout sendFails =>
    simp only [Requests.step] at hstep
    split at hstep
    · next b id hget hid =>
      simp only [Option.ite_none_right_eq_some, Option.some.injEq] at hstep
      obtain ⟨-, rfl⟩ := hstep
      unfold makeRequestToBroker
      split
      · exact ⟨c, hk, .refl c⟩
      · refine goes_setBroker ?_
        rwa [List.getElem?_append_left (List.getElem?_eq_some_iff.mp hk).1]
    · cases hstep
  | broker i e =>
    simp only [Requests.step] at hstep
    split at hstep
    · simp only [Option.ite_none_right_eq_some, Option.map_eq_some_iff] at hstep
      obtain ⟨-, b', -, rfl⟩ := hstep
      exact goes_setBroker hk
    · cases hstep
  | timeout m =>
    simp only [Requests.step] at hstep
    split at hstep
    · next q hm =>
      split at hstep
      · next b hget =>
        simp only [Option.ite_none_right_eq_some, Option.some.injEq] at hstep
        obtain ⟨⟨-, htimer, -⟩, rfl⟩ := hstep
        by_cases hmk : m = k
        · subst hmk
          obtain rfl := Option.some.inj (hk.symm.trans hm)
          -- Only a call that waits has an active timeout.
          have hnone : c.result = none := by
            simpa [(h.tracks c (List.mem_of_getElem? hk) b hget).timer] using htimer
          exact ⟨expired c, (h.timeOut hk hget htimer).2, rfl, rfl, rfl, rfl, fun hno => absurd hnone hno⟩
        · exact goes_setBroker (by rwa [List.getElem?_set_ne hmk])
      · cases hstep
    · cases hstep
  | disconnect =>
    simp only [Requests.step] at hstep
    split at hstep
    · cases hstep
    · split at hstep
      · exact Option.some.inj hstep ▸ goes_setBroker hk
      · cases hstep

variable (cfg s) in
structure Sound : Prop where
  brokers : ∀ b ∈ s.brokers, BrokerClient.Sound b
  /-- The timeout is pending exactly as long as the `Deferred` is. -/
  waits : ∀ c ∈ s.calls, ∃ b, s.brokers[c.broker]? = some b ∧
    (c.result = none ↔ ¬ Fired b c.d) ∧ (c.timer = true ↔ ¬ Fired b c.d)
  /-- A response is told to the caller whose id it bears, and after the timeout none is. -/
  told : ∀ c ∈ s.calls, ∀ response, c.result = some (.success (some response)) →
    c.failure = false ∧ 4 ≤ response.length ∧ s.ids[c.number]? = some (Fmt.i.read (response.take 4))
  kept : ∀ e t, Requests.step cfg s e = some t → ∀ (k : Nat) (c : Call), s.calls[k]? = some c →
    ∃ c', t.calls[k]? = some c' ∧ Goes c c'
  accepted : ∀ i number request expectResponse minTimeout sendFails t,
    s.Recent (.request i number request expectResponse minTimeout sendFails) →
    Requests.step cfg s (.request i number request expectResponse minTimeout sendFails) = some t →
      ∃ c, t.calls[s.calls.length]? = some c ∧ c.broker = i ∧ c.number = number ∧
        c.deadline = s.seconds + max cfg.timeout (minTimeout.getD 0)
  /-- When its time has come, a call that waits can be ended, and it is told why. -/
  expires : s.Idle → ∀ (k : Nat) (c : Call), s.calls[k]? = some c → c.result = none → c.deadline ≤ s.seconds →
    ∃ t, Requests.step cfg s (.timeout k) = some t ∧ t.calls[k]? = some (expired c)

theorem Inv.told (h : Inv start s) {c : Call} (hc : c ∈ s.calls) {response : Bytes}
    (hresult : c.result = some (.success (some response))) :
    c.failure = false ∧ 4 ≤ response.length ∧ s.ids[c.number]? = some (Fmt.i.read (response.take 4)) := by
  obtain ⟨b, hb, -⟩ := h.known c hc
  have htracks := h.tracks c hc b hb
  have hfailure : c.failure = false := by
    by_contra hno
    have := htracks.failure (by simpa using hno)
    simp [hresult] at this
  obtain ⟨cid, hcid, c', hc', hbroker, hd, hid⟩ := h.answers c.broker b hb c.d response
    (htracks.told _ hresult hfailure)
  obtain rfl : c' = c := List.inj_on_of_nodup_map h.distinct hc' hc (Prod.ext hbroker hd)
  obtain ⟨hlen, rfl⟩ := BrokerClient.getResponseCorrelationId_ok response cid hcid
  exact ⟨hfailure, hlen, hid⟩

theorem Inv.accepted (h : Inv start s) {i number : Nat} {request : Bytes} {expectResponse : Bool}
    {minTimeout : Option Nat} {sendFails : Option Exc} {t : Requests}
    (hr : s.Recent (.request i number request expectResponse minTimeout sendFails))
    (hstep : Requests.step cfg s (.request i number request expectResponse minTimeout sendFails) = some t) :
    ∃ c, t.calls[s.calls.length]? = some c ∧ c.broker = i ∧ c.number = number ∧
      c.deadline = s.seconds + max cfg.timeout (minTimeout.getD 0) := by
  simp only [Requests.step] at hstep
  split at hstep
  · next b id hget hid =>
    simp only [Option.ite_none_right_eq_some, Option.some.injEq] at hstep
    obtain ⟨hunused, rfl⟩ := hstep
    obtain ⟨hnew, -⟩ := h.newRequest hget hid hunused hr
    unfold makeRequestToBroker
    rw [if_neg (by simp [hnew])]
    dsimp only
    obtain ⟨c, hc, hgoes⟩ := goes_setBroker (s := { s with calls := s.calls ++ [_] }) (i := i)
      (b := BrokerClient.makeRequest b id request expectResponse sendFails) (List.getElem?_concat_length ..)
    refine ⟨c, hc, hgoes.broker, hgoes.number, hgoes.deadline.trans ?_⟩
    cases minTimeout <;> simp
  · cases hstep

theorem Inv.expires (h : Inv start s) (hidle : s.Idle) {k : Nat} {c : Call} (hk : s.calls[k]? = some c)
    (hresult : c.result = none) (hdue : c.deadline ≤ s.seconds) :
    ∃ t, Requests.step cfg s (.timeout k) = some t ∧ t.calls[k]? = some (expired c) := by
  obtain ⟨b, hb, -⟩ := h.known c (List.mem_of_getElem? hk)
  have htimer : c.timer = true := by simp [(h.tracks c (List.mem_of_getElem? hk) b hb).timer, hresult]
  refine ⟨Requests.timeOut cfg s k c b, ?_, (h.timeOut hk hb htimer).2⟩
  simp only [Requests.step, hk, hb]
  rw [if_pos ⟨hidle, htimer, hdue⟩]

theorem sound_of_inv (h : Inv start s) : Sound cfg s where
  brokers b hb := BrokerClient.sound_of_inv (h.brokers b hb)
  waits c hc := by
    obtain ⟨b, hb, -⟩ := h.known c hc
    have htracks := h.tracks c hc b hb
    refine ⟨b, hb, htracks.ended, ?_⟩
    rw [htracks.timer, Option.isNone_iff_eq_none]
    exact htracks.ended
  told _ hc _ hresult := h.told hc hresult
  kept _ _ hstep _ _ hk := h.goes hstep hk
  accepted _ _ _ _ _ _ _ hr hstep := h.accepted hr hstep
  expires hidle _ _ hk hresult hdue := h.expires hidle hk hresult hdue

variable (cfg) in
/-- Over every interleaving of the requests with what happens to the broker clients. -/
theorem requests_sound (start : Int) (es : List Event)
    (hok : Machine.RunOk (Requests.step cfg) Recent (init start) es)
    (hrun : Machine.run (Requests.step cfg) (init start) es = some s) : Sound cfg s :=
  sound_of_inv (Machine.run_invariant (Requests.step cfg) Recent (Inv start) (fun _ _ _ h hr hstep => h.step hr hstep) es
    (init start) s (inv_init start) hok hrun)

end Step

/-- The first request is answered, and the second times out before its broker answers. -/
def answeredLate : List Event :=
  [.create, .draw, .draw, .request 0 0 [1] true none none, .request 0 1 [2] true (some 4) none,
    .broker 0 (.connectionMade 0), .broker 0 (.resume none), .broker 0 (.resume none), .broker 0 (.resume none),
    .broker 0 (.stringReceived 0 [0, 0, 0, 0, 9]), .advance 4, .timeout 1, .disconnect,
    .broker 0 (.stringReceived 0 [0, 0, 0, 1, 9])]

theorem answeredLate_sound :
    ∃ s, Machine.run (step ⟨3, true⟩) (init (2 ^ 31 - 1)) answeredLate = some s ∧
      s.calls.map (·.result) = [some (.success (some [0, 0, 0, 0, 9])), some (.failed .requestTimedOut)] ∧
      Sound ⟨3, true⟩ s :=
  ⟨_, rfl, by decide, requests_sound ⟨3, true⟩ (2 ^ 31 - 1) answeredLate (by decide) rfl⟩

end Requests

end Afkak.Client
