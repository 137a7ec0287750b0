import Afkak.Producer.Attempts
import Mathlib.Data.List.Count

/-!
# The attempts of a lookup (`_next_partition`)

All lookups of a batch count their loads with one counter, the one that the retries of the payloads are counted with.
So the limit is right for a request as long as its own loads are the only ones that have failed.
-/

open Lib

namespace Afkak.Producer

def batchLoads (l : Loads) (n : Nat) : Nat := l.countP fun x => x.1 = n

def requestLoads (l : Loads) (n d : Nat) : Nat := l.count (n, d)

def Lookup.hasFailed : Lookup → Bool
  | failed _ => true
  | loading | sleeping | found _ => false

/-- The request has not been cancelled and its lookup has not failed. -/
def Alive (c : Core) (x : SendRequest × Lookup) : Prop := ¬ Fired c x.1.deferred ∧ x.2.hasFailed = false

instance (c : Core) (x : SendRequest × Lookup) : Decidable (Alive c x) := inferInstanceAs (Decidable (_ ∧ _))

/-- The requests whose messages are in a payload of the batch or may yet be, while payloads may be sent. With each
there is whether its lookup waits to ask again. -/
def Batch.candidates (c : Core) (b : Batch) : List (Nat × Bool) :=
  match b.stage with
  | .lookups requests => (requests.filter fun x => Alive c x).map fun x => (x.1.deferred, decide (x.2 = .sleeping))
  | .running _ _ (.route rest groups) =>
    ((rest.filter fun x => Alive c x).map fun x => (x.1.deferred, false)) ++
      groups.values.flatten.map fun req => (req.deferred, false)
  | .running _ _ (.responses _ _) | .sent _ | .retrying _ => b.allDeferreds.map fun d => (d, false)
  | .running _ _ (.failEach _) | .running _ _ .complete => []

def Core.candidates (c : Core) : List (Nat × Bool) :=
  match c.batch with
  | none => []
  | some b => b.candidates c

variable (cfg : Config)

/-- The retries that a payload may have, after `attempts` attempts. The first send is one more, but no retry. -/
def retriesLeft (sent : Nat) (attempts : Int) : Int :=
  if sent = 0 then max 0 (cfg.maxAttempts - (attempts + 1)) else max 0 (cfg.maxAttempts - attempts)

structure Budgeted (c : Core) (l : Loads) : Prop where
  first : c.batch = none → ∀ a e, a.metadataError ≠ 0 → nextPartition cfg c.reqAttempts a ≠ .failed e
  again : ∀ b d, c.batch = some b → (d, true) ∈ b.candidates c → ∀ a e, a.metadataError ≠ 0 →
    (wake cfg c .sleeping (.slept a)).2 = .failed e → cfg.maxAttempts ≤ requestLoads l b.number d
  retries : ∀ b x, c.batch = some b → x ∈ b.candidates c →
    retriesLeft cfg (sendCount b.number c.log) (requestLoads l b.number x.1 + sendCount b.number c.log) ≤
      retriesLeft cfg (sendCount b.number c.log) c.reqAttempts

def UsedUp (own : Nat) (asleep : Bool) : Prop :=
  cfg.maxAttempts ≤ own ∨ (cfg.maxAttempts = own + 1 ∧ asleep = false)

instance (own : Nat) (asleep : Bool) : Decidable (UsedUp cfg own asleep) := inferInstanceAs (Decidable (_ ∨ _))

def Harmless (c : Core) (l m : Loads) : Prop :=
  ∀ x ∈ m, ∀ y ∈ c.candidates, y.1 ≠ x.2 → UsedUp cfg (requestLoads l x.1 y.1) y.2

def Undisturbed (x : State × Loads) (e : Event) : Prop := Harmless cfg x.1.toCore x.2 (loadsOf x.1 e)

instance (x : State × Loads) (e : Event) : Decidable (Undisturbed cfg x e) :=
  inferInstanceAs (Decidable (∀ _ ∈ _, ∀ _ ∈ _, _))

structure Tallied (c : Core) (l : Loads) : Prop where
  spent : Spent cfg c
  known : ∀ x ∈ l, x.1 < c.batches
  count : ∀ b, c.batch = some b → c.reqAttempts = batchLoads l b.number + sendCount b.number c.log

/-- A request has failed all the loads of its batch, or has nothing to lose. -/
def Fair (c : Core) (l : Loads) : Prop :=
  ∀ b x, c.batch = some b → x ∈ b.candidates c →
    batchLoads l b.number = requestLoads l b.number x.1 ∨ UsedUp cfg (requestLoads l b.number x.1) x.2

def Narrowed (l l' : List (Nat × Bool)) : Prop := ∀ x ∈ l', ∃ asleep, (x.1, asleep) ∈ l ∧ (x.2 = true → asleep = true)

variable {cfg} {c c' c₁ : Core} {b b' : Batch} {l m : Loads}

/-! ## Counting -/

theorem batchLoads_append (l m : Loads) (n : Nat) : batchLoads (l ++ m) n = batchLoads l n + batchLoads m n :=
  List.countP_append

theorem requestLoads_append (l m : Loads) (n d : Nat) :
    requestLoads (l ++ m) n d = requestLoads l n d + requestLoads m n d := List.count_append

theorem batchLoads_batch (ds : List Nat) (n : Nat) : batchLoads (ds.map (n, ·)) n = ds.length := by
  induction ds with
  | nil => rfl
  | cons d ds ih =>
    unfold batchLoads at ih ⊢
    simp [ih]

theorem requestLoads_batch (ds : List Nat) (n d : Nat) : requestLoads (ds.map (n, ·)) n d = ds.count d := by
  unfold requestLoads
  exact List.count_map_of_injective ds (n, ·) (fun _ _ h => (Prod.mk.inj h).2) d

theorem requestLoads_le (l : Loads) (n d : Nat) : requestLoads l n d ≤ batchLoads l n := by
  unfold requestLoads batchLoads List.count
  refine List.countP_mono_left fun x _ hx => ?_
  obtain rfl : x = (n, d) := by simpa using hx
  simp

theorem batchLoads_new (h : ∀ x ∈ l, x.1 < c.batches) : batchLoads l c.batches = 0 := by
  unfold batchLoads
  rw [List.countP_eq_zero]
  intro x hx
  have hlt := h x hx
  simp only [decide_eq_true_eq]
  omega

theorem tallied_charge (h : Tallied cfg c l) (hc : Charge cfg c m c') : Tallied cfg c' (l ++ m) := by
  have hspent := spent_charge h.spent hc
  cases hc with
  | same c' hc hbatch hinterval =>
    rw [List.append_nil]
    refine ⟨hspent, fun x hx => hc.batches ▸ h.known x hx, fun b hb => ?_⟩
    rw [hc.attempts, sendCount_same hc.sends]
    exact h.count b (hbatch ▸ hb)
  | start b c' hb hb' hn hstage hsends hbatches hattempts =>
    rw [List.append_nil]
    refine ⟨hspent, fun x hx => ?_, fun b₀ hb₀ => ?_⟩
    · have hlt := h.known x hx
      omega
    · rw [hb', Option.some.injEq] at hb₀
      subst hb₀
      rw [hattempts, (h.spent.idle hb).1, hn, batchLoads_new h.known, sendCount_same hsends,
        h.spent.known _ (Nat.le_refl _)]
      rfl
  | look b b' ds c' hb hb' hn hstage hstage' hsends hbatches hattempts =>
    refine ⟨hspent, fun x hx => ?_, fun b₀ hb₀ => ?_⟩
    · rw [hbatches]
      rcases List.mem_append.mp hx with hold | hnew
      · exact h.known x hold
      · obtain ⟨d, -, rfl⟩ := List.mem_map.mp hnew
        exact (h.spent.batch b hb).number
    · rw [hb', Option.some.injEq] at hb₀
      subst hb₀
      rw [hattempts, h.count b hb, hn, sendCount_same hsends, batchLoads_append, batchLoads_batch]
      omega
  | work b b' c' hb hb' hn hc hstage hretry =>
    rw [List.append_nil]
    refine ⟨hspent, fun x hx => hc.batches ▸ h.known x hx, fun b₀ hb₀ => ?_⟩
    rw [hb', Option.some.injEq] at hb₀
    subst hb₀
    rw [hc.attempts, hn, sendCount_same hc.sends]
    exact h.count b hb
  | send b b' payloads c' hb hb' hn hstage hstage' hsends hbatches hattempts =>
    rw [List.append_nil]
    refine ⟨hspent, fun x hx => hbatches ▸ h.known x hx, fun b₀ hb₀ => ?_⟩
    rw [hb', Option.some.injEq] at hb₀
    subst hb₀
    rw [hattempts, h.count b hb, hn, sendCount_send hsends, if_pos rfl]
    omega
  | done c' hb' hsends hbatches hattempts hinterval =>
    rw [List.append_nil]
    refine ⟨hspent, fun x hx => hbatches ▸ h.known x hx, fun b₀ hb₀ => ?_⟩
    rw [hb'] at hb₀
    cases hb₀

/-! ## What a wait that ends does to its lookup -/

theorem wake_lookup (cfg : Config) (c : Core) (lookup : Lookup) (w : Wake) :
    ((wake cfg c lookup w).2.hasFailed = false → lookup.hasFailed = false) ∧
      ((wake cfg c lookup w).2 = .sleeping → lookup = .sleeping ∨ failedLoad lookup w = 1) := by
  have hpick (a : Answer) : pick a ≠ .sleeping := by
    unfold pick
    split <;> simp
  have hnext (n : Int) (a : Answer) : nextPartition cfg n a ≠ .sleeping := by
    unfold nextPartition
    split
    · exact hpick a
    · split <;> simp
  cases lookup with
  | loading =>
    refine ⟨fun _ => rfl, fun h => .inr ?_⟩
    cases w with
    | loaded a =>
      by_cases ha : a.metadataError = 0
      · simp only [wake, if_pos ha] at h
        exact absurd h (hpick a)
      · exact if_neg ha
    | slept a => cases h
    | raised e => cases h
  | sleeping => exact ⟨fun _ => rfl, fun _ => .inl rfl⟩
  | found p => exact ⟨fun _ => rfl, fun h => by cases h⟩
  | failed e => exact ⟨id, fun h => by cases h⟩

/-- The lookup was among these: it had not failed if it has not now, and slept if it sleeps, or its load has failed. -/
def Comes (requests : List (SendRequest × Lookup)) (ds : List Nat) (x' : SendRequest × Lookup) : Prop :=
  ∃ x ∈ requests, x'.1 = x.1 ∧ (x'.2.hasFailed = false → x.2.hasFailed = false) ∧
    (x'.2 = .sleeping → x.2 = .sleeping ∨ x.1.deferred ∈ ds)

theorem comes_self {requests : List (SendRequest × Lookup)} {x : SendRequest × Lookup} (h : x ∈ requests)
    (ds : List Nat) : Comes requests ds x := ⟨x, h, rfl, id, .inl⟩

theorem comes_wake (c : Core) {requests : List (SendRequest × Lookup)} {req : SendRequest} {lookup : Lookup}
    (h : (req, lookup) ∈ requests) (w : Wake) {ds : List Nat}
    (hds : ∀ d ∈ List.replicate (failedLoad lookup w) req.deferred, d ∈ ds) :
    Comes requests ds (req, (wake cfg c lookup w).2) := by
  obtain ⟨halive, hsleep⟩ := wake_lookup cfg c lookup w
  refine ⟨(req, lookup), h, rfl, halive, fun hx => (hsleep hx).imp_right fun hone => hds _ ?_⟩
  rw [hone]
  exact List.mem_singleton_self _

theorem comes_wakeAll (c : Core) (requests : List (SendRequest × Lookup)) (wakes : List Wake) :
    ∀ x ∈ (wakeAll cfg c requests wakes).2, Comes requests (failedLoads requests wakes) x := by
  induction requests generalizing c wakes with
  | nil => simp [wakeAll]
  | cons y requests ih =>
    obtain ⟨req, lookup⟩ := y
    cases wakes with
    | nil => exact fun x hx => comes_self hx _
    | cons w wakes =>
      intro x hx
      rcases List.mem_cons.mp hx with rfl | hx
      · exact comes_wake c List.mem_cons_self w fun d hd => List.mem_append_left _ hd
      · obtain ⟨x₀, hmem, heq, halive, hsleep⟩ := ih _ wakes x hx
        exact ⟨x₀, List.mem_cons_of_mem _ hmem, heq, halive,
          fun h => (hsleep h).imp_right (List.mem_append_right _)⟩

theorem Woken.comes {requests requests' : List (SendRequest × Lookup)} {ds : List Nat}
    (h : Woken cfg c requests ds c₁ requests') : ∀ x ∈ requests', Comes requests ds x := by
  cases h with
  | one i req lookup w hget =>
    intro x hx
    rcases List.mem_or_eq_of_mem_set hx with hold | rfl
    · exact comes_self hold _
    · exact comes_wake c (List.mem_of_getElem? hget) w fun _ => id
  | all wakes => exact comes_wakeAll c requests wakes

/-! ## Who may still be sent -/

theorem candidates_some (hb : c.batch = some b) : c.candidates = b.candidates c := by
  unfold Core.candidates
  rw [hb]

theorem narrowed_refl (l : List (Nat × Bool)) : Narrowed l l := fun x hx => ⟨x.2, hx, id⟩

theorem narrowed_of_subset {l l' : List (Nat × Bool)} (h : ∀ x ∈ l', x ∈ l) : Narrowed l l' :=
  fun x hx => ⟨x.2, h x hx, id⟩

theorem alive_mono (h : ∀ d, Fired c d → Fired c' d) {x : SendRequest × Lookup} (hx : Alive c' x) : Alive c x :=
  ⟨fun hf => hx.1 (h _ hf), hx.2⟩

theorem filter_mono (h : ∀ d, Fired c d → Fired c' d) (l : List (SendRequest × Lookup)) :
    ∀ x ∈ l.filter fun x => Alive c' x, x ∈ l.filter fun x => Alive c x := by
  intro x hx
  obtain ⟨hmem, halive⟩ := List.mem_filter.mp hx
  exact List.mem_filter.mpr ⟨hmem, decide_eq_true (alive_mono h (of_decide_eq_true halive))⟩

theorem candidates_mono (h : ∀ d, Fired c d → Fired c' d) (b : Batch) : ∀ x ∈ b.candidates c', x ∈ b.candidates c := by
  unfold Batch.candidates
  intro x hx
  split at hx
  · exact List.map_subset _ (filter_mono h _) hx
  · refine List.mem_append.mpr ((List.mem_append.mp hx).imp_left fun hx => ?_)
    exact List.map_subset _ (filter_mono h _) hx
  all_goals exact hx

theorem Narrowed.mono {l₁ : List (Nat × Bool)} (h : ∀ d, Fired c d → Fired c' d) (hn : Narrowed l₁ (b.candidates c)) :
    Narrowed l₁ (b.candidates c') := fun x hx => hn x (candidates_mono h b x hx)

theorem mem_values_set {groups : Dict TopicAndPartition (List SendRequest)} {tp : TopicAndPartition}
    {req r : SendRequest} (h : r ∈ (groups.set tp ((groups.get? tp).getD [] ++ [req])).values.flatten) :
    r ∈ groups.values.flatten ∨ r = req := by
  obtain ⟨reqs, hreqs, hr⟩ := List.mem_flatten.mp h
  obtain ⟨k, hk⟩ := (Dict.mem_values_iff _ _).mp hreqs
  rw [Dict.get?_set] at hk
  split at hk
  · obtain rfl := Option.some.inj hk
    refine (List.mem_append.mp hr).imp (fun hr => ?_) List.mem_singleton.mp
    cases hget : groups.get? tp with
    | none => simp [hget] at hr
    | some old =>
      rw [hget] at hr
      exact List.mem_flatten.mpr ⟨old, (Dict.mem_values_iff _ _).mpr ⟨tp, hget⟩, hr⟩
  · exact .inl (List.mem_flatten.mpr ⟨reqs, (Dict.mem_values_iff _ _).mpr ⟨k, hk⟩, hr⟩)

theorem narrowed_round {v v' : Value} {req : SendRequest} {lookup : Lookup} {rest : List (SendRequest × Lookup)}
    {groups groups' : Dict TopicAndPartition (List SendRequest)} {ds : List Nat}
    (hstage : b.stage = .running [] v (.route ((req, lookup) :: rest) groups))
    (hgroups : ∀ r ∈ groups'.values.flatten, r ∈ groups.values.flatten ∨ (r = req ∧ Alive c (req, lookup))) :
    Narrowed (b.candidates c) (({ b with stage := .running ds v' (.route rest groups') } : Batch).candidates c) := by
  refine narrowed_of_subset fun x hx => ?_
  unfold Batch.candidates at hx ⊢
  rw [hstage]
  simp only at hx ⊢
  rcases List.mem_append.mp hx with hx | hx
  · obtain ⟨y, hy, rfl⟩ := List.mem_map.mp hx
    obtain ⟨hmem, halive⟩ := List.mem_filter.mp hy
    exact List.mem_append_left _ (List.mem_map_of_mem (List.mem_filter.mpr ⟨List.mem_cons_of_mem _ hmem, halive⟩))
  · obtain ⟨r, hr, rfl⟩ := List.mem_map.mp hx
    rcases hgroups r hr with hold | ⟨rfl, halive⟩
    · exact List.mem_append_right _ (List.mem_map_of_mem hold)
    · refine List.mem_append_left _ (List.mem_map.mpr ⟨(r, lookup), ?_, rfl⟩)
      exact List.mem_filter.mpr ⟨List.mem_cons_self, decide_eq_true halive⟩

theorem narrowed_nil (l : List (Nat × Bool)) : Narrowed l [] := fun _ hx => absurd hx List.not_mem_nil

theorem narrowed_onward (hon : Onward c c₁ b) (hcand : b.candidates c = b.allDeferreds.map fun d => (d, false))
    (hb' : c₁.batch = some b') (c' : Core) : Narrowed (b.candidates c) (b'.candidates c') := by
  have hall : b'.allDeferreds = b.allDeferreds := by
    unfold Batch.allDeferreds
    rw [(hon.deferreds b' hb').1]
  have hlater : b'.stage.Later := by
    rcases hon.batch with ⟨hnone, -⟩ | ⟨b'', hb'', -, hl⟩
    · rw [hnone] at hb'
      cases hb'
    · rw [hb'', Option.some.injEq] at hb'
      exact hb' ▸ hl
  rw [hcand, ← hall]
  unfold Stage.Later at hlater
  unfold Batch.candidates
  split at hlater <;> rename_i hstage
  · rw [hstage]
    exact narrowed_refl _
  · rw [hstage]
    exact narrowed_nil _
  · rw [hstage]
    exact narrowed_nil _
  · rw [hstage]
    exact narrowed_refl _
  · exact hlater.elim
  · exact hlater.elim
  · exact hlater.elim

theorem narrowed_send {v : Value} {groups : Dict TopicAndPartition (List SendRequest)}
    (hstage : b.stage = .running [] v (.route [] groups)) {payloads : List Payload} (hsent : b'.stage = .sent payloads)
    (hn : b'.deferreds = groups.mapValues fun _ reqs => reqs.map (·.deferred)) :
    Narrowed (b.candidates c) (b'.candidates c₁) := by
  refine narrowed_of_subset fun x hx => ?_
  unfold Batch.candidates at hx ⊢
  rw [hsent] at hx
  rw [hstage]
  obtain ⟨d, hd, rfl⟩ := List.mem_map.mp hx
  obtain ⟨tp, htp⟩ := Batch.mem_allDeferreds.mp hd
  obtain ⟨reqs, hget, req, hreq, rfl⟩ := (mem_deferredsOf_groups hn tp d).mp htp
  refine List.mem_append_right _ (List.mem_map.mpr ⟨req, ?_, rfl⟩)
  exact List.mem_flatten.mpr ⟨reqs, (Dict.mem_values_iff _ _).mpr ⟨tp, hget⟩, hreq⟩

theorem narrowed_runWork {v : Value} {work : Work} (hstage : b.stage = .running [] v work)
    (hb' : (runWork cfg c b v work).batch = some b') : Narrowed (b.candidates c) (b'.candidates c) := by
  cases work with
  | route rest groups =>
    cases rest with
    | nil =>
      simp only [runWork] at hb'
      unfold sendGroups at hb'
      split at hb'
      · obtain rfl := Option.some.inj hb'
        exact narrowed_nil _
      · obtain rfl := Option.some.inj hb'
        exact narrowed_nil _
      · obtain rfl := Option.some.inj hb'
        exact narrowed_send hstage rfl rfl
    | cons x rest =>
      obtain ⟨req, lookup⟩ := x
      simp only [runWork] at hb'
      split at hb'
      · obtain rfl := Option.some.inj hb'
        exact narrowed_round hstage fun _ => .inl
      · next hf =>
        split at hb'
        · obtain rfl := Option.some.inj hb'
          exact narrowed_round hstage fun _ => .inl
        · next p =>
          obtain rfl := Option.some.inj hb'
          refine narrowed_round hstage fun r hr => ?_
          exact (mem_values_set hr).imp_right fun heq => ⟨heq, hf, rfl⟩
        · obtain rfl := Option.some.inj hb'
          exact narrowed_round hstage fun _ => .inl
        · obtain rfl := Option.some.inj hb'
          exact narrowed_round hstage fun _ => .inl
  | responses rest failed =>
    refine narrowed_onward (onward_runWork hstage trivial) ?_ hb' c
    unfold Batch.candidates
    rw [hstage]
  | failEach rest =>
    cases rest with
    | nil =>
      obtain rfl := Option.some.inj hb'
      exact narrowed_nil _
    | cons x rest =>
      obtain ⟨p, f⟩ := x
      cases p with
      | none =>
        obtain rfl := Option.some.inj hb'
        exact narrowed_nil _
      | some p =>
        obtain rfl := Option.some.inj hb'
        exact narrowed_nil _
  | complete => cases hb'

theorem narrowed_running {d : Nat} {ds : List Nat} {v : Value} {work : Work}
    (hstage : b.stage = .running (d :: ds) v work) :
    Narrowed (b.candidates c) (({ b with stage := .running ds v work } : Batch).candidates c) := by
  unfold Batch.candidates
  rw [hstage]
  cases work <;> exact narrowed_refl _

/-! ## The invariant -/

theorem Fair.next (h : Fair cfg c l) (hb : c.batch = some b) (hb' : c'.batch = some b') (hn : b'.number = b.number)
    (hnarrow : Narrowed (b.candidates c) (b'.candidates c')) : Fair cfg c' l := by
  intro b₀ x hb₀ hx
  rw [hb', Option.some.injEq] at hb₀
  subst hb₀
  obtain ⟨asleep, hmem, hsleep⟩ := hnarrow x hx
  rw [hn]
  refine (h b _ hb hmem).imp_right fun hused => hused.imp_right fun hlast => ⟨hlast.1, ?_⟩
  have hawake : asleep = false := hlast.2
  cases hx₂ : x.2 with
  | false => rfl
  | true =>
    rw [hsleep hx₂] at hawake
    cases hawake

theorem fair_none (hb : c.batch = none) (l : Loads) : Fair cfg c l := by
  intro b x hb'
  rw [hb] at hb'
  cases hb'

theorem Fair.fires (h : Fair cfg c l) (hb : c'.batch = c.batch) (hf : ∀ d, Fired c d → Fired c' d) : Fair cfg c' l :=
  fun b x hb' hx => h b x (hb ▸ hb') (candidates_mono hf b x hx)

theorem fired_of_calls {added : List (Nat × Value)} (h : c'.calls = c.calls ++ added) (d : Nat) (hd : Fired c d) :
    Fired c' d := by
  unfold Fired at hd ⊢
  rw [h, List.map_append]
  exact List.mem_append_left _ hd

theorem candidates_setLookups {requests : List (SendRequest × Lookup)}
    (hb' : (setLookups c b requests).batch = some b') :
    b'.number = b.number ∧ ∀ x ∈ b'.candidates (setLookups c b requests), ∃ y ∈ requests,
      Alive (setLookups c b requests) y ∧ x.1 = y.1.deferred ∧ (x.2 = true → y.2 = .sleeping) := by
  have hmem {c₂ : Core} {f : SendRequest × Lookup → Bool} (hf : ∀ y, f y = true → y.2 = .sleeping) {x : Nat × Bool}
      (hx : x ∈ (requests.filter fun y => Alive c₂ y).map fun y => (y.1.deferred, f y)) :
      ∃ y ∈ requests, Alive c₂ y ∧ x.1 = y.1.deferred ∧ (x.2 = true → y.2 = .sleeping) := by
    obtain ⟨y, hy, rfl⟩ := List.mem_map.mp hx
    obtain ⟨hmem, halive⟩ := List.mem_filter.mp hy
    exact ⟨y, hmem, of_decide_eq_true halive, rfl, hf y⟩
  generalize hc : setLookups c b requests = c₂ at hb' ⊢
  unfold setLookups at hc
  split at hc
  · subst hc
    obtain rfl := Option.some.inj hb'
    exact ⟨rfl, fun x hx => hmem (fun y => of_decide_eq_true) hx⟩
  · subst hc
    obtain rfl := Option.some.inj hb'
    refine ⟨rfl, fun x hx => hmem (f := fun _ => false) (fun y hy => absurd hy Bool.false_ne_true) ?_⟩
    rcases List.mem_append.mp hx with hx | hx
    · exact hx
    · cases hx

theorem UsedUp.add {own : Nat} {asleep asleep' : Bool} (h : UsedUp cfg own asleep) {k : Nat}
    (hsleep : asleep' = true → asleep = true ∨ 0 < k) : UsedUp cfg (own + k) asleep' := by
  rcases h with hle | ⟨hone, hawake⟩
  · exact .inl (by omega)
  · by_cases hk : 0 < k
    · exact .inl (by omega)
    · refine .inr ⟨by omega, ?_⟩
      cases hasleep' : asleep' with
      | false => rfl
      | true =>
        rw [(hsleep hasleep').resolve_right hk] at hawake
        cases hawake

theorem fair_look (h : Fair cfg c l) (hb : c.batch = some b) {requests requests' : List (SendRequest × Lookup)}
    {ds : List Nat} (hstage : b.stage = .lookups requests) (hwoken : Woken cfg c requests ds c₁ requests')
    (hm : Harmless cfg c l (ds.map (b.number, ·))) :
    Fair cfg (setLookups c₁ b requests') (l ++ ds.map (b.number, ·)) := by
  intro b' x hb' hx
  obtain ⟨hn, hfrom⟩ := candidates_setLookups hb'
  obtain ⟨y, hy, halive, hxd, hsleep⟩ := hfrom x hx
  obtain ⟨z, hz, hyz, hzalive, hzsleep⟩ := hwoken.comes y hy
  have hd : x.1 = z.1.deferred := hxd.trans (by rw [hyz])
  have hfired (d : Nat) (hd : Fired c d) : Fired (setLookups c₁ b requests') d := by
    unfold Fired at hd ⊢
    rwa [(look_ledger hwoken b).calls]
  have hcand : (x.1, decide (z.2 = .sleeping)) ∈ b.candidates c := by
    unfold Batch.candidates
    rw [hstage, hd]
    refine List.mem_map.mpr ⟨z, List.mem_filter.mpr ⟨hz, decide_eq_true ⟨fun hf => ?_, hzalive halive.2⟩⟩, rfl⟩
    exact halive.1 (hfired _ (hyz ▸ hf))
  have hadd (hused : UsedUp cfg (requestLoads l b.number x.1) (decide (z.2 = .sleeping))) :
      UsedUp cfg (requestLoads l b.number x.1 + ds.count x.1) x.2 := by
    refine hused.add fun hx₂ => (hzsleep (hsleep hx₂)).imp decide_eq_true fun hmem => ?_
    rw [hd]
    exact List.count_pos_iff.mpr hmem
  rw [hn, batchLoads_append, requestLoads_append, batchLoads_batch, requestLoads_batch]
  rcases h b _ hb hcand with hall | hused
  · by_cases hown : ∀ d ∈ ds, x.1 = d
    · left
      rw [List.count_eq_length.mpr hown]
      exact congrArg (· + ds.length) hall
    · -- The load of another request has failed.
      right
      simp only [not_forall] at hown
      obtain ⟨d, hds, hne⟩ := hown
      refine hadd (hm (b.number, d) (List.mem_map_of_mem hds) (x.1, decide (z.2 = .sleeping)) ?_ hne)
      rw [candidates_some hb]
      exact hcand
  · exact .inr (hadd hused)

theorem fair_turn (h : Fair cfg c l) (hknown : ∀ x ∈ l, x.1 < c.batches) (ht : Turn cfg c m c')
    (hm : Harmless cfg c l m) : Fair cfg c' (l ++ m) := by
  cases ht with
  | look b requests requests' ds c₁ hb hstage hwoken => exact fair_look h hb hstage hwoken hm
  | enqueue req hd =>
    rw [List.append_nil]
    exact h.fires rfl fun _ => id
  | drop d e req hlt hf hreq =>
    rw [List.append_nil]
    exact h.fires rfl (fired_of_calls rfl)
  | disown d e hlt hf hnone =>
    rw [List.append_nil]
    exact h.fires rfl (fired_of_calls rfl)
  | start answers hb =>
    -- No load has the number of the new batch.
    rw [List.append_nil]
    intro b x hb' hx
    left
    have hn : b.number = c.batches := (candidates_setLookups hb').1
    have hzero := batchLoads_new hknown
    have hle := requestLoads_le l c.batches x.1
    rw [hn]
    omega
  | skip b d ds v work hb hstage hf =>
    rw [List.append_nil]
    exact h.next hb rfl rfl ((narrowed_running hstage).mono fun _ => id)
  | deliver b d ds v work hb hstage hf =>
    rw [List.append_nil]
    exact h.next hb rfl rfl ((narrowed_running hstage).mono (fired_of_calls rfl))
  | work b v work hb hstage =>
    rw [List.append_nil]
    have hfollows : Follows b (runWork cfg c b v work) := follows_runWork hstage
    rcases hfollows with ⟨hnone, -⟩ | ⟨b', hb', hn⟩
    · exact fair_none hnone l
    · refine h.next hb hb' hn ((narrowed_runWork hstage hb').mono fun d hd => ?_)
      unfold Fired at hd ⊢
      rwa [(ledger_runWork hstage).calls]
  | result b payloads r hb hstage =>
    rw [List.append_nil]
    have hon := onward_handleSendResponse cfg c b r
    rcases hon.follows with ⟨hnone, -⟩ | ⟨b', hb', hn⟩
    · exact fair_none hnone l
    · have hcand (c₂ : Core) : b.candidates c₂ = b.allDeferreds.map fun d => (d, false) := by
        unfold Batch.candidates
        rw [hstage]
      refine h.next hb hb' hn ?_
      rw [hcand c, ← hcand (noteResult cfg c b r)]
      exact narrowed_onward hon (hcand _) hb' _
  | retry b payloads hb hstage =>
    rw [List.append_nil]
    refine h.next hb rfl rfl ?_
    unfold Batch.candidates
    rw [hstage]
    exact narrowed_refl _
  | cancelRetry b payloads hb hstage =>
    rw [List.append_nil]
    exact h.next hb rfl rfl (narrowed_nil _)

/-! ## The budget -/

theorem early_of_asleep {d : Nat} (h : (d, true) ∈ b.candidates c) : b.stage.Early := by
  unfold Batch.candidates at h
  unfold Stage.Early
  split at h <;> rename_i hstage
  · rw [hstage]
    trivial
  · rw [hstage]
    trivial
  · simp at h
  · simp at h
  · simp at h
  · cases h
  · cases h

theorem wake_slept_failed {a : Answer} {e : Exc} (ha : a.metadataError ≠ 0)
    (h : (wake cfg c .sleeping (.slept a)).2 = .failed e) : cfg.maxAttempts ≤ c.reqAttempts := by
  simp only [wake, nextPartition, if_neg ha] at h
  split at h
  · next hle => exact hle
  · cases h

theorem budgeted_of_fair (hN : 1 ≤ cfg.maxAttempts) (h : Tallied cfg c l) (hf : Fair cfg c l) : Budgeted cfg c l := by
  refine ⟨fun hb a e ha hfail => ?_, fun b d hb hd a e ha hfail => ?_, fun b x hb hx => ?_⟩
  · rw [(h.spent.idle hb).1] at hfail
    unfold nextPartition at hfail
    rw [if_neg ha, if_neg (by omega)] at hfail
    cases hfail
  · have hle := wake_slept_failed ha hfail
    have hzero := (h.spent.batch b hb).early (early_of_asleep hd)
    have hcount := h.count b hb
    rcases hf b _ hb hd with hall | hused | ⟨-, hawake⟩
    · simp only at hall
      omega
    · exact hused
    · cases hawake
  · have hcount := h.count b hb
    unfold retriesLeft
    rcases hf b x hb hx with hall | hused | ⟨hlast, -⟩
    · rw [hcount, hall]
    · split <;> omega
    · split <;> omega

theorem tallied_step {s t : State} {e : Event} (hk : Known s) (h : Tallied cfg s.toCore l)
    (hstep : step cfg s e = some t) : Tallied cfg t.toCore (l ++ loadsOf s e) :=
  turns_invariant (fun l c => Tallied cfg c l) (fun _ _ _ _ h ht => tallied_charge h (charge_turn ht)) l
    (step_turns hk hstep) h

theorem fair_step {s t : State} {e : Event} (hk : Known s) (h : Tallied cfg s.toCore l) (hf : Fair cfg s.toCore l)
    (hok : Undisturbed cfg (s, l) e) (hstep : step cfg s e = some t) : Fair cfg t.toCore (l ++ loadsOf s e) := by
  rcases step_loads hstep with hnil | hturn
  · have hquiet : Tallied cfg t.toCore l ∧ Fair cfg t.toCore l := by
      refine turns_quiet (fun c => Tallied cfg c l ∧ Fair cfg c l) (fun c c' hc ht => ?_) (step_turns hk hstep)
        hnil ⟨h, hf⟩
      have htally := tallied_charge hc.1 (charge_turn ht)
      have hfair := fair_turn hc.2 hc.1.known ht fun x hx => absurd hx List.not_mem_nil
      rw [List.append_nil] at htally hfair
      exact ⟨htally, hfair⟩
    rw [hnil, List.append_nil]
    exact hquiet.2
  · exact fair_turn hf h.known hturn hok

/-! ## A load that does harm -/

theorem mem_set_of_ne {requests : List (SendRequest × Lookup)} {i : Nat} {x y : SendRequest × Lookup}
    (hget : requests[i]? = some x) (hy : y ∈ requests) (hne : y.1.deferred ≠ x.1.deferred) (x' : SendRequest × Lookup) :
    y ∈ requests.set i x' := by
  obtain ⟨j, hj⟩ := List.mem_iff_getElem?.mp hy
  have hij : i ≠ j := by
    rintro rfl
    rw [hget, Option.some.injEq] at hj
    exact hne (by rw [hj])
  refine List.mem_iff_getElem?.mpr ⟨j, ?_⟩
  rw [List.getElem?_set_ne hij]
  exact hj

theorem setLookups_pending {requests : List (SendRequest × Lookup)} {x : SendRequest × Lookup} (hx : x ∈ requests)
    (hp : x.2.pending = true) (c : Core) (b : Batch) : setLookups c b requests = c.setStage b (.lookups requests) := by
  unfold setLookups
  exact if_pos (List.any_eq_true.mpr ⟨x, hx, hp⟩)

theorem wake_failedLoad (cfg : Config) (c : Core) {lookup : Lookup} {w : Wake} (h : failedLoad lookup w ≠ 0) :
    failedLoad lookup w = 1 ∧ (wake cfg c lookup w).2 = .sleeping := by
  unfold failedLoad at h ⊢
  split at h
  · next a =>
    have ha : a.metadataError ≠ 0 := fun ha => h (if_pos ha)
    simp only [wake, if_neg ha, and_self]
  · exact absurd rfl h

theorem harmful_load {s t : State} {i : Nat} {w : Wake} (hstep : step cfg s (.wakeLookup i w) = some t)
    (hne : loadsOf s (.wakeLookup i w) ≠ []) : ∃ b b' d, s.batch = some b ∧ t.batch = some b' ∧ b'.number = b.number ∧
      b'.stage.Early ∧ loadsOf s (.wakeLookup i w) = [(b.number, d)] ∧
      ∀ x ∈ b.candidates s.toCore, x.1 ≠ d → x ∈ b'.candidates t.toCore := by
  cases takes_of_step hstep with
  | wakeLookup i w b requests req lookup hb hstage hget =>
    simp only [loadsOf, hb, hstage, hget] at hne ⊢
    have hfail : failedLoad lookup w ≠ 0 := by
      intro hzero
      simp [hzero] at hne
    obtain ⟨hone, hsleep⟩ := wake_failedLoad cfg s.toCore hfail
    have hmem : (req, Lookup.sleeping) ∈ requests.set i (req, .sleeping) :=
      List.mem_set (List.getElem?_eq_some_iff.mp hget).1 _
    have hcalls : (wake cfg s.toCore lookup w).1.calls = s.calls := by
      obtain ⟨interval, hw⟩ := wake_counts cfg s.toCore lookup w
      rw [hw]
    rw [hsleep, setLookups_pending hmem rfl, hone]
    refine ⟨b, _, req.deferred, rfl, rfl, rfl, trivial, rfl, fun x hx hxd => ?_⟩
    unfold Batch.candidates at hx ⊢
    rw [hstage] at hx
    obtain ⟨y, hy, rfl⟩ := List.mem_map.mp hx
    obtain ⟨hyreq, halive⟩ := List.mem_filter.mp hy
    obtain ⟨hf, hgood⟩ := of_decide_eq_true halive
    have hkept := mem_set_of_ne hget hyreq hxd
    refine List.mem_map.mpr ⟨y, List.mem_filter.mpr ⟨hkept _, decide_eq_true ⟨?_, hgood⟩⟩, rfl⟩
    intro hfired
    refine hf ?_
    unfold Fired at hfired ⊢
    exact hcalls ▸ hfired

theorem not_budgeted {s t : State} {i : Nat} {w : Wake} (hk : Known s) (h : Tallied cfg s.toCore l)
    (hstep : step cfg s (.wakeLookup i w) = some t) (hnot : ¬ Undisturbed cfg (s, l) (.wakeLookup i w)) :
    ¬ Budgeted cfg t.toCore (l ++ loadsOf s (.wakeLookup i w)) := by
  intro hbudget
  have htally := tallied_step hk h hstep
  have hne : loadsOf s (.wakeLookup i w) ≠ [] := by
    intro hnil
    refine hnot fun x hx => ?_
    rw [show loadsOf (s, l).1 (.wakeLookup i w) = [] from hnil] at hx
    cases hx
  obtain ⟨b, b', d, hb, hb', hn, hearly, hloads, hstill⟩ := harmful_load hstep hne
  unfold Undisturbed Harmless at hnot
  simp only [hloads, List.mem_singleton, forall_eq, candidates_some hb, not_forall] at hnot
  obtain ⟨x, hx, hxd, hnotUsed⟩ := hnot
  have hx' := hstill x hx hxd
  have hcount := htally.count b' hb'
  have hzero := (htally.spent.batch b' hb').early hearly
  have hle := requestLoads_le l b.number x.1
  have hretries := hbudget.retries b' x hb' hx'
  have hagain := hbudget.again b' x.1 hb'
  rw [hloads] at hcount hretries hagain
  have hsingle : requestLoads [(b.number, d)] b.number x.1 = 0 := by
    unfold requestLoads
    rw [List.count_eq_zero]
    simpa using hxd
  have hone : batchLoads [(b.number, d)] b.number = 1 := by simp [batchLoads]
  rw [hn] at hcount hzero hretries hagain
  rw [batchLoads_append, hone] at hcount
  rw [requestLoads_append, hsingle] at hretries hagain
  rw [hzero] at hcount hretries
  unfold UsedUp at hnotUsed
  by_cases hlast : cfg.maxAttempts = requestLoads l b.number x.1 + 1
  · -- The lookup sleeps: it will fail now without its last load.
    have hasleep : x.2 = true := by
      cases hx₂ : x.2 with
      | true => rfl
      | false => exact absurd (.inr ⟨hlast, hx₂⟩) hnotUsed
    have hfail : (wake cfg t.toCore .sleeping (.slept unknownTopic)).2 = .failed (.brokerResponse 3) := by
      simp only [wake, nextPartition]
      rw [if_neg (by decide), if_pos (by omega)]
      rfl
    have hmax := hagain (hasleep ▸ hx') unknownTopic _ (by decide) hfail
    omega
  · -- The payload has lost a retry.
    unfold retriesLeft at hretries
    simp only [if_pos] at hretries
    omega

/-- The limit is kept for each request in every state of every run in which failed loads are harmless, and is not in
the state after a load that is not. -/
theorem lookups_budgeted (cfg : Config) (looper : Bool) (es : List Event) (t : State) (l : Loads)
    (hN : 1 ≤ cfg.maxAttempts)
    (hrun : Machine.run (loggedStep cfg) (init cfg looper, []) es = some (t, l)) :
    (Machine.RunOk (loggedStep cfg) (Undisturbed cfg) (init cfg looper, []) es → Budgeted cfg t.toCore l) ∧
      ∀ i w u m, loggedStep cfg (t, l) (.wakeLookup i w) = some (u, m) →
        ¬ Undisturbed cfg (t, l) (.wakeLookup i w) → ¬ Budgeted cfg u.toCore m := by
  have hknown : Known (init cfg looper) := ⟨by simp [init], by simp [init]⟩
  have hnew : Tallied cfg (init cfg looper).toCore [] := ⟨spent_new cfg, by simp, by simp [init]⟩
  constructor
  · intro hok
    obtain ⟨-, htally, hfair⟩ : Known t ∧ Tallied cfg t.toCore l ∧ Fair cfg t.toCore l := by
      refine Machine.run_invariant (loggedStep cfg) (Undisturbed cfg)
        (fun x => Known x.1 ∧ Tallied cfg x.1.toCore x.2 ∧ Fair cfg x.1.toCore x.2) ?_ es _ (t, l)
        ⟨hknown, hnew, fair_none rfl []⟩ hok hrun
      rintro ⟨s, l⟩ e ⟨u, m⟩ ⟨hk, ht, hf⟩ hund hstep
      obtain ⟨hs, rfl⟩ := loggedStep_eq.mp hstep
      exact ⟨known_step hk hs, tallied_step hk ht hs, fair_step hk ht hf hund hs⟩
    exact budgeted_of_fair hN htally hfair
  · obtain ⟨hk, htally⟩ : Known t ∧ Tallied cfg t.toCore l := by
      refine Machine.run_invariant_all (loggedStep cfg) (fun x => Known x.1 ∧ Tallied cfg x.1.toCore x.2) ?_ es _ (t, l)
        ⟨hknown, hnew⟩ hrun
      rintro ⟨s, l⟩ e ⟨u, m⟩ ⟨hk, ht⟩ hstep
      obtain ⟨hs, rfl⟩ := loggedStep_eq.mp hstep
      exact ⟨known_step hk hs, tallied_step hk ht hs⟩
    rintro i w u m hstep hnot
    obtain ⟨hs, rfl⟩ := loggedStep_eq.mp hstep
    exact not_budgeted hk htally hs hnot

def soloConfig : Config := { pairConfig with batchEveryN := 1 }

def twoLoads : List Event :=
  [.sendMessages "t" none [some [1]] [], .wakeLookup 0 (.loaded unknownTopic), .wakeLookup 0 (.slept unknownTopic),
    .wakeLookup 0 (.loaded unknownTopic)]

theorem twoLoads_budgeted : ∃ t l,
    Machine.run (loggedStep soloConfig) (init soloConfig false, []) twoLoads = some (t, l) ∧
    requestLoads l 0 0 = 2 ∧ Budgeted soloConfig t.toCore l :=
  ⟨_, _, rfl, rfl, (lookups_budgeted soloConfig false twoLoads _ _ (by decide) rfl).1 (by decide)⟩

/-- Two requests of unknown topics: the first has had one load when its lookup gives up. -/
theorem first_lookup_starved : ∃ t l u,
    Machine.run (loggedStep pairConfig) (init pairConfig false, [])
      [.sendMessages "t" none [some [1]] [], .sendMessages "u" none [some [2]] [],
        .wakeLookup 0 (.loaded unknownTopic), .wakeLookup 1 (.loaded unknownTopic)] = some (t, l) ∧
    pairConfig.maxAttempts = 2 ∧ requestLoads l 0 0 = 1 ∧ ¬ Budgeted pairConfig t.toCore l ∧
    Machine.run (step pairConfig) t
      ([.wakeLookup 0 (.slept unknownTopic), .wakeLookup 1 (.slept unknownTopic)] ++
        List.replicate 3 (.resume [])) = some u ∧ (0, .failure (.brokerResponse 3)) ∈ u.calls := by
  refine ⟨_, _, _, rfl, rfl, rfl, fun h => ?_, rfl, by decide⟩
  exact absurd (h.again _ 0 rfl (by decide) unknownTopic (.brokerResponse 3) (by decide) rfl) (by decide)

end Afkak.Producer
