import Afkak.Producer.Order

/-!
# A batch that has nothing to send

Once every `Deferred` has fired, what a batch has still to do sends nothing, and until then nothing is sent by
a batch whose requests all fail. What is outstanding is always known.
-/

open Lib

namespace Afkak.Producer

def Action.isSend : Action → Bool
  | .send _ _ => true
  | .result _ _ => false

def sends (log : List Action) : List Action := log.filter Action.isSend

variable (cfg : Config)

def Due (s : State) : Prop :=
  s.batchReqs ≠ [] ∧ ((cfg.batchEveryN ≠ 0 ∧ cfg.batchEveryN ≤ s.waitingMsgCount) ∨
    (cfg.batchEveryB ≠ 0 ∧ cfg.batchEveryB ≤ s.waitingByteCount))

def Work.Silent (attempts : Int) : Work → Prop
  | .route _ groups => groups.entries = []
  | .responses rest failed => cfg.maxAttempts ≤ attempts ∨ (failed = [] ∧ ∀ res ∈ rest, res.error = 0)
  | .failEach _ | .complete => True

def Quiet (c : Core) : Prop :=
  ∀ b, c.batch = some b →
    match b.stage with
    | .lookups _ => True
    | .running _ _ work => work.Silent cfg c.reqAttempts
    | .sent _ => True
    | .retrying _ => False

def Work.Failing (c : Core) : Work → Prop
  | .route rest groups =>
    groups.entries = [] ∧ ∀ x ∈ rest, Fired c x.1.deferred ∨ ∀ p, x.2 ≠ .found p
  | .responses rest failed => rest = [] ∧ (cfg.maxAttempts ≤ c.reqAttempts ∨ failed = []) ∧ ∀ x ∈ failed, x.2.isFailure
  | .failEach rest => ∀ x ∈ rest, x.2.isFailure
  | .complete => True

def Failing (c : Core) : Prop :=
  ∀ b, c.batch = some b → ∃ ds v work, b.stage = .running ds v work ∧ (ds ≠ [] → v.isFailure) ∧ work.Failing cfg c

variable {cfg} {c c' : Core} {b : Batch}

/-! ## One piece of work -/

structure Hushed (c c' : Core) : Prop where
  sends : sends c'.log = sends c.log
  nextD : c'.nextD = c.nextD
  kept : ∀ x ∈ c.calls, x ∈ c'.calls
  fresh : ∀ d, Fired c' d → Fired c d ∨ ∃ v, (d, v) ∈ c'.calls ∧ v.isFailure

theorem hushed_of_eq (hlog : c'.log = c.log) (hnext : c'.nextD = c.nextD) (hcalls : c'.calls = c.calls) :
    Hushed c c' where
  sends := by rw [hlog]
  nextD := hnext
  kept := by
    rw [hcalls]
    exact fun _ => id
  fresh d hd := by
    unfold Fired at hd ⊢
    rw [hcalls] at hd
    exact .inl hd

theorem Work.Failing.silent {work : Work} (h : work.Failing cfg c) : work.Silent cfg c.reqAttempts := by
  cases work with
  | route rest groups => exact h.1
  | responses rest failed =>
    obtain ⟨rfl, hlast | hnil, -⟩ := h
    · exact .inl hlast
    · exact .inr ⟨hnil, by simp⟩
  | failEach rest => trivial
  | complete => trivial

theorem Failing.quiet (h : Failing cfg c) : Quiet cfg c := by
  intro b hb
  obtain ⟨ds, v, work, hstage, -, hw⟩ := h b hb
  rw [hstage]
  exact hw.silent

def Batch.Mentions (b : Batch) (d : Nat) : Prop :=
  d ∈ b.allDeferreds ∨
  match b.stage with
  | .lookups requests => ∃ x ∈ requests, x.1.deferred = d
  | .running ds _ (.route rest groups) => d ∈ ds ∨ (∃ x ∈ rest, x.1.deferred = d) ∨ ∃ tp, InGroup groups tp d
  | .running ds _ _ => d ∈ ds
  | .sent _ | .retrying _ => False

structure Issued (c : Core) : Prop where
  waiting : ∀ req ∈ c.batchReqs, req.deferred < c.nextD
  batch : ∀ b, c.batch = some b → ∀ d, b.Mentions d → d < c.nextD

def Tracked (s : State) : Prop := ∀ d < s.nextD, ¬ Fired s.toCore d → d ∈ s.outstanding

def free : Cond where
  result _ _ _ := True
  build _ := True

theorem Onward.mentions (h : Onward c c' b) {b' : Batch} (hb' : c'.batch = some b') {d : Nat} (hd : b'.Mentions d) :
    d ∈ b.allDeferreds := by
  obtain ⟨hdeferreds, hds⟩ := h.deferreds b' hb'
  have hlater : b'.stage.Later := by
    rcases h.batch with ⟨hnone, -⟩ | ⟨b'', hb'', -, hl⟩
    · rw [hnone] at hb'
      cases hb'
    · rw [hb'', Option.some.injEq] at hb'
      exact hb' ▸ hl
  rcases hd with hd | hd
  · unfold Batch.allDeferreds at hd ⊢
    rwa [hdeferreds] at hd
  · split at hd
    · next hstage =>
      rw [hstage] at hlater
      exact hlater.elim
    · next hstage =>
      rw [hstage] at hlater
      exact hlater.elim
    · next ds v work _ hstage => exact hds ds v work hstage d hd
    · exact hd.elim
    · exact hd.elim

theorem Issued.onward (h : Issued c) (hb : c.batch = some b) (hon : Onward c c' b) : Issued c' := by
  refine ⟨?_, fun b' hb' d hd => ?_⟩
  · rw [hon.batchReqs, hon.nextD]
    exact h.waiting
  · rw [hon.nextD]
    exact h.batch b hb d (.inl (hon.mentions hb' hd))

theorem Issued.goTo (h : Issued c) (hb : c.batch = some b) {b' : Batch} (hb' : c'.batch = some b')
    (hnext : c'.nextD = c.nextD) (hreqs : c'.batchReqs = c.batchReqs) (hsub : ∀ d, b'.Mentions d → b.Mentions d) :
    Issued c' := by
  refine ⟨?_, fun b'' hb'' d hd => ?_⟩
  · rw [hreqs, hnext]
    exact h.waiting
  · rw [hb', Option.some.injEq] at hb''
    subst hb''
    rw [hnext]
    exact h.batch b hb d (hsub d hd)

theorem mentions_round {v v' : Value} {req : SendRequest} {lookup : Lookup} {rest : List (SendRequest × Lookup)}
    {groups groups' : Dict TopicAndPartition (List SendRequest)} {ds : List Nat}
    (hstage : b.stage = .running [] v (.route ((req, lookup) :: rest) groups)) (hds : ∀ d ∈ ds, d = req.deferred)
    (hgroups : ∀ tp d, InGroup groups' tp d → InGroup groups tp d ∨ d = req.deferred) (d : Nat)
    (hd : ({ b with stage := .running ds v' (.route rest groups') } : Batch).Mentions d) : b.Mentions d := by
  rcases hd with hd | hd | ⟨x, hx, rfl⟩ | ⟨tp, htp⟩
  · exact .inl hd
  · right
    rw [hstage]
    exact .inr (.inl ⟨_, List.mem_cons_self, (hds d hd).symm⟩)
  · right
    rw [hstage]
    exact .inr (.inl ⟨x, List.mem_cons_of_mem _ hx, rfl⟩)
  · right
    rw [hstage]
    rcases hgroups tp d htp with hold | rfl
    · exact .inr (.inr ⟨tp, hold⟩)
    · exact .inr (.inl ⟨_, List.mem_cons_self, rfl⟩)

theorem mentions_complete (b : Batch) {v : Value} {d : Nat}
    (hd : ({ b with stage := .running [] v .complete } : Batch).Mentions d) : b.Mentions d :=
  .inl (hd.resolve_right List.not_mem_nil)

theorem mentions_work {v : Value} {work : Work} (hstage : b.stage = .running [] v work) {b' : Batch}
    (hb' : (runWork cfg c b v work).batch = some b') (d : Nat) (hd : b'.Mentions d) : b.Mentions d := by
  cases work with
  | route rest groups =>
    cases rest with
    | nil =>
      simp only [runWork] at hb'
      unfold sendGroups at hb'
      split at hb'
      · obtain rfl := Option.some.inj hb'
        exact mentions_complete b hd
      · obtain rfl := Option.some.inj hb'
        exact mentions_complete b hd
      · obtain rfl := Option.some.inj hb'
        have hall := hd.resolve_right id
        obtain ⟨tp, htp⟩ := Batch.mem_allDeferreds.mp hall
        right
        rw [hstage]
        exact .inr (.inr ⟨tp, (mem_deferredsOf_groups rfl tp d).mp htp⟩)
    | cons x rest =>
      obtain ⟨req, lookup⟩ := x
      simp only [runWork] at hb'
      split at hb'
      · obtain rfl := Option.some.inj hb'
        exact mentions_round hstage (by simp) (fun _ _ => .inl) d hd
      · split at hb'
        · obtain rfl := Option.some.inj hb'
          exact mentions_round hstage (by simp) (fun _ _ => .inl) d hd
        · obtain rfl := Option.some.inj hb'
          exact mentions_round hstage (by simp) (fun tp d hd => (inGroup_set.mp hd).imp_right And.right) d hd
        · obtain rfl := Option.some.inj hb'
          exact mentions_round hstage (by simp) (fun _ _ => .inl) d hd
        · obtain rfl := Option.some.inj hb'
          exact mentions_round hstage (by simp) (fun _ _ => .inl) d hd
  | responses rest failed => exact .inl ((onward_runWork hstage trivial).mentions hb' hd)
  | failEach rest => exact .inl ((onward_runWork hstage trivial).mentions hb' hd)
  | complete => exact .inl ((onward_runWork hstage trivial).mentions hb' hd)

structure SameLedger (c c' : Core) : Prop where
  nextD : c'.nextD = c.nextD
  calls : c'.calls = c.calls

theorem ledger_onward (h : Onward c c' b) : SameLedger c c' := ⟨h.nextD, h.calls⟩

theorem ledger_runWork {v : Value} {work : Work} (hstage : b.stage = .running [] v work) :
    SameLedger c (runWork cfg c b v work) := by
  cases work with
  | route rest groups =>
    cases rest with
    | nil =>
      simp only [runWork]
      unfold sendGroups
      split
      · exact ⟨rfl, rfl⟩
      · exact ⟨rfl, rfl⟩
      · exact ⟨rfl, rfl⟩
    | cons x rest =>
      simp only [runWork]
      split
      · exact ⟨rfl, rfl⟩
      · split
        · exact ⟨rfl, rfl⟩
        · exact ⟨rfl, rfl⟩
        · exact ⟨rfl, rfl⟩
        · exact ⟨rfl, rfl⟩
  | responses rest failed => exact ledger_onward (onward_runWork hstage trivial)
  | failEach rest => exact ledger_onward (onward_runWork hstage trivial)
  | complete => exact ledger_onward (onward_runWork hstage trivial)

theorem ledger_setLookups (c : Core) (b : Batch) (requests : List (SendRequest × Lookup)) :
    SameLedger c (setLookups c b requests) := by
  unfold setLookups
  split
  · exact ⟨rfl, rfl⟩
  · exact ⟨rfl, rfl⟩

theorem batchReqs_runWork {v : Value} {work : Work} (hstage : b.stage = .running [] v work) :
    (runWork cfg c b v work).batchReqs = c.batchReqs := by
  cases work with
  | route rest groups =>
    cases rest with
    | nil =>
      simp only [runWork]
      unfold sendGroups
      split <;> rfl
    | cons x rest =>
      simp only [runWork]
      split
      · rfl
      · split <;> rfl
  | responses rest failed => exact (onward_runWork (c := c) hstage trivial).batchReqs
  | failEach rest => exact (onward_runWork (c := c) hstage trivial).batchReqs
  | complete => rfl

theorem mentions_tail {d : Nat} {ds : List Nat} {v : Value} {work : Work} (hstage : b.stage = .running (d :: ds) v work)
    (x : Nat) (hx : ({ b with stage := .running ds v work } : Batch).Mentions x) : b.Mentions x := by
  unfold Batch.Mentions at hx ⊢
  rw [hstage]
  refine hx.imp_right fun hx => ?_
  cases work with
  | route rest groups => exact hx.imp_left (List.mem_cons_of_mem d)
  | responses rest failed => exact List.mem_cons_of_mem d hx
  | failEach rest => exact List.mem_cons_of_mem d hx
  | complete => exact List.mem_cons_of_mem d hx

theorem Tracked.same {s t : State} (h : Tracked s) (hl : SameLedger s.toCore t.toCore)
    (ho : t.outstanding = s.outstanding) : Tracked t := by
  intro d hd hf
  rw [ho]
  rw [hl.nextD] at hd
  refine h d hd fun hfired => hf ?_
  unfold Fired
  rw [hl.calls]
  exact hfired

end Afkak.Producer
