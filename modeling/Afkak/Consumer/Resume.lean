import Afkak.Consumer.CommitSafety
import Afkak.Consumer.Order

/-!
# Consumers that go on where others stopped

A consumer that starts from `OFFSET_COMMITTED` goes on behind an offset that an earlier one has committed. The earlier
one may have crashed, or may still be running: what counts of it is what it has committed by then. A commit covers
what was processed since the start, and the start covers what was processed before it.
-/

open Lib Lib.Window

namespace Afkak.Consumer

def ToldFrom (log : PartitionLog) (stored : List Int) : List OffsetAnswer → Prop
  | [.committed (some offset)] => (offset : Int) ∈ stored
  | [.offsets (offset :: _)] => ∀ e ∈ log.entries, (offset : Int) ≤ e.offset
  | _ => True

theorem unasked_log (cfg : Config) (log : PartitionLog) :
    False → ∀ (f : Flow) (o : Int) (l : List FetchResponse), log.Answers cfg o l → f.msgBlockD = true → smooth cfg l :=
  False.elim

theorem unasked_resuming : False → ∀ (f : Flow) (offset : Int),
    offset = OFFSET_COMMITTED ∧ f.lastProcessedOffset = none ∧ ¬ Active f.requestD → f.requestD = none := False.elim

/-- A new consumer of the log, for which `stored` has been committed so far, and which has nothing outstanding when it
starts. No block succeeds after one that failed. -/
def resuming (cfg : Config) (log : PartitionLog) (stored : List Int) : Cond cfg where
  start f offset := offset = OFFSET_COMMITTED ∧ f.lastProcessedOffset = none ∧ ¬ Active f.requestD
  answer _ responses := ToldFrom log stored responses
  reset := False
  response _ offset responses := log.Answers cfg offset responses
  outcome f ok := ok = true → ∀ b ∈ f.blocks, b.outcome ≠ some false
  live := False
  start_live := unasked_resuming
  answer_live h := h.elim
  response_live := unasked_log cfg log

instance (log : PartitionLog) (stored : List Int) : (l : List OffsetAnswer) → Decidable (ToldFrom log stored l)
  | [.committed (some offset)] => inferInstanceAs (Decidable ((offset : Int) ∈ stored))
  | [.offsets (offset :: _)] => inferInstanceAs (Decidable (∀ e ∈ log.entries, (offset : Int) ≤ e.offset))
  | [] | [.committed none] | [.offsets []] => .isTrue trivial
  | a :: b :: l => .isTrue (by cases a with
    | offsets l => cases l <;> trivial
    | committed c => cases c <;> trivial)

section Decidable

variable (cfg : Config) (log : PartitionLog) (stored : List Int) (f : Flow)

instance (o : Int) : Decidable ((resuming cfg log stored).start f o) := inferInstanceAs (Decidable (_ ∧ _))
instance (l : List OffsetAnswer) : Decidable ((resuming cfg log stored).answer f l) :=
  inferInstanceAs (Decidable (ToldFrom log stored l))
instance : Decidable (resuming cfg log stored).reset := .isFalse id
instance (o : Int) (l : List FetchResponse) : Decidable ((resuming cfg log stored).response f o l) :=
  inferInstanceAs (Decidable (_ ∧ _))
instance (b : Bool) : Decidable ((resuming cfg log stored).outcome f b) :=
  inferInstanceAs (Decidable (b = true → ∀ b ∈ f.blocks, b.outcome ≠ some false))

end Decidable

/-! ## One consumer -/

section Moves

variable {cfg : Config} {log : PartitionLog} {stored : List Int} {f f' : Flow}

theorem Move.imp {k k' : Cond cfg} (hm : Move k f f') (hstart : ∀ o, k.start f o → k'.start f o)
    (hreset : k.reset → k'.reset) (hanswer : ∀ l, f.requestD = some .offset → k.answer f l → k'.answer f l)
    (hresponse : ∀ o l, k.response f o l → k'.response f o l) (houtcome : ∀ ok, k.outcome f ok → k'.outcome f ok) :
    Move k' f f' := by
  cases hm with
  | start offset hend hgen hparked hblock hk => exact .start offset hend hgen hparked hblock (hstart _ hk)
  | ask hreq => exact .ask hreq
  | fail hreq => exact .fail hreq
  | reset offset hk hreq h => exact .reset offset (hreset hk) hreq h
  | resolve offset responses hreq hk h => exact .resolve offset responses hreq (hanswer _ hreq hk) h
  | unresolved offset hreq h => exact .unresolved offset hreq h
  | park offset responses hreq hblock hk => exact .park offset responses hreq hblock (hresponse _ _ hk)
  | read offset responses hreq hgen hparked hblock hk =>
    exact .read offset responses hreq hgen hparked hblock (hresponse _ _ hk)
  | forget g hgen hphase hblock h => exact .forget g hgen hphase hblock h
  | begin g hgen hphase hrest hshut => exact .begin g hgen hphase hrest hshut
  | hand g hgen hphase hrest hshut => exact .hand g hgen hphase hrest hshut
  | wait g b hgen hphase => exact .wait g b hgen hphase
  | done g ok phase hgen hphase hk hnext => exact .done g ok phase hgen hphase (houtcome _ hk) hnext
  | commit offset h => exact .commit offset h
  | finish g hgen hphase hparked h => exact .finish g hgen hphase hparked h
  | finishParked g responses hgen hphase hparked hend h => exact .finishParked g responses hgen hphase hparked hend h
  | die g hgen hphase hblock => exact .die g hgen hphase hblock
  | stop => exact .stop
  | stopLater hparked => exact .stopLater hparked
  | dropBlock hend => exact .dropBlock hend
  | shutdown => exact .shutdown
  | reopen hend => exact .reopen hend

def LastDelivered (f : Flow) : Prop := ∀ p, f.lastProcessedOffset = some p → ∃ m ∈ f.delivered, m.offset = p

def Origin (log : PartitionLog) (stored : List Int) (f : Flow) : Prop :=
  ∀ r, f.resolved = some r → (∃ c ∈ stored, r = c + 1) ∨ ∀ e ∈ log.entries, r ≤ e.offset

theorem LastDelivered.of_eq (h : LastDelivered f) (hlast : f'.lastProcessedOffset = f.lastProcessedOffset)
    (hblocks : f.blocks <+: f'.blocks) : LastDelivered f' := by
  intro p hp
  obtain ⟨m, hm, rfl⟩ := h p (hlast ▸ hp)
  obtain ⟨new, hnew⟩ := hblocks
  refine ⟨m, ?_, rfl⟩
  rw [Flow.delivered, ← hnew, List.flatMap_append]
  exact List.mem_append_left _ hm

theorem lastDelivered_move (hserial : Serial f) (h : LastDelivered f) (hm : Move (resuming cfg log stored) f f') :
    LastDelivered f' := by
  cases hm with
  | start offset _ _ _ _ hk =>
    intro p hp
    rw [show f.lastProcessedOffset = none from hk.2.1] at hp
    cases hp
  | done g ok phase hgen hphase =>
    obtain ⟨done, messages, hblocks, hblock, hlast, hne, -⟩ := hserial.busy g hgen ((Gen.busy_iff g).mpr hphase)
    have hsame : (setOutcome f.blocks g.block ok).flatMap (fun b => b.messages) = f.delivered := by
      rw [hblocks, hblock, setOutcome_last, Flow.delivered, hblocks]
      simp
    intro p hp
    simp only [Flow.delivered, hsame]
    cases ok with
    | false => exact h p hp
    | true =>
      obtain ⟨m, hm, heq⟩ := lastOffset_mem hne
      have hmem : m ∈ f.delivered := by
        rw [Flow.delivered, hblocks]
        exact List.mem_flatMap.mpr ⟨⟨messages, none⟩, by simp, hm⟩
      exact ⟨m, hmem, by rw [heq, ← hlast]; exact Option.some.inj hp⟩
  | read | finishParked =>
    rw [read_eq]
    exact h.of_eq rfl (List.prefix_refl _)
  | begin g hgen => exact h.of_eq rfl (List.prefix_append _ _)
  | hand g hgen => exact h.of_eq rfl (List.prefix_append _ _)
  | ask | fail | reset | resolve | unresolved | park | forget | wait | commit | finish | die | stop | stopLater
  | dropBlock | shutdown | reopen => exact h.of_eq rfl (List.prefix_refl _)

theorem origin_answer {responses : List OffsetAnswer} {offset : Int} (h : ToldFrom log stored responses)
    (hanswer : answered responses = some offset) :
    (∃ c ∈ stored, offset = c + 1) ∨ ∀ e ∈ log.entries, offset ≤ e.offset := by
  unfold answered at hanswer
  split at hanswer
  · obtain rfl := Option.some.inj hanswer
    exact .inr h
  · obtain rfl := Option.some.inj hanswer
    exact .inl ⟨_, h, rfl⟩
  · cases hanswer

theorem origin_move (h : Origin log stored f) (hm : Move (resuming cfg log stored) f f') : Origin log stored f' := by
  cases hm with
  | start offset _ _ _ _ hk =>
    intro r hr
    rw [show offset = OFFSET_COMMITTED from hk.1] at hr
    simp at hr
  | resolve offset responses hreq hk hanswer =>
    intro r hr
    cases hresolved : f.resolved with
    | some r' =>
      obtain rfl : r' = r := by simpa [hresolved] using hr
      exact h r' hresolved
    | none =>
      obtain rfl : offset = r := by simpa [hresolved] using hr
      exact origin_answer hk hanswer
  | read | finishParked =>
    rw [read_eq]
    exact h
  | ask | fail | reset | unresolved | park | forget | begin | hand | wait | done | commit | finish | die | stop
  | stopLater | dropBlock | shutdown | reopen => exact h

structure Resumed (cfg : Config) (log : PartitionLog) (stored : List Int) (f : Flow) : Prop where
  serial : Serial f
  safe : f.ended = false → Safe f
  ordered : f.ended = false → Ordered cfg log f
  lastDelivered : LastDelivered f
  origin : Origin log stored f

theorem Resumed.unread (h : Resumed cfg log stored f) (hend : f.ended = false) (hreq : f.requestD = some .offset) :
    f.lastProcessedOffset = none ∧ f.delivered = [] ∧ f.held = [] := by
  obtain ⟨hblocks, hgen, -⟩ := (h.ordered hend).unresolved ((h.ordered hend).unresolved_of_offset hreq)
  have hdelivered : f.delivered = [] := by simp [Flow.delivered, hblocks]
  refine ⟨?_, hdelivered, by simp [Flow.held, hgen]⟩
  rw [Option.eq_none_iff_forall_ne_some]
  intro p hp
  obtain ⟨m, hm, -⟩ := h.lastDelivered p hp
  rw [hdelivered] at hm
  cases hm

theorem Resumed.safe_move (h : Resumed cfg log stored f) (hm : Move (resuming cfg log stored) f f')
    (hend : f'.ended = false) : Safe f' := by
  cases hended : f.ended with
  | false =>
    have hsafe : Move (safeCommits cfg) f f' := by
      refine hm.imp (fun o ho => ⟨.inl (.inr ho.1), fun _ => ?_⟩) False.elim (fun l hreq _ => ?_) (fun _ _ _ => trivial)
        fun _ => id
      · exact fun hfetching => ho.2.2 (.inr hfetching)
      · obtain ⟨hlast, hdelivered, hheld⟩ := h.unread hended hreq
        show (answered l).all _ = true
        simp [hlast, hdelivered, hheld]
    exact Consumer.safe_move h.serial (h.safe hended) hsafe
  | true =>
    -- What a stopped consumer has read is forgotten when it is started.
    cases hm with
    | start offset _ hgen hparked _ hk =>
      refine safe_start hgen hparked (fun hn => absurd (.inr hk.1) hn) fun _ hfetching => hk.2.2 (.inr hfetching)
    | stop | stopLater => cases hend
    | read | finishParked =>
      rw [read_eq] at hend
      exact absurd (hended.symm.trans hend) (by decide)
    | _ => exact absurd (hended.symm.trans hend) (by decide)

theorem resumed_move (h : Resumed cfg log stored f) (hm : Move (resuming cfg log stored) f f') :
    Resumed cfg log stored f' where
  serial := serial_move h.serial hm
  safe := h.safe_move hm
  ordered := ordered_move h.serial h.ordered <|
    hm.imp (fun _ ho => ho.2.2) id (fun _ _ _ => trivial) (fun _ _ => id) fun _ _ => trivial
  lastDelivered := lastDelivered_move h.serial h.lastDelivered hm
  origin := origin_move h.origin hm

def Flow.Processed (f : Flow) (e : OffsetAndMessage) : Prop := ∃ b ∈ f.blocks, b.outcome = some true ∧ e ∈ b.messages

theorem Resumed.covers (h : Resumed cfg log stored f) (hend : f.ended = false) {o : Int} (ho : o ∈ f.commits) :
    ∃ r, f.resolved = some r ∧ ∀ e ∈ log.entries, r ≤ e.offset → e.offset ≤ o → f.Processed e := by
  obtain ⟨p, hp, hop⟩ := (h.safe hend).commits o ho
  obtain ⟨m, hm, rfl⟩ := h.lastDelivered p hp
  have hordered := h.ordered hend
  cases hresolved : f.resolved with
  | none =>
    rw [Flow.delivered, (hordered.unresolved hresolved).1] at hm
    cases hm
  | some r =>
    refine ⟨r, rfl, fun e he hr heo => ?_⟩
    have hsince : log.since r = log.entries.filter fun e => r ≤ e.offset := dropWhile_lt log.increasing r
    have hinc : Increasing offsetOf (log.since r) := by
      rw [hsince]
      exact log.increasing.sublist List.filter_sublist
    have hmem : e ∈ log.since r := by
      rw [hsince]
      exact List.mem_filter.mpr ⟨he, by simpa using hr⟩
    have hread : e ∈ f.delivered :=
      mem_initial hinc (hordered.delivered r hresolved) hmem hm (Int.le_trans heo hop)
    obtain ⟨b, hb, heb⟩ := List.mem_flatMap.mp hread
    exact ⟨b, hb, (h.safe hend).covered m.offset hp b hb e heb (Int.le_trans heo hop), heb⟩

end Moves

theorem init_resumed (cfg : Config) (log : PartitionLog) (stored : List Int) :
    Resumed cfg log stored (init cfg).toFlow := by
  refine ⟨⟨by simp [init], by simp [init]⟩, by simp [init], by simp [init], ?_, ?_⟩
  all_goals simp [init, LastDelivered, Origin]

theorem run_resumed {cfg : Config} {log : PartitionLog} {stored : List Int} {es : List Event} {t : State}
    (hok : Machine.RunOk (step cfg) (resuming cfg log stored).Meets (init cfg) es)
    (hrun : Machine.run (step cfg) (init cfg) es = some t) : Resumed cfg log stored t.toFlow :=
  (run_moves (k := resuming cfg log stored) (Resumed cfg log stored) (init_resumed cfg log stored)
    (fun _ _ => resumed_move) es hok hrun).2

/-! ## One after the other -/

/-- Consumers of the log, each as it was when it crashed, or last before `stop` was called. An offset that one of them
is told was committed by one before it in the list. -/
inductive Consumers (log : PartitionLog) : List Flow → Prop
  | none : Consumers log []
  | next {flows : List Flow} (h : Consumers log flows) {cfg : Config} {es : List Event} {t : State}
    (hok : Machine.RunOk (step cfg) (resuming cfg log (flows.flatMap Flow.commits)).Meets (init cfg) es)
    (hrun : Machine.run (step cfg) (init cfg) es = some t) (hend : t.ended = false) :
    Consumers log (flows ++ [t.toFlow])

def ProcessedBy (flows : List Flow) (e : OffsetAndMessage) : Prop := ∃ f ∈ flows, f.Processed e

theorem ProcessedBy.mono {flows flows' : List Flow} {e : OffsetAndMessage} (h : ProcessedBy flows e)
    (hsub : ∀ f ∈ flows, f ∈ flows') : ProcessedBy flows' e := by
  obtain ⟨f, hf, he⟩ := h
  exact ⟨f, hsub f hf, he⟩

theorem Resumed.before {cfg : Config} {log : PartitionLog} {flows : List Flow} {f : Flow}
    (h : Resumed cfg log (flows.flatMap Flow.commits) f)
    (hcommits : ∀ g ∈ flows, ∀ o ∈ g.commits, ∀ e ∈ log.entries, e.offset ≤ o → ProcessedBy flows e) {r : Int}
    (hr : f.resolved = some r) {e : OffsetAndMessage} (he : e ∈ log.entries) (hlt : e.offset < r) :
    ProcessedBy flows e := by
  obtain ⟨c, hc, rfl⟩ | hfirst := h.origin r hr
  · obtain ⟨g, hg, hcg⟩ := List.mem_flatMap.mp hc
    exact hcommits g hg c hcg e he (by omega)
  · have := hfirst e he
    omega

/-- The induction is on the consumers: what the last one commits covers its own blocks, back to its start. -/
theorem Consumers.commits {log : PartitionLog} {flows : List Flow} (h : Consumers log flows) :
    ∀ f ∈ flows, ∀ o ∈ f.commits, ∀ e ∈ log.entries, e.offset ≤ o → ProcessedBy flows e := by
  induction h with
  | none => simp
  | @next flows _ cfg es t hok hrun hend ih =>
    intro f hf o ho e he hle
    obtain hf | hf := List.mem_append.mp hf
    · exact (ih f hf o ho e he hle).mono fun f hf => List.mem_append_left _ hf
    obtain rfl := List.mem_singleton.mp hf
    have hresumed := run_resumed hok hrun
    obtain ⟨r, hr, hcovers⟩ := hresumed.covers hend ho
    by_cases hlt : e.offset < r
    · exact (hresumed.before ih hr he hlt).mono fun f hf => List.mem_append_left _ hf
    · exact ⟨t.toFlow, by simp, hcovers e he (by omega) hle⟩

theorem Consumers.starts {log : PartitionLog} {flows : List Flow} (h : Consumers log flows) :
    ∀ f ∈ flows, ∀ r, f.resolved = some r → ∀ e ∈ log.entries, e.offset < r → ProcessedBy flows e := by
  induction h with
  | none => simp
  | @next flows h cfg es t hok hrun hend ih =>
    intro f hf r hr e he hlt
    refine ProcessedBy.mono ?_ fun f hf => List.mem_append_left _ hf
    obtain hf | hf := List.mem_append.mp hf
    · exact ih f hf r hr e he hlt
    · obtain rfl := List.mem_singleton.mp hf
      exact (run_resumed hok hrun).before h.commits hr he hlt

/-- No entry is passed over: those before the start of a consumer, and those that a commit covers, have all been
processed. -/
theorem none_passed_over (log : PartitionLog) (flows : List Flow) (h : Consumers log flows) :
    ∀ f ∈ flows, (∀ r, f.resolved = some r → ∀ e ∈ log.entries, e.offset < r → ProcessedBy flows e) ∧
      ∀ o ∈ f.commits, ∀ e ∈ log.entries, e.offset ≤ o → ProcessedBy flows e :=
  fun f hf => ⟨h.starts f hf, h.commits f hf⟩

def firstRun : List Event :=
  [.start OFFSET_COMMITTED, .resume {}, .offsetResult (.ok [.committed none]), .offsetResult (.ok [.offsets [0]]),
    .fetchResult (.ok [⟨0, [messageAt 0, messageAt 1], none⟩]), .processorReturned (some (.ok ())) (.ok ())]

def secondRun : List Event :=
  [.start OFFSET_COMMITTED, .resume {}, .offsetResult (.ok [.committed (some 0)]),
    .fetchResult (.ok [⟨0, [messageAt 1], none⟩]), .processorReturned (some (.ok ())) (.ok ())]

theorem second_goes_on :
    ∃ f g, Consumers twoEntries [f, g] ∧ f.commits = [0] ∧ g.resolved = some 1 ∧ g.commits = [1] ∧
      ProcessedBy [f, g] (messageAt 0) ∧ ProcessedBy [f, g] (messageAt 1) := by
  have hfirst : ∃ t, Machine.run (step groupConfig) (init groupConfig) firstRun = some t ∧ t.ended = false ∧
      t.commits = [0] := ⟨_, rfl, by decide, by decide⟩
  have hsecond : ∃ t, Machine.run (step groupConfig) (init groupConfig) secondRun = some t ∧ t.ended = false ∧
      t.resolved = some 1 ∧ t.commits = [1] := ⟨_, rfl, by decide, by decide, by decide⟩
  obtain ⟨f, hf, hfend, hfcommits⟩ := hfirst
  obtain ⟨g, hg, hgend, hgresolved, hgcommits⟩ := hsecond
  have hone : Consumers twoEntries [f.toFlow] := .next .none (by decide) hf hfend
  have hstored : [f.toFlow].flatMap Flow.commits = [0] := by simp [hfcommits]
  have hboth : Consumers twoEntries [f.toFlow, g.toFlow] := .next hone (by rw [hstored]; decide) hg hgend
  have hall := (none_passed_over twoEntries _ hboth g.toFlow (by simp)).2 1 (by simp [hgcommits])
  exact ⟨_, _, hboth, hfcommits, hgresolved, hgcommits, hall _ (by decide) (by decide), hall _ (by decide) (by decide)⟩

end Afkak.Consumer
