import Afkak.Consumer
import Mathlib.Logic.Relation

/-!
# What a step of the consumer does

A step is a sequence of moves of the flow. The agenda decides which moves can come: `Tidy` says what it
owes to the state. A stop that has been called, for one, has still to cancel the processor as long as the
generator waits for it.
-/

open Lib

namespace Afkak.Consumer

def Active (r : Option Pending) : Prop := r = some .offset ∨ ∃ o, r = some (.fetch o)

/-- `[response] = responses` and `response.offsets[0]` do not raise. -/
def wellFormed : List OffsetAnswer → Bool
  | [.offsets (_ :: _)] | [.committed _] => true
  | _ => false

def answered : List OffsetAnswer → Option Int
  | [.offsets (offset :: _)] => some offset
  | [.committed (some offset)] => some (offset + 1)
  | _ => none

def raised (cfg : Config) (responses : List FetchResponse) : Option Exc :=
  (responses.filter fun r => r.partition = cfg.partition).findSome? fun r => r.raises

/-- Reading the responses raises nothing but the sign of a small buffer. -/
def smooth (cfg : Config) (responses : List FetchResponse) : Bool :=
  (raised cfg responses).all (· = .consumerFetchSizeTooSmall)

/-- The error makes the consumer start over from another offset. -/
def Resets (cfg : Config) (e : Exc) : Prop := e = .offsetOutOfRange ∧ cfg.autoOffsetReset.isSome

/-- A condition on what the application, the broker and the processor do. With `live`, it is enough for
the consumer to go on. -/
structure Cond (cfg : Config) where
  start : Flow → Int → Prop
  answer : Flow → List OffsetAnswer → Prop
  reset : Prop
  response : Flow → Int → List FetchResponse → Prop
  outcome : Flow → Bool → Prop
  live : Prop
  start_live : live → ∀ f o, start f o → f.requestD = none
  answer_live : live → ∀ f l, answer f l → wellFormed l
  response_live : live → ∀ f o l, response f o l → f.msgBlockD = true → smooth cfg l

theorem unasked_start : False → ∀ (f : Flow) (_ : Int), True → f.requestD = none := False.elim

theorem unasked_quiet : False → ∀ (f : Flow) (_ : Int), ¬ Active f.requestD → f.requestD = none := False.elim

theorem unasked_answer : False → ∀ (_ : Flow) (l : List OffsetAnswer), True → wellFormed l := False.elim

theorem unasked_response (cfg : Config) :
    False → ∀ (f : Flow) (_ : Int) (l : List FetchResponse), True → f.msgBlockD = true → smooth cfg l := False.elim

variable {cfg : Config} (k : Cond cfg)

def Cond.MeetsAct (s : State) (o : CancelOutcome) : Act → Prop
  | .fetchError e => Resets cfg e → k.reset
  | .stopping .processor _ => s.processorD = true → k.outcome s.toFlow o.processor.toBool
  | _ => True

def Cond.Meets (s : State) : Event → Prop
  | .start offset => s.startD = none → k.start s.toFlow offset
  | .stop o | .shutdown o => ∀ e ∈ o.request, Resets cfg e → k.reset
  | .offsetResult (.ok responses) => k.answer s.toFlow responses
  | .fetchResult (.ok responses) =>
    match s.requestD with
    | some (.fetch o) => k.response s.toFlow o responses
    | _ => True
  | .fetchResult (.error e) => Resets cfg e → k.reset
  | .processorReturned (some r) _ => k.outcome s.toFlow r.toBool
  | .processorReturned none cancelled => s.ended = true → k.outcome s.toFlow cancelled.toBool
  | .processorFires r => k.outcome s.toFlow r.toBool
  | .resume o =>
    (∀ e ∈ o.request, Resets cfg e → k.reset) ∧
      match s.agenda with
      | [] => True
      | act :: _ => k.MeetsAct s o act
  | _ => True

section Decidable

variable [∀ f o, Decidable (k.start f o)] [∀ f l, Decidable (k.answer f l)] [Decidable k.reset]
  [∀ f o l, Decidable (k.response f o l)] [∀ f b, Decidable (k.outcome f b)]

instance decidableActive : (r : Option Pending) → Decidable (Active r)
  | some .offset => .isTrue (.inl rfl)
  | some (.fetch o) => .isTrue (.inr ⟨o, rfl⟩)
  | some .fetched | none => .isFalse (by simp [Active])

instance decidableResets (cfg : Config) (e : Exc) : Decidable (Resets cfg e) :=
  inferInstanceAs (Decidable (_ ∧ _))

instance Cond.decidableMeetsAct (s : State) (o : CancelOutcome) : (a : Act) → Decidable (k.MeetsAct s o a)
  | .fetchError e => inferInstanceAs (Decidable (Resets cfg e → k.reset))
  | .stopping .processor _ => inferInstanceAs (Decidable (s.processorD = true → k.outcome s.toFlow o.processor.toBool))
  | .stopping .block _ | .stopping .retry _ | .stopping .commits _ | .stopping .commitReq _ | .stopping .commitCall _
  | .stopping .looper _ | .stopping .finish _ | .user | .processor | .gen | .retryFetch | .startLooper | .shutdownEnd _
  | .commitAndStop | .deliver _ _ => .isTrue trivial

instance Cond.decidableMeets (s : State) : (e : Event) → Decidable (k.Meets s e)
  | .start offset => inferInstanceAs (Decidable (s.startD = none → k.start s.toFlow offset))
  | .stop o | .shutdown o => inferInstanceAs (Decidable (∀ e ∈ o.request, Resets cfg e → k.reset))
  | .offsetResult (.ok responses) => inferInstanceAs (Decidable (k.answer s.toFlow responses))
  | .fetchResult (.ok responses) =>
    match h : s.requestD with
    | some (.fetch o) => decidable_of_iff (k.response s.toFlow o responses) (by simp [Cond.Meets, h])
    | some .offset | some .fetched | none => .isTrue (by simp [Cond.Meets, h])
  | .fetchResult (.error e) => inferInstanceAs (Decidable (Resets cfg e → k.reset))
  | .processorReturned (some r) _ => inferInstanceAs (Decidable (k.outcome s.toFlow r.toBool))
  | .processorReturned none cancelled =>
    inferInstanceAs (Decidable (s.ended = true → k.outcome s.toFlow cancelled.toBool))
  | .processorFires r => inferInstanceAs (Decidable (k.outcome s.toFlow r.toBool))
  | .resume o =>
    match h : s.agenda with
    | [] => decidable_of_iff (∀ e ∈ o.request, Resets cfg e → k.reset) (by simp [Cond.Meets, h])
    | act :: _ =>
      decidable_of_iff ((∀ e ∈ o.request, Resets cfg e → k.reset) ∧ k.MeetsAct s o act) (by simp [Cond.Meets, h])
  | .offsetResult (.error _) | .commit | .cancelStart | .retryTimer | .commitTimer | .strayTimer _ | .commitTick
  | .strayTick _ | .commitResult _ => .isTrue trivial

end Decidable

/-! ## Moves -/

def request (fetchOffset : Int) : Pending :=
  if special fetchOffset ∨ fetchOffset = OFFSET_COMMITTED then .offset else .fetch fetchOffset

def Flow.read (cfg : Config) (f : Flow) (responses : List FetchResponse) : Flow :=
  let (messages, fetchOffset, _) := readResponses cfg f.fetchOffset responses
  { f with requestD := none, fetchOffset := fetchOffset, gen := some ⟨messages, 0, 0, .limbo⟩ }

def Flow.call (cfg : Config) (f : Flow) (messages : List OffsetAndMessage) : Flow :=
  { f with
    gen := some ⟨restOf cfg messages, f.blocks.length, lastOffset (blockOf cfg messages), .calling⟩
    blocks := f.blocks ++ [⟨blockOf cfg messages, none⟩] }

inductive Move (f : Flow) : Flow → Prop
  | start (offset : Int) (hend : f.ended = true) (hgen : f.gen = none) (hparked : f.parked = none)
    (hblock : f.msgBlockD = false) (hk : k.start f offset) :
    Move f { f with
      fetchOffset := offset
      blocks := []
      commits := []
      resolved := if special offset ∨ offset = OFFSET_COMMITTED then none else some offset
      ended := false }
  | ask (hreq : f.requestD = none) : Move f { f with requestD := some (request f.fetchOffset) }
  | fail (hreq : Active f.requestD) : Move f { f with requestD := none }
  | reset (offset : Int) (hk : k.reset) (hreq : f.requestD = none) (h : cfg.autoOffsetReset = some offset) :
    Move f { f with fetchOffset := offset }
  | resolve (offset : Int) (responses : List OffsetAnswer) (hreq : f.requestD = some .offset)
    (hk : k.answer f responses) (h : answered responses = some offset) :
    Move f { f with requestD := none, fetchOffset := offset, resolved := f.resolved <|> some offset }
  | unresolved (offset : Int) (hreq : f.requestD = some .offset) (h : special offset = true) :
    Move f { f with requestD := none, fetchOffset := offset }
  | park (offset : Int) (responses : List FetchResponse) (hreq : f.requestD = some (.fetch offset))
    (hblock : f.msgBlockD = true) (hk : k.response f offset responses) :
    Move f { f with requestD := some .fetched, parked := some responses }
  | read (offset : Int) (responses : List FetchResponse) (hreq : f.requestD = some (.fetch offset))
    (hgen : f.gen = none) (hparked : f.parked = none) (hblock : f.msgBlockD = false)
    (hk : k.response f offset responses) : Move f (f.read cfg responses)
  | forget (g : Gen) (hgen : f.gen = some g) (hphase : g.phase = .limbo) (hblock : f.msgBlockD = false)
    (h : g.rest = [] ∨ f.shuttingdown = true) : Move f { f with gen := none }
  | begin (g : Gen) (hgen : f.gen = some g) (hphase : g.phase = .limbo) (hrest : g.rest ≠ [])
    (hshut : f.shuttingdown = false) : Move f (Flow.call cfg { f with msgBlockD := true } g.rest)
  | hand (g : Gen) (hgen : f.gen = some g) (hphase : g.phase = .check ∨ g.phase = .loop) (hrest : g.rest ≠ [])
    (hshut : f.shuttingdown = false) : Move f (f.call cfg g.rest)
  | wait (g : Gen) (shutdownWaits : Bool) (hgen : f.gen = some g)
    (hphase : g.phase = .calling ∨ ∃ b, g.phase = .waiting b) :
    Move f { f with gen := some { g with phase := .waiting shutdownWaits } }
  | done (g : Gen) (ok : Bool) (phase : Phase) (hgen : f.gen = some g)
    (hphase : g.phase = .calling ∨ ∃ b, g.phase = .waiting b) (hk : k.outcome f ok)
    (hnext : phase = .check ∨ phase = .loop ∨ phase = .break) :
    Move f { f with
      gen := some { g with phase := phase }
      blocks := setOutcome f.blocks g.block ok
      lastProcessedOffset := if ok then some g.last else f.lastProcessedOffset }
  | commit (offset : Int) (h : f.lastProcessedOffset = some offset) : Move f { f with commits := f.commits ++ [offset] }
  | finish (g : Gen) (hgen : f.gen = some g) (hphase : g.phase = .check ∨ g.phase = .loop ∨ g.phase = .break)
    (hparked : f.parked = none) (h : g.rest = [] ∨ f.shuttingdown = true ∨ f.ended = true) :
    Move f { f with gen := none, msgBlockD := false }
  | finishParked (g : Gen) (responses : List FetchResponse) (hgen : f.gen = some g)
    (hphase : g.phase = .check ∨ g.phase = .loop ∨ g.phase = .break) (hparked : f.parked = some responses)
    (hend : f.ended = false) (h : g.rest = [] ∨ f.shuttingdown = true) :
    Move f (Flow.read cfg { f with msgBlockD := false, parked := none } responses)
  | die (g : Gen) (hgen : f.gen = some g) (hphase : g.phase = .check ∨ g.phase = .loop)
    (hblock : f.ended = false → f.msgBlockD = true) : Move f { f with gen := none }
  | stop : Move f { f with ended := true, msgBlockD := false, parked := none }
  | stopLater (hparked : f.parked = none) : Move f { f with ended := true }
  | dropBlock (hend : f.ended = true) : Move f { f with msgBlockD := false, parked := none }
  | shutdown : Move f { f with shuttingdown := true }
  | reopen (hend : f.ended = true) : Move f { f with shuttingdown := false }

abbrev Moves : Flow → Flow → Prop := Relation.ReflTransGen (Move k)

/-! ## The agenda -/

def Act.isStop : Act → Bool
  | .stopping _ _ | .shutdownEnd _ => true
  | _ => false

/-- The end of `_handle_fetch_response`, after which the next fetch is scheduled. -/
def Act.isTail : Act → Bool
  | .retryFetch | .fetchError _ => true
  | _ => false

def Act.plain : Act → Bool
  | .user | .startLooper | .commitAndStop | .deliver _ _ => true
  | _ => false

/-- The order of the stages of `stop` in which the block, the processor and the retry are cancelled. -/
def StopStage.rank : StopStage → Nat
  | .block => 0
  | .processor => 1
  | .retry => 2
  | _ => 3

def StopDue (agenda : List Act) (n : Nat) : Prop := ∃ stage after, .stopping stage after ∈ agenda ∧ stage.rank ≤ n

def RetryActive (s : State) : Prop := ∃ delay, s.retryCall = some ⟨true, delay⟩

def BlockDue (s : State) : Prop := s.ended = true → s.msgBlockD = true → StopDue s.agenda 0

def InBlock (s : State) : Prop := s.ended = false → s.msgBlockD = true

def OutOfBlock (s : State) : Prop := s.ended = false → s.startD = some false → s.msgBlockD = false

/-- What the agenda owes to the generator. -/
def GenOk (s : State) : Prop :=
  match s.gen with
  | none => s.processorD = false ∧ BlockDue s ∧ OutOfBlock s
  | some g =>
    match g.phase with
    | .limbo => .gen ∈ s.agenda ∧ s.processorD = false ∧ ¬ Active s.requestD ∧ s.msgBlockD = false
    | .calling => .processor ∈ s.agenda ∧ s.processorD = false ∧ InBlock s
    | .waiting _ => s.processorD = true ∧ (s.ended = true → StopDue s.agenda 1) ∧ InBlock s ∧ BlockDue s
    | .check => .gen ∈ s.agenda ∧ s.processorD = false ∧ InBlock s
    | .loop => .gen ∈ s.agenda ∧ s.processorD = false ∧ InBlock s ∧ BlockDue s
    | .break => .gen ∈ s.agenda ∧ s.processorD = false ∧ s.ended = true

/-- The consumer goes on: a request is out or scheduled, or a response waits for the processor. -/
def Going (s : State) : Prop :=
  s.ended = false → s.startD = some false → s.shuttingdown = false →
    Active s.requestD ∨ RetryActive s ∨ (s.parked.isSome ∧ s.gen.isSome) ∨ ∃ a ∈ s.agenda, a.isTail = true

structure Core (s : State) : Prop where
  flags : s.ended = true ↔ s.stopping = true ∨ s.startD = none
  stopped : s.startD = none → s.stopping = false
  retry : s.ended = true → RetryActive s → StopDue s.agenda 2
  stopFrames : ∀ a ∈ s.agenda, a.isStop = true → s.ended = true
  tail : ∀ a ∈ s.agenda, a.isTail = true → s.requestD = none
  parked : s.parked.isSome → s.msgBlockD = true ∧ s.requestD = some .fetched ∧ s.ended = false
  parkedSmooth : k.live → ∀ l, s.parked = some l → smooth cfg l
  idle : k.live → s.ended = false → ∀ call, s.retryCall = some call → call.active = true ∧ s.requestD = none

structure Tidy (s : State) : Prop extends Core k s where
  going : k.live → Going s
  gen : GenOk s

variable {k} in
theorem Core.frame {s t : State} (h : Core k s)
    (heq : (t.requestD, t.ended, t.parked, t.msgBlockD, t.stopping, t.startD, t.retryCall, t.agenda) =
      (s.requestD, s.ended, s.parked, s.msgBlockD, s.stopping, s.startD, s.retryCall, s.agenda)) : Core k t := by
  simp only [Prod.mk.injEq] at heq
  obtain ⟨hreq, hend, hparked, hblock, hstop, hstart, hretry, hagenda⟩ := heq
  have hactive : RetryActive t ↔ RetryActive s := by unfold RetryActive; rw [hretry]
  constructor
  · rw [hend, hstop, hstart]; exact h.flags
  · rw [hstart, hstop]; exact h.stopped
  · rw [hend, hactive, hagenda]; exact h.retry
  · rw [hagenda, hend]; exact h.stopFrames
  · rw [hagenda, hreq]; exact h.tail
  · rw [hparked, hblock, hreq, hend]; exact h.parked
  · rw [hparked]; exact h.parkedSmooth
  · rw [hend, hretry, hreq]; exact h.idle

/-- A step that meets the condition keeps the state tidy, and is a sequence of moves. -/
def Good (s t : State) : Prop := Tidy k t ∧ Moves k s.toFlow t.toFlow

/-! ## What leaves the flow alone -/

structure Quiet (s t : State) : Prop where
  flow : ∃ l, t.toFlow = { s.toFlow with commits := s.commits ++ l } ∧ ∀ o ∈ l, s.lastProcessedOffset = some o
  startD : t.startD = s.startD ∨ s.startD = some false ∧ t.startD = some true
  stopping : t.stopping = s.stopping
  retryCall : t.retryCall = s.retryCall
  processorD : t.processorD = s.processorD
  agenda : ∃ acts, t.agenda = acts ++ s.agenda ∧ ∀ a ∈ acts, a.plain = true

theorem Quiet.of_eq {s t : State} (hflow : t.toFlow = s.toFlow) (hstart : t.startD = s.startD)
    (hstop : t.stopping = s.stopping) (hretry : t.retryCall = s.retryCall) (hproc : t.processorD = s.processorD)
    (hagenda : t.agenda = s.agenda) : Quiet s t :=
  ⟨⟨[], by simp [hflow], by simp⟩, .inl hstart, hstop, hretry, hproc, [], hagenda, by simp⟩

theorem Quiet.refl (s : State) : Quiet s s := .of_eq rfl rfl rfl rfl rfl rfl

theorem Quiet.called {s : State} (h : s.startD = some false) : Quiet s { s with startD := some true } :=
  ⟨⟨[], by simp, by simp⟩, .inr ⟨h, rfl⟩, rfl, rfl, rfl, [], rfl, by simp⟩

theorem Quiet.trans {s t u : State} (h : Quiet s t) (h' : Quiet t u) : Quiet s u := by
  obtain ⟨l, hl, hmem⟩ := h.flow
  obtain ⟨l', hl', hmem'⟩ := h'.flow
  obtain ⟨acts, ha, hplain⟩ := h.agenda
  obtain ⟨acts', ha', hplain'⟩ := h'.agenda
  refine ⟨⟨l ++ l', ?_, ?_⟩, ?_, h'.stopping.trans h.stopping, h'.retryCall.trans h.retryCall,
    h'.processorD.trans h.processorD, acts' ++ acts, ?_, ?_⟩
  · rw [hl', hl, List.append_assoc]
  · intro o ho
    rw [hl] at hmem'
    exact (List.mem_append.mp ho).elim (hmem o) (hmem' o)
  · obtain h1 | ⟨h1, h2⟩ := h.startD
    · rw [← h1]; exact h'.startD
    · obtain h3 | ⟨h3, _⟩ := h'.startD
      · exact .inr ⟨h1, h3.trans h2⟩
      · exact absurd (h3.symm.trans h2) (by decide)
  · rw [ha', ha, List.append_assoc]
  · intro a ha
    exact (List.mem_append.mp ha).elim (hplain' a) (hplain a)

theorem Moves.commits (f : Flow) (l : List Int) (h : ∀ o ∈ l, f.lastProcessedOffset = some o) :
    Moves k f { f with commits := f.commits ++ l } := by
  induction l generalizing f with
  | nil => simpa using Relation.ReflTransGen.refl
  | cons o l ih =>
    have hrest := ih { f with commits := f.commits ++ [o] } fun o' ho => h o' (List.mem_cons_of_mem _ ho)
    refine .head (.commit o (h o List.mem_cons_self)) ?_
    simpa using hrest

variable {k} {s t : State}

theorem Quiet.moves (h : Quiet s t) : Moves k s.toFlow t.toFlow := by
  obtain ⟨l, hl, hmem⟩ := h.flow
  rw [hl]
  exact Moves.commits k s.toFlow l hmem

theorem StopDue.append {agenda : List Act} {n : Nat} (h : StopDue agenda n) (acts : List Act) :
    StopDue (acts ++ agenda) n := by
  obtain ⟨stage, after, hmem, hrank⟩ := h
  exact ⟨stage, after, List.mem_append_right _ hmem, hrank⟩

theorem Act.plain_not_stop {a : Act} (h : a.plain = true) : a.isStop = false := by
  cases a <;> simp_all [Act.plain, Act.isStop]

theorem Act.plain_not_tail {a : Act} (h : a.plain = true) : a.isTail = false := by
  cases a <;> simp_all [Act.plain, Act.isTail]

theorem Quiet.ended (h : Quiet s t) : t.ended = s.ended := by
  obtain ⟨l, hl, -⟩ := h.flow
  rw [hl]

theorem Quiet.shuttingdown (h : Quiet s t) : t.shuttingdown = s.shuttingdown := by
  obtain ⟨l, hl, -⟩ := h.flow
  rw [hl]

theorem Quiet.requestD (h : Quiet s t) : t.requestD = s.requestD := by
  obtain ⟨l, hl, -⟩ := h.flow
  rw [hl]

theorem Quiet.parked (h : Quiet s t) : t.parked = s.parked := by
  obtain ⟨l, hl, -⟩ := h.flow
  rw [hl]

theorem Quiet.msgBlockD (h : Quiet s t) : t.msgBlockD = s.msgBlockD := by
  obtain ⟨l, hl, -⟩ := h.flow
  rw [hl]

theorem Quiet.gen (h : Quiet s t) : t.gen = s.gen := by
  obtain ⟨l, hl, -⟩ := h.flow
  rw [hl]

theorem Quiet.startD_none (h : Quiet s t) : t.startD = none ↔ s.startD = none := by
  obtain h1 | ⟨h1, h2⟩ := h.startD
  · rw [h1]
  · simp [h1, h2]

theorem RetryActive.quiet (h : Quiet s t) : RetryActive t ↔ RetryActive s := by
  unfold RetryActive
  rw [h.retryCall]

theorem Core.quiet (h : Core k s) (hq : Quiet s t) : Core k t := by
  obtain ⟨acts, ha, hplain⟩ := hq.agenda
  constructor
  · rw [hq.ended, hq.stopping, hq.startD_none]; exact h.flags
  · rw [hq.startD_none, hq.stopping]; exact h.stopped
  · rw [hq.ended, RetryActive.quiet hq, ha]
    exact fun he hr => (h.retry he hr).append _
  · intro a hmem hstop
    rw [hq.ended]
    rw [ha] at hmem
    obtain hmem | hmem := List.mem_append.mp hmem
    · exact absurd hstop (by simp [Act.plain_not_stop (hplain a hmem)])
    · exact h.stopFrames a hmem hstop
  · intro a hmem htail
    rw [hq.requestD]
    rw [ha] at hmem
    obtain hmem | hmem := List.mem_append.mp hmem
    · exact absurd htail (by simp [Act.plain_not_tail (hplain a hmem)])
    · exact h.tail a hmem htail
  · rw [hq.parked, hq.msgBlockD, hq.requestD, hq.ended]; exact h.parked
  · rw [hq.parked]; exact h.parkedSmooth
  · rw [hq.ended, hq.retryCall, hq.requestD]; exact h.idle

theorem Going.quiet (h : Going s) (hq : Quiet s t) : Going t := by
  obtain ⟨acts, ha, -⟩ := hq.agenda
  intro hend hstart hshut
  obtain hs | ⟨-, hs⟩ := hq.startD
  · rw [hq.requestD, RetryActive.quiet hq, hq.parked, hq.gen, ha]
    obtain h | h | h | ⟨a, hmem, htail⟩ := h (hq.ended ▸ hend) (hs ▸ hstart) (hq.shuttingdown ▸ hshut)
    · exact .inl h
    · exact .inr (.inl h)
    · exact .inr (.inr (.inl h))
    · exact .inr (.inr (.inr ⟨a, List.mem_append_right _ hmem, htail⟩))
  · rw [hs] at hstart
    exact absurd hstart (by decide)

theorem BlockDue.quiet (h : BlockDue s) (hq : Quiet s t) : BlockDue t := by
  obtain ⟨acts, ha, -⟩ := hq.agenda
  unfold BlockDue
  rw [hq.ended, hq.msgBlockD, ha]
  exact fun he hb => (h he hb).append _

theorem InBlock.quiet (h : InBlock s) (hq : Quiet s t) : InBlock t := by
  unfold InBlock
  rw [hq.ended, hq.msgBlockD]
  exact h

theorem OutOfBlock.quiet (h : OutOfBlock s) (hq : Quiet s t) : OutOfBlock t := by
  unfold OutOfBlock
  rw [hq.ended, hq.msgBlockD]
  intro hend hstart
  obtain hs | ⟨-, hs⟩ := hq.startD
  · exact h hend (hs ▸ hstart)
  · exact absurd (hs.symm.trans hstart) (by decide)

theorem GenOk.quiet (h : GenOk s) (hq : Quiet s t) : GenOk t := by
  obtain ⟨acts, ha, -⟩ := hq.agenda
  have hmem {a : Act} (h : a ∈ s.agenda) : a ∈ t.agenda := by
    rw [ha]; exact List.mem_append_right _ h
  unfold GenOk at h ⊢
  rw [hq.gen, hq.processorD, hq.ended, hq.requestD, hq.msgBlockD]
  cases hg : s.gen with
  | none =>
    rw [hg] at h
    exact ⟨h.1, h.2.1.quiet hq, h.2.2.quiet hq⟩
  | some g =>
    simp only [hg] at h ⊢
    cases hphase : g.phase with
    | limbo => rw [hphase] at h; exact ⟨hmem h.1, h.2⟩
    | calling => rw [hphase] at h; exact ⟨hmem h.1, h.2.1, h.2.2.quiet hq⟩
    | waiting b =>
      rw [hphase] at h
      refine ⟨h.1, fun he => ?_, h.2.2.1.quiet hq, h.2.2.2.quiet hq⟩
      rw [ha]; exact (h.2.1 he).append _
    | check => rw [hphase] at h; exact ⟨hmem h.1, h.2.1, h.2.2.quiet hq⟩
    | loop => rw [hphase] at h; exact ⟨hmem h.1, h.2.1, h.2.2.1.quiet hq, h.2.2.2.quiet hq⟩
    | «break» => rw [hphase] at h; exact ⟨hmem h.1, h.2⟩

theorem Tidy.of_quiet (h : Tidy k s) (hq : Quiet s t) : Tidy k t :=
  ⟨h.toCore.quiet hq, fun hl => (h.going hl).quiet hq, h.gen.quiet hq⟩

theorem Tidy.quiet (h : Tidy k s) (hq : Quiet s t) : Good k s t := ⟨h.of_quiet hq, hq.moves⟩

theorem Good.trans {u : State} (h : Good k s t) (h' : Good k t u) : Good k s u := ⟨h'.1, h.2.trans h'.2⟩

theorem Good.refl (h : Tidy k s) : Good k s s := ⟨h, .refl⟩

/-! ## The steps -/

/-- What a step does, and the guards that it has passed. -/
inductive Takes (cfg : Config) (s : State) : Event → State → Prop
  | start (offset : Int) (hagenda : s.agenda = []) (hstart : s.startD = none) :
    Takes cfg s (.start offset) (start cfg s offset)
  | startAgain (offset : Int) (hagenda : s.agenda = []) (hstart : s.startD ≠ none) : Takes cfg s (.start offset) s
  | stop (o : CancelOutcome) (hturn : userTurn s = true) : Takes cfg s (.stop o) (stop cfg s o none)
  | shutdown (o : CancelOutcome) (hturn : userTurn s = true) : Takes cfg s (.shutdown o) (shutdown cfg s o)
  | commit (hturn : userTurn s = true) : Takes cfg s .commit (commit cfg s .user .user).1
  | cancelStart (hturn : userTurn s = true) (hstart : s.startD = some false) :
    Takes cfg s .cancelStart { s with startD := some true, startCancelled := true }
  | cancelAgain (hturn : userTurn s = true) (hstart : s.startD = some true) : Takes cfg s .cancelStart s
  | retryTimer (delay : Rat) (hagenda : s.agenda = []) (hcall : s.retryCall = some ⟨true, delay⟩) :
    Takes cfg s .retryTimer (doFetch cfg { s with retryCall := some ⟨false, delay⟩ })
  | commitTimer (delay : Rat) (attempt : Nat) (hagenda : s.agenda = [])
    (hcall : s.commitCall = some ⟨true, delay, attempt⟩) : Takes cfg s .commitTimer
      (sendCommitRequest { s with commitCall := some ⟨false, delay, attempt⟩ } delay attempt).1
  | strayTimer (i : Nat) (c : CommitCall) (hagenda : s.agenda = []) (hc : s.strayCalls[i]? = some c) :
    Takes cfg s (.strayTimer i)
      (sendCommitRequest { s with strayCalls := s.strayCalls.eraseIdx i } c.retryDelay c.attempt).1
  | commitTick (watched : Bool) (hagenda : s.agenda = []) (hlooper : s.commitLooper = some ⟨true, watched⟩)
    (hraised : (autoCommit cfg s false).2 = none) : Takes cfg s .commitTick (autoCommit cfg s false).1
  | commitTickRaises (watched : Bool) (e : Exc) (hagenda : s.agenda = [])
    (hlooper : s.commitLooper = some ⟨true, watched⟩) (hraised : (autoCommit cfg s false).2 = some e) :
    Takes cfg s .commitTick { (autoCommit cfg s false).1 with commitLooper := some ⟨watched, false⟩ }
  | strayTick (i : Nat) (watched : Bool) (hagenda : s.agenda = []) (hlooper : s.strayLoopers[i]? = some watched)
    (hraised : (autoCommit cfg s false).2 = none) : Takes cfg s (.strayTick i) (autoCommit cfg s false).1
  | strayTickRaises (i : Nat) (watched : Bool) (e : Exc) (hagenda : s.agenda = [])
    (hlooper : s.strayLoopers[i]? = some watched) (hraised : (autoCommit cfg s false).2 = some e) :
    Takes cfg s (.strayTick i) { (autoCommit cfg s false).1 with
      strayLoopers := (autoCommit cfg s false).1.strayLoopers.eraseIdx i
      commitLooper := if watched then
          (autoCommit cfg s false).1.commitLooper.map fun l => if l.running then l else ⟨true, false⟩
        else (autoCommit cfg s false).1.commitLooper }
  | offsetResult (responses : List OffsetAnswer) (hreq : s.requestD = some .offset) (hturn : answerTurn s = true) :
    Takes cfg s (.offsetResult (.ok responses)) (handleOffsetResponse cfg s responses)
  | offsetError (e : Exc) (hreq : s.requestD = some .offset) (hturn : failureTurn s = true) :
    Takes cfg s (.offsetResult (.error e)) (handleOffsetError cfg s e)
  | fetchResult (offset : Int) (responses : List FetchResponse) (hreq : s.requestD = some (.fetch offset))
    (hturn : answerTurn s = true) :
    Takes cfg s (.fetchResult (.ok responses)) (handleFetchResponse cfg s responses)
  | fetchError (offset : Int) (e : Exc) (hreq : s.requestD = some (.fetch offset)) (hturn : failureTurn s = true) :
    Takes cfg s (.fetchResult (.error e)) (handleFetchError cfg s e)
  | commitResult (r : Except Exc Unit) (req : CommitReq) (hreq : s.commitReq = some req) :
    Takes cfg s (.commitResult r) (commitDone cfg s req r)
  | processorReturned (r : Option Outcome) (cancelled : Outcome) (agenda : List Act) (g : Gen)
    (hagenda : s.agenda = .processor :: agenda) (hg : s.gen = some g) (hphase : g.phase = .calling) :
    Takes cfg s (.processorReturned r cancelled) (processorReturned cfg { s with agenda := agenda } g r cancelled)
  | processorFires (r : Outcome) (g : Gen) (b : Bool) (hg : s.gen = some g) (hphase : g.phase = .waiting b) :
    Takes cfg s (.processorFires r) (processorFires cfg s g b r)
  | resume (o : CancelOutcome) (a : Act) (agenda : List Act) (ha : a ≠ .processor) (hagenda : s.agenda = a :: agenda) :
    Takes cfg s (.resume o) (runAct cfg { s with agenda := agenda } o a)

theorem takes_of_step {cfg : Config} {s t : State} {e : Event} (h : step cfg s e = some t) : Takes cfg s e t := by
  cases e with
  | start offset =>
    simp only [step, Option.ite_none_right_eq_some, Option.some.injEq, List.isEmpty_iff] at h
    obtain ⟨hagenda, rfl⟩ := h
    split
    · next hstart => exact .startAgain offset hagenda (Option.isSome_iff_ne_none.mp hstart)
    · next hstart => exact .start offset hagenda (by simpa using hstart)
  | stop o =>
    simp only [step, Option.ite_none_right_eq_some, Option.some.injEq] at h
    obtain ⟨hturn, rfl⟩ := h
    exact .stop o hturn
  | shutdown o =>
    simp only [step, Option.ite_none_right_eq_some, Option.some.injEq] at h
    obtain ⟨hturn, rfl⟩ := h
    exact .shutdown o hturn
  | commit =>
    simp only [step, Option.ite_none_right_eq_some, Option.some.injEq] at h
    obtain ⟨hturn, rfl⟩ := h
    exact .commit hturn
  | cancelStart =>
    simp only [step, Option.ite_none_right_eq_some] at h
    obtain ⟨hturn, h⟩ := h
    split at h
    · next hstart =>
      obtain rfl := Option.some.inj h
      exact .cancelStart hturn hstart
    · next hstart =>
      obtain rfl := Option.some.inj h
      exact .cancelAgain hturn hstart
    · cases h
  | retryTimer =>
    simp only [step] at h
    split at h
    · next delay hagenda hcall =>
      obtain rfl := Option.some.inj h
      exact .retryTimer delay hagenda hcall
    · cases h
  | commitTimer =>
    simp only [step] at h
    split at h
    · next delay attempt hagenda hcall =>
      obtain rfl := Option.some.inj h
      exact .commitTimer delay attempt hagenda hcall
    · cases h
  | strayTimer i =>
    simp only [step] at h
    split at h
    · next c hagenda hc =>
      obtain rfl := Option.some.inj h
      exact .strayTimer i c hagenda hc
    · cases h
  | commitTick =>
    simp only [step] at h
    split at h
    · next watched hagenda hlooper =>
      split at h
      · next u heq =>
        obtain rfl := Option.some.inj h
        obtain rfl : (autoCommit cfg s false).1 = u := by rw [heq]
        exact .commitTick watched hagenda hlooper (by rw [heq])
      · next u e heq =>
        obtain rfl := Option.some.inj h
        obtain rfl : (autoCommit cfg s false).1 = u := by rw [heq]
        exact .commitTickRaises watched e hagenda hlooper (by rw [heq])
    · cases h
  | strayTick i =>
    simp only [step] at h
    split at h
    · next watched hagenda hlooper =>
      split at h
      · next u heq =>
        obtain rfl := Option.some.inj h
        obtain rfl : (autoCommit cfg s false).1 = u := by rw [heq]
        exact .strayTick i watched hagenda hlooper (by rw [heq])
      · next u e heq =>
        obtain rfl := Option.some.inj h
        obtain rfl : (autoCommit cfg s false).1 = u := by rw [heq]
        exact .strayTickRaises i watched e hagenda hlooper (by rw [heq])
    · cases h
  | offsetResult r =>
    simp only [step] at h
    split at h
    · next responses hreq =>
      simp only [Option.ite_none_right_eq_some, Option.some.injEq] at h
      obtain ⟨hturn, rfl⟩ := h
      exact .offsetResult responses hreq hturn
    · next e hreq =>
      simp only [Option.ite_none_right_eq_some, Option.some.injEq] at h
      obtain ⟨hturn, rfl⟩ := h
      exact .offsetError e hreq hturn
    · cases h
  | fetchResult r =>
    simp only [step] at h
    split at h
    · next offset responses hreq =>
      simp only [Option.ite_none_right_eq_some, Option.some.injEq] at h
      obtain ⟨hturn, rfl⟩ := h
      exact .fetchResult offset responses hreq hturn
    · next offset e hreq =>
      simp only [Option.ite_none_right_eq_some, Option.some.injEq] at h
      obtain ⟨hturn, rfl⟩ := h
      exact .fetchError offset e hreq hturn
    · cases h
  | commitResult r =>
    simp only [step] at h
    split at h
    · next req hreq =>
      obtain rfl := Option.some.inj h
      exact .commitResult r req hreq
    · cases h
  | processorReturned r cancelled =>
    simp only [step] at h
    split at h
    · next agenda g hagenda hg =>
      simp only [Option.ite_none_right_eq_some, Option.some.injEq] at h
      obtain ⟨hphase, rfl⟩ := h
      exact .processorReturned r cancelled agenda g hagenda hg hphase
    · cases h
  | processorFires r =>
    simp only [step] at h
    split at h
    · next g hg =>
      split at h
      · next b hphase =>
        obtain rfl := Option.some.inj h
        exact .processorFires r g b hg hphase
      · cases h
    · cases h
  | resume o =>
    simp only [step] at h
    split at h
    · cases h
    · cases h
    · next a agenda hnot hagenda =>
      obtain rfl := Option.some.inj h
      exact .resume o a agenda (fun heq => hnot heq) hagenda

end Afkak.Consumer
