import Afkak.Consumer.Requests

/-!
# Responses and blocks

The functions that read a response and that give its messages to the processor, one lemma for each.
-/

open Lib

namespace Afkak.Consumer

variable {cfg : Config} {k : Cond cfg} {s t : State} {g : Gen}

/-! ## The agenda grows -/

theorem Core.push (h : Core k s) (acts : List Act)
    (hstop : ∀ a ∈ acts, a.isStop = true → s.ended = true) (htail : ∀ a ∈ acts, a.isTail = true → s.requestD = none) :
    Core k (s.push acts) where
  flags := h.flags
  stopped := h.stopped
  retry := fun he hr => (h.retry he hr).append acts
  stopFrames := fun a hmem => (List.mem_append.mp hmem).elim (hstop a) (h.stopFrames a)
  tail := fun a hmem => (List.mem_append.mp hmem).elim (htail a) (h.tail a)
  parked := h.parked
  parkedSmooth := h.parkedSmooth
  idle := h.idle

theorem Going.push (h : Going s) (acts : List Act) : Going (s.push acts) := by
  intro hend hstart hshut
  obtain h | h | h | ⟨a, hmem, htail⟩ := h hend hstart hshut
  · exact .inl h
  · exact .inr (.inl h)
  · exact .inr (.inr (.inl h))
  · exact .inr (.inr (.inr ⟨a, List.mem_append_right _ hmem, htail⟩))

theorem Going.setGen (h : Going s) (g : Gen) : Going { s with gen := some g } := by
  intro hend hstart hshut
  obtain h | h | h | h := h hend hstart hshut
  · exact .inl h
  · exact .inr (.inl h)
  · exact .inr (.inr (.inl ⟨h.1, rfl⟩))
  · exact .inr (.inr (.inr h))

theorem BlockDue.push (h : BlockDue s) (acts : List Act) : BlockDue (s.push acts) :=
  fun he hb => (h he hb).append acts

/-! ## The processor is called -/

theorem callProcessor_tidy (h : Core k s) (hgoing : k.live → Going s) (hproc : s.processorD = false)
    (hblock : InBlock s)
    (messages : List OffsetAndMessage) : Tidy k (callProcessor cfg s messages) := by
  have hcore := h.push [.processor] (by simp [Act.isStop]) (by simp [Act.isTail])
  exact ⟨hcore.frame rfl, fun hl => ((hgoing hl).push [.processor]).setGen _, List.mem_cons_self, hproc, hblock⟩

theorem processMessages_good (h : Core k s) (hgoing : k.live → Going s) (hgen : s.gen = none)
    (hproc : s.processorD = false) (hblock : s.msgBlockD = false) (messages : List OffsetAndMessage)
    (block : Nat) (last : Int) :
    Tidy k (processMessages cfg s messages) ∧
      Moves k { s.toFlow with gen := some ⟨messages, block, last, .limbo⟩ }
      (processMessages cfg s messages).toFlow := by
  have hsame : Tidy k s := by
    refine ⟨h, hgoing, ?_⟩
    unfold GenOk
    rw [hgen]
    exact ⟨hproc, fun _ hb => absurd (hb.symm.trans hblock) (by decide), fun _ _ => hblock⟩
  have hforget (hor : messages = [] ∨ s.shuttingdown = true) :
      Moves k { s.toFlow with gen := some ⟨messages, block, last, .limbo⟩ } s.toFlow := by
    have hmove : Move k { s.toFlow with gen := some ⟨messages, block, last, .limbo⟩ } { s.toFlow with gen := none } :=
      .forget _ rfl rfl hblock hor
    rw [← hgen] at hmove
    exact .single hmove
  unfold processMessages
  split
  · next hnil => exact ⟨hsame, hforget (.inl hnil)⟩
  split
  · next hshut =>
    have hs : { s with msgBlockD := false } = s := by rw [← hblock]
    rw [hs]
    exact ⟨hsame, hforget (.inr hshut)⟩
  · next hnil hshut =>
    have hparked : s.parked = none := by
      cases hp : s.parked with
      | none => rfl
      | some l => exact absurd ((h.parked (by simp [hp])).1.symm.trans hblock) (by decide)
    have hcore : Core k { s with msgBlockD := true } := ⟨h.flags, h.stopped, h.retry, h.stopFrames, h.tail,
      fun hp => by simp [hparked] at hp, h.parkedSmooth, h.idle⟩
    refine ⟨callProcessor_tidy hcore hgoing hproc (fun _ => rfl) messages, .single ?_⟩
    exact .begin ⟨messages, block, last, .limbo⟩ rfl rfl hnil (by simpa using hshut)

/-! ## A response is read -/

theorem readResponses_raised (cfg : Config) (offset : Int) (responses : List FetchResponse) :
    (readResponses cfg offset responses).2.2 = raised cfg responses := by
  induction responses generalizing offset with
  | nil => rfl
  | cons r rs ih =>
    unfold readResponses
    split
    · next hother =>
      rw [ih]
      simp [raised, hother]
    · next hown =>
      have hown : r.partition = cfg.partition := by simpa using hown
      dsimp only
      split
      · next hraises => simp [raised, hown, hraises]
      · next hraises =>
        dsimp only
        rw [ih]
        simp [raised, hown, hraises]

theorem readResponses_smooth {responses : List FetchResponse} (h : smooth cfg responses = true) (offset : Int) (e : Exc)
    (he : (readResponses cfg offset responses).2.2 = some e) : e = .consumerFetchSizeTooSmall := by
  rw [readResponses_raised] at he
  simpa [smooth, he] using h

structure Clear (k : Cond cfg) (s : State) : Prop where
  core : Core k { s with requestD := none }
  gen : s.gen = none
  block : s.msgBlockD = false
  processor : s.processorD = false

theorem Clear.processThen_good (h : Clear k s) {offset : Int} {messages : List OffsetAndMessage} {acts : List Act}
    (hstop : ∀ a ∈ acts, a.isStop = false)
    (hgoing : k.live → s.startD ≠ some false ∨ ∃ a ∈ acts, a.isTail = true) :
    Tidy k (processThen cfg { s with requestD := none, fetchOffset := offset } messages acts) ∧
      Moves k { s.toFlow with requestD := none, fetchOffset := offset, gen := some ⟨messages, 0, 0, .limbo⟩ }
        (processThen cfg { s with requestD := none, fetchOffset := offset } messages acts).toFlow := by
  have hcore : Core k { s with requestD := none, fetchOffset := offset } := h.core.frame rfl
  have hpush := hcore.push acts (fun a ha hs => absurd (hstop a ha) (by simp [hs])) (fun _ _ _ => rfl)
  refine processMessages_good hpush (fun hl hend hstart hshut => ?_) h.gen h.processor h.block messages 0 0
  obtain hnot | ⟨a, hmem, htail⟩ := hgoing hl
  · exact absurd hstart hnot
  · exact .inr (.inr (.inr ⟨a, List.mem_append_left _ hmem, htail⟩))

theorem escape_not_stop (direct : Bool) (e : Exc) : ∀ a ∈ escape direct e, a.isStop = false := by
  intro a ha
  cases direct with
  | false => simp [escape] at ha
  | true =>
    have ha : a = .fetchError e := by simpa [escape] using ha
    simp [ha, Act.isStop]

theorem escape_tail (e : Exc) : ∃ a ∈ escape true e, a.isTail = true :=
  ⟨.fetchError e, by simp [escape], rfl⟩

theorem errbackStart_raises {e : Exc} (h : errbackStart s = (t, some e)) : t = s.noteCall ∧ s.startD ≠ some false := by
  unfold errbackStart at h
  split at h
  · next hstart => exact ⟨(Prod.mk.inj h).1.symm, by simp [hstart]⟩
  · next hstart =>
    split at h
    · cases h
    · exact ⟨(Prod.mk.inj h).1.symm, by simp [hstart]⟩
  · cases h

theorem handleMessages_good (h : Clear k s) (responses : List FetchResponse) (direct : Bool)
    (hsmooth : k.live → direct = true ∨ smooth cfg responses = true) :
    Tidy k (handleMessages cfg s responses direct) ∧
      Moves k (s.toFlow.read cfg responses) (handleMessages cfg s responses direct).toFlow := by
  have hraised (e : Exc) (he : (readResponses cfg s.fetchOffset responses).2.2 = some e) (hl : k.live) :
      direct = true ∨ e = .consumerFetchSizeTooSmall :=
    (hsmooth hl).imp_right fun hs => readResponses_smooth hs s.fetchOffset e he
  unfold handleMessages Flow.read
  generalize readResponses cfg s.fetchOffset responses = read at hraised ⊢
  obtain ⟨messages, fetchOffset, raised⟩ := read
  dsimp only at hraised ⊢
  split
  · -- All is read.
    exact h.processThen_good (by simp [Act.isStop]) fun _ => .inr ⟨.retryFetch, by simp, rfl⟩
  · -- A message is too large for the buffer.
    split
    · next size _ =>
      have hclear : Clear k { s with bufferSize := size } := ⟨h.core.frame rfl, h.gen, h.block, h.processor⟩
      exact hclear.processThen_good (by simp [Act.isStop]) fun _ => .inr ⟨.retryFetch, by simp, rfl⟩
    · split
      · next e herr =>
        obtain ⟨rfl, hstart⟩ := errbackStart_raises herr
        have hclear : Clear k s.noteCall := ⟨h.core.frame rfl, h.gen, h.block, h.processor⟩
        exact hclear.processThen_good (escape_not_stop direct e) fun _ => .inl hstart
      · -- The callbacks of `start` run before the messages are processed.
        have hpush := h.core.push [.gen] (by simp [Act.isStop]) (by simp [Act.isTail])
        refine errbackStart_good (hpush.frame rfl) ?_
        exact ⟨by simp [State.push], h.processor, not_active_none, h.block⟩
  · next e hsmall =>
    refine h.processThen_good (escape_not_stop direct e) fun hl => .inr ?_
    obtain hdirect | he := hraised e rfl hl
    · rw [hdirect]; exact escape_tail e
    · exact absurd he hsmall

theorem Tidy.late (h : Tidy k s) (hturn : answerTurn s = true) (hend : s.ended = true) :
    s.gen = none ∧ s.processorD = false ∧ s.msgBlockD = false := by
  have hagenda : s.agenda = [] := by simpa [answerTurn, hend] using hturn
  have hno {n : Nat} : ¬ StopDue s.agenda n := by
    rintro ⟨stage, after, hmem, -⟩
    simp [hagenda] at hmem
  have hgen := h.gen
  unfold GenOk at hgen
  split at hgen
  · next hg => exact ⟨hg, hgen.1, by simpa using fun hb => hno (hgen.2.1 hend hb)⟩
  · split at hgen
    · simp [hagenda] at hgen
    · simp [hagenda] at hgen
    · exact (hno (hgen.2.1 hend)).elim
    · simp [hagenda] at hgen
    · simp [hagenda] at hgen
    · simp [hagenda] at hgen

theorem Tidy.clear (h : Tidy k s) (hreq : Active s.requestD) (hturn : answerTurn s = true)
    (hblock : s.msgBlockD = false) : Clear k s := by
  have hcore := h.clearRequest (h.parked_none_of_active hreq)
  by_cases hend : s.ended = true
  · obtain ⟨hgen, hproc, -⟩ := h.late hturn hend
    exact ⟨hcore, hgen, hblock, hproc⟩
  have hgen := h.gen
  have hno (hin : InBlock s) : False := absurd ((hin (by simpa using hend)).symm.trans hblock) (by decide)
  refine ⟨hcore, ?_, hblock, ?_⟩ <;> unfold GenOk at hgen <;> split at hgen
  · assumption
  · split at hgen
    · exact absurd hreq hgen.2.2.1
    · exact (hno hgen.2.2).elim
    · exact (hno hgen.2.2.1).elim
    · exact (hno hgen.2.2).elim
    · exact (hno hgen.2.2.1).elim
    · exact absurd hgen.2.2 hend
  · exact hgen.1
  · split at hgen
    · exact hgen.2.1
    · exact hgen.2.1
    · exact (hno hgen.2.2.1).elim
    · exact hgen.2.1
    · exact hgen.2.1
    · exact hgen.2.1

theorem handleFetchResponse_good (h : Tidy k s) {offset : Int} (hreq : s.requestD = some (.fetch offset))
    (hturn : answerTurn s = true) {responses : List FetchResponse} (hk : k.response s.toFlow offset responses) :
    Good k s (handleFetchResponse cfg s responses) := by
  have hactive : Active s.requestD := .inr ⟨offset, hreq⟩
  have hparked := h.parked_none_of_active hactive
  unfold handleFetchResponse
  dsimp only
  split
  · next hblock =>
    have hblock : s.msgBlockD = true := hblock
    have hend : s.ended = false := by
      by_contra hne
      have hlate := h.late hturn (by simpa using hne)
      exact absurd (hblock.symm.trans hlate.2.2) (by decide)
    have htail := h.no_tail (by simp [hreq])
    refine ⟨⟨⟨h.flags, h.stopped, h.retry, h.stopFrames, ?_, ?_, ?_, ?_⟩, ?_, ?_⟩, ?_⟩
    · exact fun a ha ht => absurd (htail a ha) (by simp [ht])
    · exact fun _ => ⟨hblock, rfl, hend⟩
    · intro hl l hsome
      have hl' : responses = l := by simpa using hsome
      exact hl' ▸ k.response_live hl _ _ _ hk hblock
    · intro hl _ call hcall
      exact absurd (h.idle hl hend call hcall).2 (by simp [hreq])
    · intro hl _ hstart _
      refine .inr (.inr (.inl ⟨rfl, ?_⟩))
      have hgen := h.gen
      unfold GenOk at hgen
      split at hgen
      · exact absurd ((hgen.2.2 hend hstart).symm.trans hblock) (by decide)
      · next hg => simp [resetRetry, hg]
    · exact h.gen.setRequest _ fun hactive => absurd hactive not_active_fetched
    · exact .single (.park offset responses hreq hblock hk)
  · next hblock =>
    have hblock : s.msgBlockD = false := by simpa [resetRetry] using hblock
    have hclear := h.clear hactive hturn hblock
    have hgood := handleMessages_good (s := resetRetry cfg s) ⟨hclear.core.frame rfl, hclear.gen, hclear.block,
      hclear.processor⟩ responses true fun _ => .inl rfl
    refine ⟨hgood.1, .head ?_ hgood.2⟩
    exact .read offset responses hreq hclear.gen hparked hblock hk

/-! ## The generator goes on -/

structure Ready (k : Cond cfg) (s : State) (g : Gen) : Prop where
  core : Core k s
  going : k.live → Going s
  gen : s.gen = some g
  processor : s.processorD = false
  block : InBlock s
  phase : g.phase = .check ∨ g.phase = .loop ∧ BlockDue s ∨ g.phase = .break ∧ s.ended = true

theorem Ready.quiet (h : Ready k s g) (hq : Quiet s t) : Ready k t g where
  core := h.core.quiet hq
  going := fun hl => (h.going hl).quiet hq
  gen := hq.gen.trans h.gen
  processor := hq.processorD.trans h.processor
  block := h.block.quiet hq
  phase := h.phase.imp_right (.imp (And.imp_right fun hd => hd.quiet hq) (And.imp_right hq.ended.trans))

theorem Ready.after (h : Ready k s g) : g.phase = .check ∨ g.phase = .loop ∨ g.phase = .break :=
  h.phase.imp_right (.imp And.left And.left)

theorem Core.parked_none_of_ended (h : Core k s) (hend : s.ended = true) : s.parked = none := by
  cases hp : s.parked with
  | none => rfl
  | some l => exact absurd ((h.parked (by simp [hp])).2.2.symm.trans hend) (by decide)

theorem Core.parked_none_of_block (h : Core k s) (hblock : s.msgBlockD = false) : s.parked = none := by
  cases hp : s.parked with
  | none => rfl
  | some l => exact absurd ((h.parked (by simp [hp])).1.symm.trans hblock) (by decide)

theorem Core.leaveBlock (h : Core k s) (hparked : s.parked = none) : Core k { s with msgBlockD := false } :=
  ⟨h.flags, h.stopped, h.retry, h.stopFrames, h.tail, fun hp => by simp [hparked] at hp, h.parkedSmooth,
    h.idle⟩

theorem Going.leaveBlock (h : Going s) (hparked : s.parked = none) :
    Going { s with gen := none, msgBlockD := false } := by
  intro hend hstart hshut
  obtain h | h | h | h := h hend hstart hshut
  · exact .inl h
  · exact .inr (.inl h)
  · simp [hparked] at h
  · exact .inr (.inr (.inr h))

theorem finishBlock_good (h : Ready k s g) (hrest : g.rest = [] ∨ s.shuttingdown = true ∨ s.ended = true) :
    Good k s (finishBlock cfg s) := by
  have hleave (hparked : s.parked = none) : Good k s { s with gen := none, msgBlockD := false } := by
    refine ⟨⟨(h.core.leaveBlock hparked).frame rfl, fun hl => (h.going hl).leaveBlock hparked, ?_⟩, ?_⟩
    · exact ⟨h.processor, fun _ hb => absurd hb (by simp), fun _ _ => rfl⟩
    · exact .single (.finish g h.gen h.after hparked hrest)
  unfold finishBlock
  dsimp only
  split
  · split
    · next hparked => exact hleave hparked
    · next responses hparked =>
      -- The response that waited is read now.
      have hparked : s.parked = some responses := hparked
      obtain ⟨-, -, hend⟩ := h.core.parked (by simp [hparked])
      have hcore : Core k { s with requestD := none, msgBlockD := false, parked := none } :=
        ⟨h.core.flags, h.core.stopped, h.core.retry, h.core.stopFrames, fun _ _ _ => rfl,
          fun hp => by simp at hp, fun _ l hl => by simp at hl,
          fun hl hend call hcall => ⟨(h.core.idle hl hend call hcall).1, rfl⟩⟩
      have hgood := handleMessages_good
        (s := resetRetry cfg { s with gen := none, msgBlockD := false, parked := none })
        ⟨hcore.frame rfl, rfl, rfl, h.processor⟩ responses false fun hl =>
        .inr (h.core.parkedSmooth hl responses hparked)
      refine ⟨hgood.1, .head ?_ hgood.2⟩
      have hrest : g.rest = [] ∨ s.shuttingdown = true := by simpa [hend] using hrest
      exact .finishParked g responses h.gen h.after hparked hend hrest
  · next hblock =>
    have hblock : s.msgBlockD = false := by simpa using hblock
    have hgood := hleave (h.core.parked_none_of_block hblock)
    rw [← hblock] at hgood
    exact hgood

theorem nextBlock_good (h : Ready k s g) (hphase : g.phase = .check ∨ g.phase = .loop) :
    Good k s (nextBlock cfg s g.rest) := by
  unfold nextBlock
  split
  · next hcond =>
    exact ⟨callProcessor_tidy h.core h.going h.processor h.block g.rest,
      .single (.hand g h.gen hphase hcond.1 hcond.2)⟩
  · next hcond =>
    refine finishBlock_good h ?_
    by_cases hnil : g.rest = []
    · exact .inl hnil
    · exact .inr (.inl (by simpa [hnil] using hcond))

theorem die_good (h : Ready k s g) (hphase : g.phase = .check ∨ g.phase = .loop) (hdue : BlockDue s)
    (hdead : s.startD ≠ some false) : Good k s { s with gen := none } :=
  ⟨⟨h.core.frame rfl, fun _ _ hstart => absurd hstart hdead, h.processor, hdue, fun _ hstart => absurd hstart hdead⟩,
    .single (.die g h.gen hphase h.block)⟩

theorem runGen_good (h : Ready k s g) (dead : Bool) (hdead : dead = true → s.startD ≠ some false) :
    Good k s (runGen cfg s g dead) := by
  unfold runGen
  obtain hphase | ⟨hphase, hdue⟩ | ⟨hphase, hend⟩ := h.phase <;> rw [hphase] <;> dsimp only
  · split
    · next hstopped => exact finishBlock_good h (.inr (.inr (h.core.flags.mpr (by simpa using hstopped))))
    split
    · next hnot hd =>
      have hend : ¬ s.ended = true := fun he => hnot (by simpa using h.core.flags.mp he)
      exact die_good h (.inl hphase) (fun he => absurd he hend) (hdead hd)
    · exact nextBlock_good h (.inl hphase)
  · split
    · next hd => exact die_good h (.inr hphase) hdue (hdead hd)
    · exact nextBlock_good h (.inr hphase)
  · exact finishBlock_good h (.inr (.inr hend))

theorem handleProcessorError_good (h : Ready k s g) (e : Exc) : Good k s (handleProcessorError cfg s g e) := by
  unfold handleProcessorError
  split
  · exact runGen_good h false (by simp)
  split
  · next herr =>
    obtain ⟨rfl, hstart⟩ := errbackStart_raises herr
    exact runGen_good (h.quiet (noteCall_quiet s)) true fun _ => hstart
  · -- The callbacks of `start` run before the generator goes on.
    have hcore := h.core.push [.gen] (by simp [Act.isStop]) (by simp [Act.isTail])
    refine errbackStart_good hcore ?_
    have hgen : (s.push [.gen]).gen = some g := h.gen
    have hmem : Act.gen ∈ (s.push [.gen]).agenda := by simp [State.push]
    unfold GenOk
    rw [hgen]
    obtain hphase | ⟨hphase, hdue⟩ | ⟨hphase, hend⟩ := h.phase <;> simp only [hphase]
    · exact ⟨hmem, h.processor, h.block⟩
    · exact ⟨hmem, h.processor, h.block, hdue.push _⟩
    · exact ⟨hmem, h.processor, hend⟩

/-! ## The processor is done -/

structure Held (k : Cond cfg) (s : State) (g : Gen) : Prop where
  core : Core k s
  going : k.live → Going s
  gen : s.gen = some g
  phase : g.phase = .calling ∨ ∃ b, g.phase = .waiting b
  block : InBlock s

theorem processorDone_good (h : Held k s g) {r : Outcome} (hk : k.outcome s.toFlow r.toBool) {phase : Phase}
    (hphase : phase = .check ∨ phase = .loop ∧ BlockDue s ∨ phase = .break ∧ s.ended = true) :
    Good k s (processorDone cfg s g r phase) := by
  have hmove := Move.done (k := k) (f := s.toFlow) g r.toBool phase h.gen h.phase hk
    (hphase.imp_right (.imp And.left And.left))
  have hgoing (hl : k.live) : Going { s with gen := some { g with phase := phase } } := (h.going hl).setGen _
  cases r with
  | error e =>
    have hready : Ready k { s with
        processorD := false
        gen := some { g with phase := phase }
        blocks := setOutcome s.blocks g.block false } { g with phase := phase } :=
      ⟨h.core.frame rfl, hgoing, rfl, rfl, h.block, hphase⟩
    have hgood := handleProcessorError_good hready e
    exact ⟨hgood.1, .head hmove hgood.2⟩
  | ok u =>
    have hready : Ready k { s with
        processorD := false
        gen := some { g with phase := phase }
        blocks := setOutcome s.blocks g.block (Except.ok u : Outcome).toBool
        lastProcessedOffset := some g.last } { g with phase := phase } :=
      ⟨h.core.frame rfl, hgoing, rfl, rfl, h.block, hphase⟩
    have hq := autoCommit_quiet cfg { s with
      processorD := false
      gen := some { g with phase := phase }
      blocks := setOutcome s.blocks g.block (Except.ok u : Outcome).toBool
      lastProcessedOffset := some g.last } true
    have hready := hready.quiet hq
    unfold processorDone updateProcessedOffset
    dsimp only
    split
    · next heq =>
      rw [heq] at hready hq
      have hgood := runGen_good hready false (by simp)
      exact ⟨hgood.1, .head hmove (hq.moves.trans hgood.2)⟩
    · next e heq =>
      rw [heq] at hready hq
      have hgood := handleProcessorError_good hready e
      exact ⟨hgood.1, .head hmove (hq.moves.trans hgood.2)⟩

theorem processorReturned_good (h : Held k s g) {r : Option Outcome} {cancelled : Outcome}
    (hr : ∀ r', r = some r' → k.outcome s.toFlow r'.toBool)
    (hcancelled : r = none → s.ended = true → k.outcome s.toFlow cancelled.toBool) :
    Good k s (processorReturned cfg s g r cancelled) := by
  unfold processorReturned
  split
  · next r => exact processorDone_good h (hr r rfl) (.inl rfl)
  split
  · next hstopped =>
    have hend : s.ended = true := h.core.flags.mpr (by simpa using hstopped)
    exact processorDone_good h (hcancelled rfl hend) (.inr (.inr ⟨rfl, hend⟩))
  · next hnot =>
    have hend : ¬ s.ended = true := fun he => hnot (by simpa using h.core.flags.mp he)
    refine ⟨⟨h.core.frame rfl, fun hl => (h.going hl).setGen _, ?_⟩, .single (.wait g false h.gen h.phase)⟩
    exact ⟨rfl, fun he => absurd he hend, h.block, fun he => absurd he hend⟩

theorem processorFires_good (h : Held k s g) (hdue : BlockDue s) (shutdownWaits : Bool) {r : Outcome}
    (hk : k.outcome s.toFlow r.toBool) : Good k s (processorFires cfg s g shutdownWaits r) := by
  have hacts : ∀ a ∈ (if shutdownWaits then [.commitAndStop] else [] : List Act), a.isStop = false ∧
    a.isTail = false := by
    cases shutdownWaits <;> simp [Act.isStop, Act.isTail]
  have hcore := h.core.push (if shutdownWaits then [.commitAndStop] else [])
    (fun a ha hs => absurd (hacts a ha).1 (by simp [hs])) (fun a ha ht => absurd (hacts a ha).2 (by simp [ht]))
  exact processorDone_good ⟨hcore, fun hl => (h.going hl).push _, h.gen, h.phase, h.block⟩ hk
    (.inr (.inl ⟨rfl, hdue.push _⟩))

end Afkak.Consumer
