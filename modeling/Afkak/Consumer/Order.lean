import Afkak.Consumer.Delivery

/-!
# Delivery in order

The broker has a log, and its answers are runs of the log. What was given to the processor since `start` is
then a run of the log, too, from the offset that the run of the consumer starts from.
-/

open Lib Lib.Window

namespace Afkak.Consumer

structure PartitionLog where
  entries : List OffsetAndMessage
  increasing : Increasing offsetOf entries
  nonneg : ∀ e ∈ entries, 0 ≤ e.offset

def PartitionLog.since (log : PartitionLog) (offset : Int) : List OffsetAndMessage :=
  log.entries.dropWhile fun e => e.offset < offset

/-- The answer to a fetch at `offset` is a run of the log. It may begin before `offset`, but has nothing from
`offset` on unless it has the first such entry. -/
def PartitionLog.Answers (log : PartitionLog) (cfg : Config) (offset : Int) (responses : List FetchResponse) : Prop :=
  yields cfg responses <:+: log.entries ∧
    ((∃ m ∈ yields cfg responses, offset ≤ m.offset) →
      (log.entries.find? fun e => offset ≤ e.offset).all (· ∈ yields cfg responses) = true)

/-- The broker answers from the log, no error makes the consumer start over, and nothing that an earlier run
asked for is still to be answered. -/
def inOrder (cfg : Config) (log : PartitionLog) : Cond cfg where
  start f _ := ¬ Active f.requestD
  answer _ _ := True
  reset := False
  response _ offset responses := log.Answers cfg offset responses
  outcome _ _ := True
  live := False
  start_live := unasked_quiet
  answer_live := unasked_answer
  response_live h := h.elim

instance (cfg : Config) (log : PartitionLog) (f : Flow) (o : Int) : Decidable ((inOrder cfg log).start f o) :=
  inferInstanceAs (Decidable (¬ _))
instance (cfg : Config) (log : PartitionLog) (f : Flow) (l : List OffsetAnswer) :
    Decidable ((inOrder cfg log).answer f l) := .isTrue trivial
instance (cfg : Config) (log : PartitionLog) : Decidable (inOrder cfg log).reset := .isFalse id
instance (cfg : Config) (log : PartitionLog) (f : Flow) (o : Int) (l : List FetchResponse) :
    Decidable ((inOrder cfg log).response f o l) := inferInstanceAs (Decidable (_ ∧ _))
instance (cfg : Config) (log : PartitionLog) (f : Flow) (b : Bool) : Decidable ((inOrder cfg log).outcome f b) :=
  .isTrue trivial

variable {cfg : Config} {log : PartitionLog} {f f' : Flow}

/-! ## One response -/

theorem PartitionLog.Answers.window {offset lo : Int} {responses : List FetchResponse}
    (h : log.Answers cfg offset responses) (hlo : lo ≤ offset) :
    window offsetOf log.entries lo offset ++ (readMessages offset (yields cfg responses)).1 =
      window offsetOf log.entries lo (readMessages offset (yields cfg responses)).2 := by
  obtain ⟨hrun, hfirst⟩ := h
  have hinc : Increasing offsetOf (yields cfg responses) := log.increasing.sublist hrun.sublist
  obtain ⟨hread, hbelow, hlast⟩ := readMessages_run hinc offset
  rw [hread]
  refine window_extend log.increasing hrun hlo (fun hany e he => ?_) hbelow hlast
  have hall := hfirst hany
  rw [show log.entries.find? (fun e => offset ≤ e.offset) = some e from he] at hall
  simpa using hall

theorem PartitionLog.Answers.next {offset : Int} {responses : List FetchResponse}
    (h : log.Answers cfg offset responses) :
    (readMessages offset (yields cfg responses)).2 = offset ∨ 0 < (readMessages offset (yields cfg responses)).2 := by
  obtain ⟨hrun, -⟩ := h
  obtain ⟨-, -, hlast⟩ := readMessages_run (log.increasing.sublist hrun.sublist) offset
  refine hlast.imp_right ?_
  rintro ⟨m, hm, -, heq⟩
  have := log.nonneg m (hrun.subset hm)
  omega

/-! ## The invariant -/

/-- A consumer that is not shutting down has a window of the log, unless its generator died in a block. -/
structure Ordered (cfg : Config) (log : PartitionLog) (f : Flow) : Prop where
  unresolved : f.resolved = none → f.blocks = [] ∧ f.gen = none ∧ f.parked = none ∧
    (∀ o, f.requestD ≠ some (.fetch o)) ∧ needsOffset f.fetchOffset
  resolved : ∀ r, f.resolved = some r → r ≤ f.fetchOffset ∧ f.requestD ≠ some .offset ∧ ¬ needsOffset f.fetchOffset
  request : ∀ o, f.requestD = some (.fetch o) → o = f.fetchOffset
  parked : ∀ l, f.parked = some l → f.requestD = some .fetched ∧ log.Answers cfg f.fetchOffset l
  delivered : ∀ r, f.resolved = some r → f.delivered <+: log.since r
  complete : ∀ r, f.resolved = some r → f.shuttingdown = false → ¬ (f.msgBlockD = true ∧ f.gen = none) →
    f.delivered ++ f.held = window offsetOf log.entries r f.fetchOffset

theorem Ordered.unresolved_of_offset (h : Ordered cfg log f) (hreq : f.requestD = some .offset) :
    f.resolved = none := by
  cases hr : f.resolved with
  | none => rfl
  | some r => exact absurd hreq (h.resolved r hr).2.1

theorem Ordered.parked_none (h : Ordered cfg log f) (hreq : f.requestD ≠ some .fetched) : f.parked = none := by
  cases hp : f.parked with
  | none => rfl
  | some l => exact absurd (h.parked l hp).1 hreq

theorem Ordered.setRequest (h : Ordered cfg log f) {r : Option Pending} (hparked : f.parked = none)
    (hunresolved : f.resolved = none → ∀ o, r ≠ some (.fetch o)) (hresolved : f.resolved.isSome → r ≠ some .offset)
    (hfetch : ∀ o, r = some (.fetch o) → o = f.fetchOffset) : Ordered cfg log { f with requestD := r } where
  unresolved := fun hr =>
    have ⟨hblocks, hgen, hp, _, hneeds⟩ := h.unresolved hr
    ⟨hblocks, hgen, hp, hunresolved hr, hneeds⟩
  resolved := fun r hr =>
    have ⟨hle, _, hneeds⟩ := h.resolved r hr
    ⟨hle, hresolved (by simp [show f.resolved = some r from hr]), hneeds⟩
  request := hfetch
  parked := fun l hl => by simp [hparked] at hl
  delivered := h.delivered
  complete := h.complete

theorem ordered_start (offset : Int) (hgen : f.gen = none) (hparked : f.parked = none) (hreq : ¬ Active f.requestD) :
    Ordered cfg log { f with
      fetchOffset := offset
      blocks := []
      commits := []
      resolved := if special offset ∨ offset = OFFSET_COMMITTED then none else some offset
      ended := false } := by
  have hfetch (o : Int) : f.requestD ≠ some (.fetch o) := fun h => hreq (.inr ⟨o, h⟩)
  have hknown {r : Int} (hr : (if special offset ∨ offset = OFFSET_COMMITTED then none else some offset) = some r) :
      ¬ needsOffset offset ∧ offset = r := by
    split at hr
    · cases hr
    · next hno => exact ⟨hno, Option.some.inj hr⟩
  refine ⟨fun hr => ?_, fun r hr => ?_, fun o ho => absurd ho (hfetch o), fun l hl => by simp [hparked] at hl,
    fun r _ => List.nil_prefix, fun r hr _ _ => ?_⟩
  · have hneeds : needsOffset offset := by
      by_contra hno
      rw [needsOffset] at hno
      simp only [if_neg hno] at hr
      cases hr
    exact ⟨rfl, hgen, hparked, hfetch, hneeds⟩
  · obtain ⟨hneeds, rfl⟩ := hknown hr
    exact ⟨Int.le_refl offset, fun h => hreq (.inl h), hneeds⟩
  · obtain ⟨-, rfl⟩ := hknown hr
    simp [Flow.delivered, Flow.held, hgen]

theorem ordered_resolve (h : Ordered cfg log f) (hreq : f.requestD = some .offset) {offset : Int}
    (hoffset : 0 ≤ offset) :
    Ordered cfg log { f with requestD := none, fetchOffset := offset, resolved := f.resolved <|> some offset } := by
  have hr := h.unresolved_of_offset hreq
  obtain ⟨hblocks, hgen, hparked, -, -⟩ := h.unresolved hr
  refine ⟨fun hr' => by simp [hr] at hr', fun r hr' => ?_, fun o ho => by simp at ho, fun l hl => by simp [hparked] at hl,
    fun r _ => ?_, fun r hr' _ _ => ?_⟩
  · obtain rfl : offset = r := by simpa [hr] using hr'
    exact ⟨Int.le_refl offset, by simp, not_needsOffset hoffset⟩
  · simp [Flow.delivered, hblocks]
  · obtain rfl : offset = r := by simpa [hr] using hr'
    simp [Flow.delivered, Flow.held, hblocks, hgen]

theorem ordered_read (h : Ordered cfg log f) {responses : List FetchResponse}
    (hanswer : log.Answers cfg f.fetchOffset responses) (hresolved : f.resolved.isSome)
    (hcomplete : ∀ r, f.resolved = some r → f.shuttingdown = false →
      f.delivered = window offsetOf log.entries r f.fetchOffset) :
    Ordered cfg log (Flow.read cfg { f with msgBlockD := false, parked := none } responses) := by
  rw [read_eq]
  refine ⟨fun hr => ?_, fun r hr => ?_, fun o ho => by simp at ho, fun l hl => by simp at hl, h.delivered, ?_⟩
  · simp [show f.resolved = none from hr] at hresolved
  · obtain ⟨hle, -, hneeds⟩ := h.resolved r hr
    refine ⟨Int.le_trans hle (readMessages_le _ _), by simp, ?_⟩
    obtain heq | hpos := hanswer.next
    · dsimp only; rw [heq]; exact hneeds
    · exact not_needsOffset (Int.le_of_lt hpos)
  · intro r hr hshut _
    have hwindow := hanswer.window (h.resolved r hr).1
    rw [← hcomplete r hr hshut] at hwindow
    exact hwindow

theorem ordered_call (h : Ordered cfg log f) {g : Gen} (hgen : f.gen = some g) (hshut : f.shuttingdown = false)
    (b : Bool) :
    Ordered cfg log (Flow.call cfg { f with msgBlockD := b } g.rest) := by
  have hsplit := blockOf_append_restOf cfg g.rest
  have hwhole (r : Int) (hr : f.resolved = some r) :
      f.delivered ++ g.rest = window offsetOf log.entries r f.fetchOffset := by
    have := h.complete r hr hshut (by simp [hgen])
    simpa [Flow.held, hgen] using this
  have hdelivered : (Flow.call cfg { f with msgBlockD := b } g.rest).delivered = f.delivered ++ blockOf cfg g.rest := by
    simp [Flow.delivered, Flow.call]
  refine ⟨fun hr => ?_, h.resolved, h.request, h.parked, fun r hr => ?_, fun r hr _ _ => ?_⟩
  · simp [(h.unresolved hr).2.1] at hgen
  · rw [hdelivered]
    have hpre : f.delivered ++ blockOf cfg g.rest <+: f.delivered ++ g.rest := by
      rw [List.prefix_append_right_inj]
      exact ⟨restOf cfg g.rest, hsplit⟩
    rw [hwhole r hr] at hpre
    exact hpre.trans (window_initial log.increasing r f.fetchOffset)
  · rw [hdelivered]
    show f.delivered ++ blockOf cfg g.rest ++ restOf cfg g.rest = _
    rw [List.append_assoc, hsplit]
    exact hwhole r hr

theorem ordered_end (h : Ordered cfg log f) {g : Gen} (hgen : f.gen = some g) (b : Bool)
    (hrest : b = true ∨ g.rest = [] ∨ f.shuttingdown = true) :
    Ordered cfg log { f with gen := none, msgBlockD := b } := by
  refine ⟨fun hr => ?_, h.resolved, h.request, h.parked, h.delivered, fun r hr hshut hblock => ?_⟩
  · simp [(h.unresolved hr).2.1] at hgen
  · obtain hb | hrest | hshut' := hrest
    · exact absurd ⟨hb, rfl⟩ hblock
    · have hall := h.complete r hr hshut (by simp [hgen])
      simp only [Flow.held, hgen, Option.map_some, Option.getD_some, hrest] at hall
      exact hall
    · exact absurd (hshut.symm.trans hshut') (by decide)

theorem ordered_setPhase (h : Ordered cfg log f) {g : Gen} (hgen : f.gen = some g) (phase : Phase) (blocks : List Block)
    (hblocks : (blocks.flatMap fun b => b.messages) = f.delivered) (last : Option Int) :
    Ordered cfg log { f with gen := some { g with phase := phase }, blocks := blocks, lastProcessedOffset := last } := by
  refine ⟨fun hr => ?_, h.resolved, h.request, h.parked, fun r hr => ?_, fun r hr hshut _ => ?_⟩
  · simp [(h.unresolved hr).2.1] at hgen
  · rw [Flow.delivered, hblocks]; exact h.delivered r hr
  · have hall := h.complete r hr hshut (by simp [hgen])
    rw [Flow.held, hgen] at hall
    rw [Flow.delivered, hblocks]
    exact hall

theorem ordered_move (hserial : Serial f) (h : f.ended = false → Ordered cfg log f) (hm : Move (inOrder cfg log) f f') :
    f'.ended = false → Ordered cfg log f' := by
  intro hend
  cases hm with
  | start offset _ hgen hparked _ hk => exact ordered_start offset hgen hparked hk
  | ask hreq =>
    have h := h hend
    refine h.setRequest (h.parked_none (by simp [hreq])) (fun hr o => ?_) (fun hr => ?_) (fun o ho => ?_)
    · have hneeds : request f.fetchOffset = .offset := if_pos (h.unresolved hr).2.2.2.2
      simp [hneeds]
    · obtain ⟨r, hr⟩ := Option.isSome_iff_exists.mp hr
      have hknown : request f.fetchOffset = .fetch f.fetchOffset := if_neg (h.resolved r hr).2.2
      simp [hknown]
    · unfold request at ho
      split at ho
      · cases ho
      · cases ho; rfl
  | fail hreq =>
    have h := h hend
    refine h.setRequest (h.parked_none ?_) (by simp) (by simp) (by simp)
    exact fun hfetched => not_active_fetched (hfetched ▸ hreq)
  | reset _ hk => exact hk.elim
  | resolve offset responses hreq _ hanswer => exact ordered_resolve (h hend) hreq (answered_nonneg hanswer)
  | unresolved offset hreq hspecial =>
    have h := h hend
    have hr := h.unresolved_of_offset hreq
    obtain ⟨hblocks, hgen, hparked, -, -⟩ := h.unresolved hr
    exact ⟨fun _ => ⟨hblocks, hgen, hparked, by simp, .inl hspecial⟩, fun r hr' => by simp [hr] at hr', by simp,
      fun l hl => by simp [hparked] at hl, h.delivered, fun r hr' => by simp [hr] at hr'⟩
  | park offset responses hreq _ hk =>
    have h := h hend
    obtain rfl := h.request offset hreq
    have hr : f.resolved ≠ none := fun hr => (h.unresolved hr).2.2.2.1 _ hreq
    refine ⟨fun hr' => absurd hr' hr, fun r hr => ⟨(h.resolved r hr).1, by simp, (h.resolved r hr).2.2⟩, by simp, ?_,
      h.delivered, h.complete⟩
    intro l hl
    obtain rfl := Option.some.inj hl
    exact ⟨rfl, hk⟩
  | read offset responses hreq hgen hparked hblock hk =>
    have h := h hend
    obtain rfl := h.request offset hreq
    have hr : f.resolved.isSome := by
      rw [Option.isSome_iff_ne_none]
      exact fun hr => (h.unresolved hr).2.2.2.1 _ hreq
    have hsame : f = { f with msgBlockD := false, parked := none } := by rw [← hblock, ← hparked]
    rw [hsame]
    refine ordered_read h hk hr fun r hr hshut => ?_
    have := h.complete r hr hshut (by simp [hblock])
    simpa [Flow.held, hgen] using this
  | forget g hgen _ hblock hrest =>
    have hgood := ordered_end (h hend) hgen f.msgBlockD (.inr hrest)
    exact hgood
  | begin g hgen _ _ hshut => exact ordered_call (h hend) hgen hshut true
  | hand g hgen _ _ hshut => exact ordered_call (h hend) hgen hshut f.msgBlockD
  | wait g b hgen => exact ordered_setPhase (h hend) hgen (.waiting b) f.blocks rfl f.lastProcessedOffset
  | done g ok phase hgen hphase =>
    obtain ⟨done, messages, hblocks, hblock, -⟩ := hserial.busy g hgen ((Gen.busy_iff g).mpr hphase)
    refine ordered_setPhase (h hend) hgen phase _ ?_ _
    rw [hblocks, hblock, setOutcome_last, Flow.delivered, hblocks]
    simp
  | commit =>
    exact ⟨(h hend).unresolved, (h hend).resolved, (h hend).request, (h hend).parked, (h hend).delivered,
      (h hend).complete⟩
  | finish g hgen _ _ hrest =>
    refine ordered_end (h hend) hgen false (.inr ?_)
    simpa [show f.ended = false from hend] using hrest
  | finishParked g responses hgen _ hparked hend hrest =>
    have h := h hend
    have hr : f.resolved.isSome := by
      rw [Option.isSome_iff_ne_none]
      exact fun hr => by simp [(h.unresolved hr).2.1] at hgen
    refine ordered_read h (h.parked responses hparked).2 hr fun r hr hshut => ?_
    have hnil : g.rest = [] := hrest.resolve_right (by simp [hshut])
    have := h.complete r hr hshut (by simp [hgen])
    simpa [Flow.held, hgen, hnil] using this
  | die g hgen _ hblock =>
    have hgood := ordered_end (h hend) hgen f.msgBlockD (.inl (hblock hend))
    exact hgood
  | stop | stopLater => simp at hend
  | dropBlock he | reopen he => exact absurd (he.symm.trans hend) (by decide)
  | shutdown =>
    have h := h hend
    exact ⟨h.unresolved, h.resolved, h.request, h.parked, h.delivered, fun _ _ hno => by simp at hno⟩

def twoEntries : PartitionLog where
  entries := [messageAt 0, messageAt 1]
  increasing := by decide
  nonneg := by decide

def Event.starts : Event → Bool
  | .start _ => true
  | _ => false

def answeredLate : List Event :=
  [.start 1, .resume {}, .stop { request := none }] ++ List.replicate 8 (.resume {}) ++
    [.start 0, .resume {}, .fetchResult (.ok [⟨0, [messageAt 1], none⟩])]

end Afkak.Consumer
