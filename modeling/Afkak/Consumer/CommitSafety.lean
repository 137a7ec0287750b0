import Afkak.Consumer.Delivery

/-!
# Commit safety

`_handle_processor_error` swallows the failure of a block, and the generator goes on with the next one. A
block that succeeds then moves `_last_processed_offset` past the failed one. As long as no block succeeds
after one that failed, and the consumer does not go back behind what it processed, a commit covers only
what was processed.
-/

open Lib Lib.Window

namespace Afkak.Consumer

/-- Every message up to `offset` that the processor was given is in a block that succeeded. -/
def Covered (blocks : List Block) (offset : Int) : Prop :=
  ∀ b ∈ blocks, ∀ m ∈ b.messages, m.offset ≤ offset → b.outcome = some true

def Flow.beyond (f : Flow) (offset : Int) : Prop := f.lastProcessedOffset.all (· < offset) = true

def Flow.fetching (f : Flow) : Prop := ∃ o, f.requestD = some (.fetch o)

/-- No block succeeds after one that failed, and every offset that the consumer starts or starts over from is
beyond what it has processed and read. An offset that has to be asked for is not given while a fetch is out. -/
def safeCommits (cfg : Config) : Cond cfg where
  start f offset := (needsOffset offset ∨ f.beyond offset) ∧ (needsOffset offset → ¬ f.fetching)
  answer f responses :=
    (answered responses).all (fun offset => f.lastProcessedOffset.all (· < offset) &&
      (f.delivered ++ f.held).all fun m => m.offset < offset) = true
  reset := cfg.autoOffsetReset.all special = true
  response _ _ _ := True
  outcome f ok := ok = true → ∀ b ∈ f.blocks, b.outcome ≠ some false
  live := False
  start_live h := h.elim
  answer_live h := h.elim
  response_live := unasked_response cfg

instance (offset : Int) : Decidable (needsOffset offset) := inferInstanceAs (Decidable (_ ∨ _))
instance (f : Flow) (offset : Int) : Decidable (f.beyond offset) := inferInstanceAs (Decidable (_ = true))
instance : (f : Flow) → Decidable f.fetching := fun f =>
  match h : f.requestD with
  | some (.fetch o) => .isTrue ⟨o, h⟩
  | some .offset | some .fetched | none => .isFalse (by simp [Flow.fetching, h])
instance (cfg : Config) (f : Flow) (o : Int) : Decidable ((safeCommits cfg).start f o) :=
  inferInstanceAs (Decidable ((needsOffset o ∨ f.beyond o) ∧ (needsOffset o → ¬ f.fetching)))
instance (cfg : Config) (f : Flow) (l : List OffsetAnswer) : Decidable ((safeCommits cfg).answer f l) :=
  inferInstanceAs (Decidable (_ = true))
instance (cfg : Config) : Decidable (safeCommits cfg).reset := inferInstanceAs (Decidable (_ = true))
instance (cfg : Config) (f : Flow) (o : Int) (l : List FetchResponse) : Decidable ((safeCommits cfg).response f o l) :=
  .isTrue trivial
instance (cfg : Config) (f : Flow) (b : Bool) : Decidable ((safeCommits cfg).outcome f b) :=
  inferInstanceAs (Decidable (b = true → ∀ b ∈ f.blocks, b.outcome ≠ some false))

variable {cfg : Config} {f f' : Flow}

/-! ## Blocks -/

theorem Covered.mono {blocks : List Block} {o o' : Int} (h : Covered blocks o) (hle : o' ≤ o) : Covered blocks o' :=
  fun b hb m hm hmo => h b hb m hm (Int.le_trans hmo hle)

theorem Covered.append {blocks : List Block} {o : Int} (h : Covered blocks o) {block : Block}
    (hblock : ∀ m ∈ block.messages, o < m.offset) : Covered (blocks ++ [block]) o := by
  intro b hb m hm hmo
  obtain hb | hb := List.mem_append.mp hb
  · exact h b hb m hm hmo
  · obtain rfl := List.mem_singleton.mp hb
    have := hblock m hm
    omega

theorem Covered.last_beyond {done : List Block} {messages : List OffsetAndMessage} {o : Int}
    (h : Covered (done ++ [⟨messages, none⟩]) o) : ∀ m ∈ messages, o < m.offset := by
  intro m hm
  by_contra hle
  have := h ⟨messages, none⟩ (by simp) m hm (by omega)
  simp at this

theorem lastOffset_mem {messages : List OffsetAndMessage} (h : messages ≠ []) :
    ∃ m ∈ messages, m.offset = lastOffset messages := by
  refine ⟨messages.getLast h, List.getLast_mem h, ?_⟩
  simp [lastOffset, List.getLast?_eq_some_getLast h]

theorem lastOffset_lt_rest {messages : List OffsetAndMessage} (hinc : Increasing offsetOf messages)
    (hne : messages ≠ []) : ∀ m ∈ restOf cfg messages, lastOffset (blockOf cfg messages) < m.offset := by
  intro m hm
  obtain ⟨m', hm', heq⟩ := lastOffset_mem (blockOf_ne_nil cfg hne)
  rw [← blockOf_append_restOf cfg messages] at hinc
  rw [← heq]
  exact (List.pairwise_append.mp hinc).2.2 m' hm' m hm

/-! ## The invariant -/

theorem Flow.beyond_iff (offset : Int) : f.beyond offset ↔ ∀ p, f.lastProcessedOffset = some p → p < offset := by
  unfold Flow.beyond
  cases f.lastProcessedOffset <;> simp

structure Safe (f : Flow) : Prop where
  covered : ∀ p, f.lastProcessedOffset = some p → Covered f.blocks p
  commits : ∀ c ∈ f.commits, ∃ p, f.lastProcessedOffset = some p ∧ c ≤ p
  increasing : Increasing offsetOf f.held
  held : ∀ m ∈ f.held, f.beyond m.offset
  busy : ∀ g, f.gen = some g → g.busy = true → f.beyond g.last ∧ ∀ m ∈ g.rest, g.last < m.offset
  next : ¬ needsOffset f.fetchOffset → f.beyond f.fetchOffset ∧ (∀ m ∈ f.held, m.offset < f.fetchOffset) ∧
    ∀ g, f.gen = some g → g.busy = true → g.last < f.fetchOffset
  request : ∀ o, f.requestD = some (.fetch o) → ¬ needsOffset f.fetchOffset
  parked : f.parked.isSome → f.requestD = some .fetched ∧ ¬ needsOffset f.fetchOffset

theorem Safe.parked_none (h : Safe f) (hreq : f.requestD ≠ some .fetched) : f.parked = none := by
  cases hp : f.parked with
  | none => rfl
  | some l => exact absurd (h.parked (by simp [hp])).1 hreq

theorem safe_start {offset : Int} (hgen : f.gen = none) (hparked : f.parked = none)
    (hbeyond : ¬ needsOffset offset → f.beyond offset) (hfetching : needsOffset offset → ¬ f.fetching) :
    Safe { f with
      fetchOffset := offset
      blocks := []
      commits := []
      resolved := if special offset ∨ offset = OFFSET_COMMITTED then none else some offset
      ended := false } where
  covered := fun _ _ b hb => by simp at hb
  commits := by simp
  increasing := by simp [Flow.held, hgen]
  held := fun m hm => absurd hm (by simp [Flow.held, hgen])
  busy := fun g hg => by simp [hgen] at hg
  next := fun hn => ⟨hbeyond hn, fun m hm => absurd hm (by simp [Flow.held, hgen]), fun g hg => by simp [hgen] at hg⟩
  request := fun o ho hn => hfetching hn ⟨o, ho⟩
  parked := fun hp => by simp [hparked] at hp

theorem Safe.dropGen (h : Safe f) (b : Bool) (parked : Option (List FetchResponse))
    (hparked : parked.isSome → f.parked.isSome) : Safe { f with gen := none, msgBlockD := b, parked := parked } where
  covered := h.covered
  commits := h.commits
  increasing := .nil
  held := fun m hm => by simp [Flow.held] at hm
  busy := fun g hg => by simp at hg
  next := fun hn => ⟨(h.next hn).1, fun m hm => by simp [Flow.held] at hm, fun g hg => by simp at hg⟩
  request := h.request
  parked := fun hp => h.parked (hparked hp)

theorem Safe.read (h : Safe f) (hneeds : ¬ needsOffset f.fetchOffset) (hparked : f.parked = none)
    (responses : List FetchResponse) : Safe (f.read cfg responses) := by
  have hbeyond := (f.beyond_iff _).mp (h.next hneeds).1
  have hle := readMessages_le f.fetchOffset (yields cfg responses)
  rw [read_eq]
  refine ⟨h.covered, h.commits, readMessages_increasing _ _, fun m hm => ?_, ?_, fun _ => ⟨?_, ?_, ?_⟩, by simp, ?_⟩
  · refine (Flow.beyond_iff _).mpr fun p hp => ?_
    have := hbeyond p hp
    have := (readMessages_bounds m hm).1
    omega
  · rintro g hg hbusy
    obtain rfl := Option.some.inj hg
    simp [Gen.busy] at hbusy
  · refine (Flow.beyond_iff _).mpr fun p hp => ?_
    have := hbeyond p hp
    dsimp only
    omega
  · exact fun m hm => (readMessages_bounds m hm).2
  · rintro g hg hbusy
    obtain rfl := Option.some.inj hg
    simp [Gen.busy] at hbusy
  · intro hp
    simp [hparked] at hp

theorem Safe.call (h : Safe f) {g : Gen} (hgen : f.gen = some g) (hrest : g.rest ≠ []) (b : Bool) :
    Safe (Flow.call cfg { f with msgBlockD := b } g.rest) := by
  have hheld : f.held = g.rest := by simp [Flow.held, hgen]
  have hinc : Increasing offsetOf g.rest := hheld ▸ h.increasing
  have hmem (m : OffsetAndMessage) (hm : m ∈ blockOf cfg g.rest ∨ m ∈ restOf cfg g.rest) : m ∈ f.held := by
    rw [hheld, ← blockOf_append_restOf cfg g.rest]
    exact List.mem_append.mpr hm
  obtain ⟨m, hm, hlast⟩ := lastOffset_mem (blockOf_ne_nil cfg hrest)
  have hsub : Increasing offsetOf (restOf cfg g.rest) := by
    rw [← blockOf_append_restOf cfg g.rest] at hinc
    exact (List.pairwise_append.mp hinc).2.1
  refine ⟨fun p hp => ?_, h.commits, hsub, fun m hm => h.held m (hmem m (.inr hm)), ?_, fun hn => ?_, h.request,
    h.parked⟩
  · refine (h.covered p hp).append fun m hm => ?_
    exact (f.beyond_iff _).mp (h.held m (hmem m (.inl hm))) p hp
  · rintro g' hg' -
    obtain rfl := Option.some.inj hg'
    exact ⟨hlast ▸ h.held m (hmem m (.inl hm)), lastOffset_lt_rest hinc hrest⟩
  · obtain ⟨hbeyond, hbelow, -⟩ := h.next hn
    refine ⟨hbeyond, fun m hm => hbelow m (hmem m (.inr hm)), ?_⟩
    rintro g' hg' -
    obtain rfl := Option.some.inj hg'
    exact hlast ▸ hbelow m (hmem m (.inl hm))

theorem Safe.failed (h : Safe f) (hserial : Serial f) {g : Gen} (hgen : f.gen = some g) (hbusy : g.busy = true)
    {phase : Phase} (hphase : Gen.busy { g with phase := phase } = false) :
    Safe { f with gen := some { g with phase := phase }, blocks := setOutcome f.blocks g.block false } := by
  obtain ⟨done, messages, hblocks, hblock, -⟩ := hserial.busy g hgen hbusy
  have hheld : ∀ m ∈ g.rest, m ∈ f.held := by simp [Flow.held, hgen]
  have hinc : Increasing offsetOf g.rest := by simpa [Flow.held, hgen] using h.increasing
  have hidle (g' : Gen) (hg' : some { g with phase := phase } = some g') (hb : g'.busy = true) : False := by
    obtain rfl := Option.some.inj hg'
    simp [hphase] at hb
  refine ⟨fun p hp b hb m hm hmo => ?_, h.commits, hinc, fun m hm => h.held m (hheld m hm),
    fun g' hg' hb => (hidle g' hg' hb).elim, fun hn => ?_, h.request, h.parked⟩
  · have hcovered := hblocks ▸ h.covered p hp
    dsimp only at hb
    rw [hblocks, hblock, setOutcome_last] at hb
    obtain hb | hb := List.mem_append.mp hb
    · exact hcovered b (List.mem_append_left _ hb) m hm hmo
    · obtain rfl := List.mem_singleton.mp hb
      have := hcovered.last_beyond m hm
      omega
  · obtain ⟨hbeyond, hbelow, -⟩ := h.next hn
    exact ⟨hbeyond, fun m hm => hbelow m (hheld m hm), fun g' hg' hb => (hidle g' hg' hb).elim⟩

theorem Safe.succeeded (h : Safe f) (hserial : Serial f) {g : Gen} (hgen : f.gen = some g) (hbusy : g.busy = true)
    (hok : ∀ b ∈ f.blocks, b.outcome ≠ some false) {phase : Phase}
    (hphase : Gen.busy { g with phase := phase } = false) :
    Safe { f with
      gen := some { g with phase := phase }
      blocks := setOutcome f.blocks g.block true
      lastProcessedOffset := some g.last } := by
  obtain ⟨done, messages, hblocks, hblock, -, -, hdone⟩ := hserial.busy g hgen hbusy
  obtain ⟨hbeyond, hrest⟩ := h.busy g hgen hbusy
  have hbeyond := (f.beyond_iff _).mp hbeyond
  have hheld : ∀ m ∈ g.rest, m ∈ f.held := by simp [Flow.held, hgen]
  have hinc : Increasing offsetOf g.rest := by simpa [Flow.held, hgen] using h.increasing
  have hidle (g' : Gen) (hg' : some { g with phase := phase } = some g') (hb : g'.busy = true) : False := by
    obtain rfl := Option.some.inj hg'
    simp [hphase] at hb
  refine ⟨fun p hp b hb m hm _ => ?_, fun c hc => ⟨g.last, rfl, ?_⟩, hinc, fun m hm => ?_,
    fun g' hg' hb => (hidle g' hg' hb).elim, fun hn => ?_, h.request, h.parked⟩
  · dsimp only at hb
    rw [hblocks, hblock, setOutcome_last] at hb
    obtain hb | hb := List.mem_append.mp hb
    · have hnone := hdone b hb
      have hfalse := hok b (hblocks ▸ List.mem_append_left _ hb)
      cases houtcome : b.outcome with
      | none => exact absurd houtcome hnone
      | some ok =>
        cases ok with
        | false => exact absurd houtcome hfalse
        | true => rfl
    · obtain rfl := List.mem_singleton.mp hb
      rfl
  · obtain ⟨p, hp, hle⟩ := h.commits c hc
    have := hbeyond p hp
    omega
  · exact (Flow.beyond_iff _).mpr fun p hp => Option.some.inj hp ▸ hrest m hm
  · obtain ⟨-, hbelow, hlast⟩ := h.next hn
    refine ⟨(Flow.beyond_iff _).mpr fun p hp => ?_, fun m hm => hbelow m (hheld m hm),
      fun g' hg' hb => (hidle g' hg' hb).elim⟩
    exact Option.some.inj hp ▸ hlast g hgen hbusy

theorem Safe.answer (h : Safe f) (hserial : Serial f) (hreq : f.requestD = some .offset) {offset : Int}
    (hbeyond : f.beyond offset) (hread : ∀ m ∈ f.delivered ++ f.held, m.offset < offset) :
    Safe { f with requestD := none, fetchOffset := offset, resolved := f.resolved <|> some offset } := by
  have hparked := h.parked_none (by simp [hreq])
  refine ⟨h.covered, h.commits, h.increasing, h.held, h.busy, fun _ => ⟨hbeyond, ?_, fun g hg hb => ?_⟩, by simp,
    fun hp => by simp [hparked] at hp⟩
  · exact fun m hm => hread m (List.mem_append_right _ hm)
  · obtain ⟨done, messages, hblocks, -, hlast, hne, -⟩ := hserial.busy g hg hb
    obtain ⟨m, hm, heq⟩ := lastOffset_mem hne
    have hmem : m ∈ f.delivered := by
      rw [Flow.delivered, hblocks]
      exact List.mem_flatMap.mpr ⟨⟨messages, none⟩, by simp, hm⟩
    rw [hlast, ← heq]
    exact hread m (List.mem_append_left _ hmem)

theorem Safe.forget (h : Safe f) (hparked : f.parked = none) {offset : Int} (hneeds : needsOffset offset) :
    Safe { f with requestD := none, fetchOffset := offset } :=
  ⟨h.covered, h.commits, h.increasing, h.held, h.busy, fun hn => absurd hneeds hn, by simp,
    fun hp => by simp [hparked] at hp⟩

theorem safe_move (hserial : Serial f) (h : Safe f) (hm : Move (safeCommits cfg) f f') : Safe f' := by
  cases hm with
  | start offset _ hgen hparked _ hk => exact safe_start hgen hparked hk.1.resolve_left hk.2
  | ask hreq =>
    have hparked := h.parked_none (by simp [hreq])
    refine ⟨h.covered, h.commits, h.increasing, h.held, h.busy, h.next, fun o ho hn => ?_,
      fun hp => by simp [hparked] at hp⟩
    have hoffset : request f.fetchOffset = .offset := if_pos hn
    simp [hoffset] at ho
  | fail hreq =>
    have hparked := h.parked_none fun hfetched => not_active_fetched (hfetched ▸ hreq)
    exact ⟨h.covered, h.commits, h.increasing, h.held, h.busy, h.next, by simp, fun hp => by simp [hparked] at hp⟩
  | reset offset hk hreq hreset =>
    have hparked := h.parked_none (by simp [hreq])
    have hspecial : special offset = true := by
      have hall : cfg.autoOffsetReset.all special = true := hk
      simpa [hreset] using hall
    have hgood := h.forget hparked (.inl hspecial)
    rw [← hreq] at hgood
    exact hgood
  | resolve offset responses hreq hk hanswer =>
    have hall : (answered responses).all _ = true := hk
    simp only [hanswer, Option.all_some, Bool.and_eq_true, List.all_eq_true, decide_eq_true_eq] at hall
    exact h.answer hserial hreq hall.1 hall.2
  | unresolved offset hreq hspecial => exact h.forget (h.parked_none (by simp [hreq])) (.inl hspecial)
  | park offset responses hreq =>
    exact ⟨h.covered, h.commits, h.increasing, h.held, h.busy, h.next, by simp, fun _ => ⟨rfl, h.request offset hreq⟩⟩
  | read offset responses hreq _ hparked => exact h.read (h.request offset hreq) hparked responses
  | forget => exact h.dropGen f.msgBlockD f.parked id
  | begin g hgen _ hrest => exact h.call hgen hrest true
  | hand g hgen _ hrest => exact h.call hgen hrest f.msgBlockD
  | wait g b hgen hphase =>
    have hheld : ({ f with gen := some { g with phase := .waiting b } } : Flow).held =
      f.held := by simp [Flow.held, hgen]
    have hbusy := (Gen.busy_iff g).mpr hphase
    refine ⟨h.covered, h.commits, hheld ▸ h.increasing, hheld ▸ h.held, ?_, fun hn => ?_, h.request, h.parked⟩
    · rintro g' hg' -
      obtain rfl := Option.some.inj hg'
      exact h.busy g hgen hbusy
    · obtain ⟨hbeyond, hbelow, hlast⟩ := h.next hn
      refine ⟨hbeyond, hheld ▸ hbelow, ?_⟩
      rintro g' hg' -
      obtain rfl := Option.some.inj hg'
      exact hlast g hgen hbusy
  | done g ok phase hgen hphase hk hnext =>
    have hbusy := (Gen.busy_iff g).mpr hphase
    have hidle : Gen.busy { g with phase := phase } = false := Gen.not_busy (.inr hnext)
    cases ok with
    | true => exact h.succeeded hserial hgen hbusy (hk rfl) hidle
    | false => exact h.failed hserial hgen hbusy hidle
  | commit offset hlast =>
    refine ⟨h.covered, fun c hc => ?_, h.increasing, h.held, h.busy, h.next, h.request, h.parked⟩
    obtain hc | hc := List.mem_append.mp hc
    · exact h.commits c hc
    · obtain rfl := List.mem_singleton.mp hc
      exact ⟨c, hlast, Int.le_refl c⟩
  | finish => exact h.dropGen false f.parked id
  | finishParked g responses hgen _ hparked =>
    exact (h.dropGen false none (by simp)).read (h.parked (by simp [hparked])).2 rfl responses
  | die => exact h.dropGen f.msgBlockD f.parked id
  | stop | dropBlock =>
    exact ⟨h.covered, h.commits, h.increasing, h.held, h.busy, h.next, h.request, fun hp => by simp at hp⟩
  | stopLater | shutdown | reopen =>
    exact ⟨h.covered, h.commits, h.increasing, h.held, h.busy, h.next, h.request, h.parked⟩

def groupConfig : Config := { partition := 0, consumerGroup := true, autoCommitEveryN := 1 }

def twoBlocks (r : Outcome) : List Event :=
  [.start 0, .resume {}, .fetchResult (.ok [⟨0, [messageAt 0, messageAt 1], none⟩]),
    .processorReturned (some r) (.ok ())]

end Afkak.Consumer
