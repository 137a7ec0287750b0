import Afkak.Consumer.Steps
import Afkak.Lib.Window

/-!
# What is read and delivered

`readMessages` is a loop over the messages of all responses; its result does not depend on how they are
split. The processor has one block at a time, and `Serial` says where it is.
-/

open Lib Lib.Window

namespace Afkak.Consumer

variable {cfg : Config} {k : Cond cfg} {f f' : Flow}

abbrev offsetOf (m : OffsetAndMessage) : Int := m.offset

/-! ## Reading -/

def yields (cfg : Config) : List FetchResponse → List OffsetAndMessage
  | [] => []
  | r :: rs =>
    if r.partition ≠ cfg.partition then yields cfg rs
    else if r.raises.isSome then r.messages
    else r.messages ++ yields cfg rs

theorem readMessages_append (offset : Int) (l l' : List OffsetAndMessage) :
    readMessages offset (l ++ l') =
      ((readMessages offset l).1 ++ (readMessages (readMessages offset l).2 l').1,
        (readMessages (readMessages offset l).2 l').2) := by
  induction l generalizing offset with
  | nil => rfl
  | cons m l ih =>
    rw [List.cons_append, readMessages, readMessages]
    split
    · exact ih offset
    · simp only [ih, List.cons_append]

theorem readResponses_eq (offset : Int) (responses : List FetchResponse) :
    readResponses cfg offset responses =
      ((readMessages offset (yields cfg responses)).1, (readMessages offset (yields cfg responses)).2,
        raised cfg responses) := by
  have hraised := readResponses_raised cfg offset responses
  suffices h : ((readResponses cfg offset responses).1, (readResponses cfg offset responses).2.1) =
      readMessages offset (yields cfg responses) by
    rw [← h, ← hraised]
  clear hraised
  induction responses generalizing offset with
  | nil => rfl
  | cons r rs ih =>
    rw [readResponses, yields]
    split
    · exact ih offset
    · cases hraises : r.raises with
      | some e => simp
      | none =>
        rw [if_neg (by simp), readMessages_append, ← ih]

theorem read_eq (f : Flow) (responses : List FetchResponse) :
    f.read cfg responses =
      { f with
        requestD := none
        fetchOffset := (readMessages f.fetchOffset (yields cfg responses)).2
        gen := some ⟨(readMessages f.fetchOffset (yields cfg responses)).1, 0, 0, .limbo⟩ } := by
  rw [Flow.read, readResponses_eq]

theorem readMessages_le (offset : Int) (l : List OffsetAndMessage) : offset ≤ (readMessages offset l).2 := by
  induction l generalizing offset with
  | nil => exact Int.le_refl offset
  | cons m l ih =>
    rw [readMessages]
    split
    · exact ih offset
    · have := ih (m.offset + 1)
      dsimp only
      omega

theorem readMessages_bounds {offset : Int} {l : List OffsetAndMessage} :
    ∀ m ∈ (readMessages offset l).1, offset ≤ m.offset ∧ m.offset < (readMessages offset l).2 := by
  induction l generalizing offset with
  | nil => simp [readMessages]
  | cons m l ih =>
    rw [readMessages]
    split
    · exact ih
    · next hle =>
      have hlt := readMessages_le (m.offset + 1) l
      dsimp only
      intro m' hm'
      obtain rfl | hm' := List.mem_cons.mp hm'
      · omega
      · have := ih m' hm'
        omega

theorem readMessages_increasing (offset : Int) (l : List OffsetAndMessage) :
    Increasing offsetOf (readMessages offset l).1 := by
  induction l generalizing offset with
  | nil => exact .nil
  | cons m l ih =>
    rw [readMessages]
    split
    · exact ih offset
    · refine List.pairwise_cons.mpr ⟨fun m' hm' => ?_, ih (m.offset + 1)⟩
      have := (readMessages_bounds m' hm').1
      show m.offset < m'.offset
      omega

theorem readMessages_run {l : List OffsetAndMessage} (hl : Increasing offsetOf l) (offset : Int) :
    (readMessages offset l).1 = (l.filter fun m => offset ≤ m.offset) ∧
      (∀ m ∈ l, m.offset < (readMessages offset l).2) ∧
      ((readMessages offset l).2 = offset ∨ ∃ m ∈ l, offset ≤ m.offset ∧ (readMessages offset l).2 = m.offset + 1) := by
  induction l generalizing offset with
  | nil => simp [readMessages]
  | cons m l ih =>
    obtain ⟨hhead, htail⟩ := List.pairwise_cons.mp hl
    rw [readMessages]
    split
    · next hlt =>
      obtain ⟨hfilter, hbelow, hlast⟩ := ih htail offset
      have hle := readMessages_le offset l
      refine ⟨?_, ?_, ?_⟩
      · rw [hfilter, List.filter_cons_of_neg (by simpa using hlt)]
      · intro m' hm'
        obtain rfl | hm' := List.mem_cons.mp hm'
        · omega
        · exact hbelow m' hm'
      · obtain hlast | ⟨m', hm', hlast⟩ := hlast
        · exact .inl hlast
        · exact .inr ⟨m', List.mem_cons_of_mem _ hm', hlast⟩
    · next hge =>
      obtain ⟨hfilter, hbelow, hlast⟩ := ih htail (m.offset + 1)
      have hle := readMessages_le (m.offset + 1) l
      have hall : ∀ m' ∈ l, m.offset + 1 ≤ m'.offset := fun m' hm' => hhead m' hm'
      dsimp only
      refine ⟨?_, ?_, .inr ?_⟩
      · have hsame : (l.filter fun m' => m.offset + 1 ≤ m'.offset) = l.filter fun m' => offset ≤ m'.offset :=
          List.filter_congr fun m' hm' => decide_eq_decide.mpr (by have := hall m' hm'; omega)
        rw [hfilter, hsame, List.filter_cons_of_pos (by simpa using hge)]
      · intro m' hm'
        obtain rfl | hm' := List.mem_cons.mp hm'
        · omega
        · exact hbelow m' hm'
      · obtain hlast | ⟨m', hm', hle', hlast⟩ := hlast
        · exact ⟨m, List.mem_cons_self, by omega, hlast⟩
        · exact ⟨m', List.mem_cons_of_mem _ hm', by omega, hlast⟩

/-! ## Offsets -/

def needsOffset (offset : Int) : Prop := special offset = true ∨ offset = OFFSET_COMMITTED

theorem not_needsOffset {offset : Int} (h : 0 ≤ offset) : ¬ needsOffset offset := by
  rintro (hs | rfl)
  · obtain rfl | rfl := of_decide_eq_true hs
    · exact absurd h (by decide)
    · exact absurd h (by decide)
  · exact absurd h (by decide)

theorem answered_nonneg {responses : List OffsetAnswer} {offset : Int} (h : answered responses = some offset) :
    0 ≤ offset := by
  unfold answered at h
  split at h
  · obtain rfl := Option.some.inj h; omega
  · obtain rfl := Option.some.inj h; omega
  · cases h

/-! ## One block at a time -/

def Flow.delivered (f : Flow) : List OffsetAndMessage := f.blocks.flatMap fun b => b.messages

def Flow.held (f : Flow) : List OffsetAndMessage := (f.gen.map fun g => g.rest).getD []

theorem blockOf_append_restOf (cfg : Config) (messages : List OffsetAndMessage) :
    blockOf cfg messages ++ restOf cfg messages = messages := by
  unfold blockOf restOf
  split
  · exact List.append_nil messages
  · exact List.take_append_drop ..

theorem blockOf_ne_nil (cfg : Config) {messages : List OffsetAndMessage} (h : messages ≠ []) :
    blockOf cfg messages ≠ [] := by
  unfold blockOf
  split
  · exact h
  · next hn => simpa [List.take_eq_nil_iff, hn] using h

theorem setOutcome_last (done : List Block) (block : Block) (ok : Bool) :
    setOutcome (done ++ [block]) done.length ok = done ++ [{ block with outcome := some ok }] := by
  unfold setOutcome
  induction done with
  | nil => rfl
  | cons b done ih => rw [List.cons_append, List.length_cons, List.modify_succ_cons, ih, List.cons_append]

def Gen.busy (g : Gen) : Bool :=
  match g.phase with
  | .calling | .waiting _ => true
  | .limbo | .check | .loop | .break => false

structure Serial (f : Flow) : Prop where
  busy : ∀ g, f.gen = some g → g.busy = true → ∃ done messages,
    f.blocks = done ++ [⟨messages, none⟩] ∧ g.block = done.length ∧ g.last = lastOffset messages ∧ messages ≠ [] ∧
      ∀ b ∈ done, b.outcome ≠ none
  idle : (∀ g, f.gen = some g → g.busy = false) → ∀ b ∈ f.blocks, b.outcome ≠ none

theorem Gen.busy_iff (g : Gen) : g.busy = true ↔ g.phase = .calling ∨ ∃ b, g.phase = .waiting b := by
  unfold Gen.busy
  split <;> simp_all

theorem Gen.not_busy {g : Gen} (h : g.phase = .limbo ∨ g.phase = .check ∨ g.phase = .loop ∨ g.phase = .break) :
    g.busy = false := by
  unfold Gen.busy
  split <;> simp_all

theorem idle_of_gen {g : Gen} (hgen : f.gen = some g)
    (h : g.phase = .limbo ∨ g.phase = .check ∨ g.phase = .loop ∨ g.phase = .break) :
    ∀ g', f.gen = some g' → g'.busy = false := by
  intro g' hg'
  obtain rfl := Option.some.inj (hgen.symm.trans hg')
  exact Gen.not_busy h

theorem Serial.frame (h : Serial f) (hblocks : f'.blocks = f.blocks) (hbefore : ∀ g, f.gen = some g → g.busy = false)
    (hafter : ∀ g, f'.gen = some g → g.busy = false) : Serial f' where
  busy := fun g hg hbusy => absurd hbusy (by simp [hafter g hg])
  idle := fun _ => hblocks ▸ h.idle hbefore

theorem Serial.call (h : Serial f) (hidle : ∀ g, f.gen = some g → g.busy = false) {messages : List OffsetAndMessage}
    (hne : messages ≠ []) : Serial (f.call cfg messages) where
  busy := by
    rintro g hg -
    obtain rfl := Option.some.inj hg
    exact ⟨f.blocks, blockOf cfg messages, rfl, rfl, rfl, blockOf_ne_nil cfg hne, h.idle hidle⟩
  idle := fun hno => absurd (hno _ rfl) (by simp [Gen.busy])

theorem serial_move (h : Serial f) (hm : Move k f f') : Serial f' := by
  cases hm with
  | start offset _ hgen => exact ⟨fun g hg => by simp [hgen] at hg, fun _ b hb => by simp at hb⟩
  | ask | fail | reset | resolve | unresolved | park | commit | stop | stopLater | dropBlock | shutdown | reopen =>
    exact ⟨h.busy, h.idle⟩
  | read _ _ _ hgen =>
    rw [read_eq]
    exact h.frame rfl (by simp [hgen]) (idle_of_gen rfl (.inl rfl))
  | forget g hgen hphase => exact h.frame rfl (idle_of_gen hgen (.inl hphase)) (by simp)
  | begin g hgen hphase hrest =>
    have hblock : Serial { f with msgBlockD := true } := ⟨h.busy, h.idle⟩
    exact hblock.call (idle_of_gen hgen (.inl hphase)) hrest
  | hand g hgen hphase hrest => exact h.call (idle_of_gen hgen (.inr (hphase.imp_right .inl))) hrest
  | wait g b hgen hphase =>
    have hbusy := h.busy g hgen ((Gen.busy_iff g).mpr hphase)
    refine ⟨fun g' hg' _ => ?_, fun hno => absurd (hno _ rfl) (by simp [Gen.busy])⟩
    obtain rfl := Option.some.inj hg'
    exact hbusy
  | done g ok phase hgen hphase _ hnext =>
    obtain ⟨done, messages, hblocks, hblock, -, -, hdone⟩ := h.busy g hgen ((Gen.busy_iff g).mpr hphase)
    have hafter := idle_of_gen (f := { f with gen := some { g with phase := phase } }) rfl (.inr hnext)
    refine ⟨fun g' hg' hbusy => absurd hbusy (by simp [hafter g' hg']), fun _ b hb => ?_⟩
    dsimp only at hb
    rw [hblocks, hblock, setOutcome_last] at hb
    obtain hb | hb := List.mem_append.mp hb
    · exact hdone b hb
    · obtain rfl := List.mem_singleton.mp hb
      simp
  | finish g hgen hphase => exact h.frame rfl (idle_of_gen hgen (.inr hphase)) (by simp)
  | finishParked g responses hgen hphase =>
    rw [read_eq]
    exact h.frame rfl (idle_of_gen hgen (.inr hphase)) (idle_of_gen rfl (.inl rfl))
  | die g hgen hphase => exact h.frame rfl (idle_of_gen hgen (.inr (hphase.imp_right .inl))) (by simp)

theorem Serial.resolved (h : Serial f) : ∀ b ∈ f.blocks.dropLast, b.outcome ≠ none := by
  by_cases hbusy : ∃ g, f.gen = some g ∧ g.busy = true
  · obtain ⟨g, hg, hb⟩ := hbusy
    obtain ⟨done, messages, hblocks, -, -, -, hdone⟩ := h.busy g hg hb
    simpa [hblocks] using hdone
  · have hidle := h.idle fun g hg => by simpa using fun hb => hbusy ⟨g, hg, hb⟩
    exact fun b hb => hidle b (List.mem_of_mem_dropLast hb)

end Afkak.Consumer
