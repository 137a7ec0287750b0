import Afkak.Consumer.Steps

/-!
# The consumer does not stall

A response handler may raise where nobody listens: in `_handle_offset_response`, which has no errback
behind it, and in a response that waited for a block. A `_request_d` that is left over from an earlier run
keeps `_do_fetch` from asking. Apart from these the consumer always has something to wait for.
-/

open Lib

namespace Afkak.Consumer

/-- No handler raises where nobody listens, and `start` finds no old request. -/
def orderly (cfg : Config) : Cond cfg where
  start f _ := f.requestD = none
  answer _ responses := wellFormed responses = true
  reset := True
  response f _ responses := f.msgBlockD = true → smooth cfg responses = true
  outcome _ _ := True
  live := True
  start_live _ _ _ h := h
  answer_live _ _ _ h := h
  response_live _ _ _ _ h := h

instance (cfg : Config) (f : Flow) (o : Int) : Decidable ((orderly cfg).start f o) :=
  inferInstanceAs (Decidable (f.requestD = none))
instance (cfg : Config) (f : Flow) (l : List OffsetAnswer) : Decidable ((orderly cfg).answer f l) :=
  inferInstanceAs (Decidable (wellFormed l = true))
instance (cfg : Config) : Decidable (orderly cfg).reset := .isTrue trivial
instance (cfg : Config) (f : Flow) (o : Int) (l : List FetchResponse) : Decidable ((orderly cfg).response f o l) :=
  inferInstanceAs (Decidable (f.msgBlockD = true → smooth cfg l = true))
instance (cfg : Config) (f : Flow) (b : Bool) : Decidable ((orderly cfg).outcome f b) := .isTrue trivial

variable {cfg : Config} {s t : State}

theorem GenOk.at_rest {g : Gen} (h : GenOk s) (hagenda : s.agenda = []) (hg : s.gen = some g) :
    s.processorD = true ∧ ∃ b, g.phase = .waiting b := by
  simp only [GenOk, hg, hagenda] at h
  split at h
  · simp at h
  · simp at h
  · next b hphase => exact ⟨h.1, b, hphase⟩
  · simp at h
  · simp at h
  · simp at h

end Afkak.Consumer
