import Afkak.Consumer.Fetching
import Afkak.Consumer.Reports

/-!
# The retries of a fetch

`_fetch_attempt_count` is compared with `request_retry_max_attempts` when a request fails. `Attempts` says
what the count is made of: the failures, and the other fetches that `_retry_fetch` has scheduled.
-/

open Lib

namespace Afkak.Consumer

variable {cfg : Config} {s t u : State} {o : CancelOutcome}

/-! ## A request fails -/

def cancelFailure (s t : State) (o : CancelOutcome) : Option Exc :=
  if Active s.requestD ∧ ¬ Active t.requestD ∧ o.request ≠ some .tidCancelled then o.request else none

/-- That a request is cancelled while the consumer stops is no failure. -/
def uncancelled (s : State) (exc : Exc) : Option Exc := if s.stopping ∧ exc = .tidCancelled then none else some exc

/-- An attempt to fetch fails in this step: the request, or what reads its response. -/
def failure (s : State) (e : Event) (t : State) : Option Exc :=
  match e with
  | .offsetResult (.error exc) | .fetchResult (.error exc) => uncancelled s exc
  | .stop o | .shutdown o => cancelFailure s t o
  | .resume o =>
    match s.agenda with
    | .fetchError exc :: _ => uncancelled s exc
    | _ => cancelFailure s t o
  | _ => none

def schedules (s : State) : Event → Bool
  | .resume _ =>
    match s.agenda with
    | .retryFetch :: _ => ¬ (s.stopping ∨ s.shuttingdown ∨ s.startD.isNone ∨ s.retryCall.isSome)
    | _ => false
  | _ => false

/-- What has happened since the consumer was started, or since the last response. -/
structure Attempts where
  failures : Nat := 0
  scheduled : Nat := 0
  left : Nat := 0

def Attempts.next (s : State) (e : Event) (t : State) (g : Attempts) : Attempts :=
  match e with
  | .start _ => if s.startD = none then { left := s.fetchAttemptCount - 1 } else g
  | .offsetResult (.ok _) | .fetchResult (.ok _) => {}
  | e =>
    if (failure s e t).isSome then { g with failures := g.failures + 1 }
    else if schedules s e then { g with scheduled := g.scheduled + 1 }
    else g

def attempt (cfg : Config) (x : State × Attempts) (e : Event) : Option (State × Attempts) :=
  (step cfg x.1 e).map fun t => (t, x.2.next x.1 e t)

/-! ## What a request that fails leads to -/

def Attempts.surplus (g : Attempts) : Nat := g.scheduled + g.left

def Trying (s : State) : Prop := Active s.requestD ∨ RetryActive s ∨ s.tails ≠ []

def Counts (cfg : Config) (n : Nat) (g : Attempts) : Prop :=
  n = g.failures + g.surplus + 1 ∧ g.failures < cfg.requestRetryMaxAttempts

structure Fits (cfg : Config) (s : State) (g : Attempts) : Prop where
  limit : s.requestRetryMaxAttempts = cfg.requestRetryMaxAttempts
  count : 1 ≤ s.fetchAttemptCount
  counted : Trying s → Counts cfg s.fetchAttemptCount g
  parked : s.parked ≠ none → s.fetchAttemptCount = 1 ∧ g = {}
  retry : Active s.requestD ∨ s.parked ≠ none ∨ s.tails ≠ [] → s.retryCall = none
  scheduled : g.scheduled + s.tails.length ≤ 1

structure Rests (cfg : Config) (s : State) : Prop where
  limit : s.requestRetryMaxAttempts = cfg.requestRetryMaxAttempts
  count : 1 ≤ s.fetchAttemptCount
  requestD : s.requestD = none
  retryCall : s.retryCall = none
  parked : s.parked = none
  tails : s.tails = []

variable {g : Attempts}

theorem Rests.fits (h : Rests cfg s) (hg : g.scheduled ≤ 1) : Fits cfg s g where
  limit := h.limit
  count := h.count
  counted := by
    rintro (hactive | ⟨delay, hcall⟩ | htails)
    · exact absurd (h.requestD ▸ hactive) not_active_none
    · exact absurd (h.retryCall.symm.trans hcall) (by simp)
    · exact absurd h.tails htails
  parked hparked := absurd h.parked hparked
  retry _ := h.retryCall
  scheduled := by rw [h.tails]; exact hg

theorem Rests.steady (h : Rests cfg s) (hN : 0 < cfg.requestRetryMaxAttempts) (ht : Steady s t) : Rests cfg t where
  limit := (ht.limit (by rw [h.limit]; omega)).trans h.limit
  count := ht.count ▸ h.count
  requestD := ht.requestD.trans h.requestD
  retryCall := ht.retryCall.trans h.retryCall
  parked := ht.parked.trans h.parked
  tails := ht.tails.trans h.tails

theorem Fits.keeps (h : Fits cfg s g) (hN : 0 < cfg.requestRetryMaxAttempts) (ht : Keeps s t) : Fits cfg t g where
  limit := (ht.limit (by rw [h.limit]; omega)).trans h.limit
  count := ht.count ▸ h.count
  counted := by
    rw [ht.count]
    refine fun htrying => h.counted ?_
    obtain hactive | hretry | htails := htrying
    · obtain hreq | hreq := ht.request
      · exact .inl (hreq ▸ hactive)
      · exact absurd (hreq ▸ hactive) not_active_none
    · obtain hcall | ⟨hactive, -⟩ := ht.retry
      · exact .inr (.inl (by unfold RetryActive at *; rwa [← hcall]))
      · exact .inr (.inl hactive)
    · exact .inr (.inr (ht.tails ▸ htails))
  parked hparked := by
    obtain hsame | ⟨hnone, -⟩ := ht.parked
    · rw [ht.count]; exact h.parked (hsame ▸ hparked)
    · exact absurd hnone hparked
  retry hor := by
    have hnone : s.retryCall = none := by
      obtain hactive | hparked | htails := hor
      · obtain hreq | hreq := ht.request
        · exact h.retry (.inl (hreq ▸ hactive))
        · exact absurd (hreq ▸ hactive) not_active_none
      · obtain hsame | ⟨hnone, -⟩ := ht.parked
        · exact h.retry (.inr (.inl (hsame ▸ hparked)))
        · exact absurd hnone hparked
      · exact h.retry (.inr (.inr (ht.tails ▸ htails)))
    obtain hcall | ⟨⟨delay, hactive⟩, -⟩ := ht.retry
    · exact hcall.trans hnone
    · exact absurd (hnone.symm.trans hactive) (by simp)
  scheduled := ht.tails ▸ h.scheduled

theorem Rests.retried (h : Rests cfg s) (hg : g.scheduled ≤ 1) (after : Option Rat)
    (hcounts : ¬ (s.stopping ∨ s.shuttingdown ∨ s.startD.isNone ∨ s.retryCall.isSome) →
      Counts cfg (s.fetchAttemptCount + 1) g) : Fits cfg (retryFetch cfg s after) g := by
  unfold retryFetch
  split
  · exact h.fits hg
  · next hguard =>
    refine ⟨h.limit, Nat.le_add_left 1 _, fun _ => hcounts hguard, fun hparked => absurd h.parked hparked, ?_,
      (h.fits hg).scheduled⟩
    rintro (hactive | hparked | htails)
    · exact absurd (h.requestD ▸ hactive) not_active_none
    · exact absurd h.parked hparked
    · exact absurd h.tails htails

def Attempts.note (g : Attempts) (failed : Option Exc) : Attempts :=
  if failed.isSome then { g with failures := g.failures + 1 } else g

theorem Attempts.note_scheduled (g : Attempts) (failed : Option Exc) : (g.note failed).scheduled = g.scheduled := by
  unfold Attempts.note
  split <;> rfl

theorem Rests.failed (h : Rests cfg s) (hN : 0 < cfg.requestRetryMaxAttempts)
    (hcounts : Counts cfg s.fetchAttemptCount g) (hg : g.scheduled ≤ 1) (e : Exc) :
    Fits cfg (retryOrGiveUp cfg s e) (g.note (uncancelled s e)) := by
  have hroom : (g.note (uncancelled s e)).scheduled ≤ 1 := by rw [Attempts.note_scheduled]; exact hg
  unfold retryOrGiveUp
  split
  · exact h.fits hroom
  next hfails =>
  split
  · exact (h.steady hN (errbackStart_steady s)).fits hroom
  · next hlimit =>
    have hnote : g.note (uncancelled s e) = { g with failures := g.failures + 1 } := by
      rw [uncancelled, if_neg hfails]
      rfl
    rw [hnote]
    refine h.retried (g := { g with failures := g.failures + 1 }) hg none fun _ => ?_
    have hbelow : s.fetchAttemptCount < cfg.requestRetryMaxAttempts := by
      rw [← h.limit]
      have hne : s.requestRetryMaxAttempts ≠ 0 := by rw [h.limit]; omega
      omega
    obtain ⟨hcount, -⟩ := hcounts
    simp only [Counts, Attempts.surplus] at hcount ⊢
    omega

theorem Rests.asked (h : Rests cfg { s with retryCall := none }) (hN : 0 < cfg.requestRetryMaxAttempts)
    (hcounts : Counts cfg s.fetchAttemptCount g) (hg : g.scheduled ≤ 1) : Fits cfg (doFetch cfg s) g := by
  obtain ⟨r, hfeed, hlimit⟩ := doFetch_feed cfg (s := s) h.requestD
  simp only [State.feed, Prod.mk.injEq] at hfeed
  obtain ⟨hcount, -, -, hcall, hparked, -, htails⟩ := hfeed
  have hsN : s.requestRetryMaxAttempts = cfg.requestRetryMaxAttempts := h.limit
  refine ⟨(hlimit (by omega)).trans hsN, hcount ▸ h.count, fun _ => hcount ▸ hcounts,
    fun hp => absurd (hparked.trans h.parked) hp, fun _ => hcall, ?_⟩
  have hnil : s.tails = [] := h.tails
  rw [htails, hnil]
  exact hg

theorem Read.fits {responses : List FetchResponse} (h : Read cfg responses s t) (hN : 0 < cfg.requestRetryMaxAttempts)
    (hlimit : s.requestRetryMaxAttempts = cfg.requestRetryMaxAttempts) (hcount : s.fetchAttemptCount = 1)
    (hcall : s.retryCall = none) (hparked : s.parked = none) (htails : s.tails = []) : Fits cfg t {} := by
  obtain ⟨tails, hlength, hfeed⟩ := h.feed
  simp only [State.feed, Prod.mk.injEq, htails, List.append_nil] at hfeed
  obtain ⟨htcount, -, -, htcall, htparked, -, httails⟩ := hfeed
  have hone : t.fetchAttemptCount = 1 := htcount.trans hcount
  refine ⟨(h.limit (by omega)).trans hlimit, by omega, fun _ => ⟨hone, hN⟩,
    fun hp => absurd (htparked.trans hparked) hp, fun _ => htcall.trans hcall, ?_⟩
  rw [httails]
  exact (Nat.zero_add _).le.trans hlength

theorem tails_nil (hreached : Reached cfg s) (hreq : s.requestD ≠ none) : s.tails = [] :=
  List.filter_eq_nil_iff.mpr fun a ha => by simp [hreached.tidy.no_tail hreq a ha]

theorem Fits.answered (h : Fits cfg s g) (hreached : Reached cfg s) (hreq : Active s.requestD) :
    Rests cfg { s with requestD := none } := by
  have hparked : s.parked = none := hreached.tidy.parked_none_of_active hreq
  have htails : s.tails = [] := tails_nil hreached fun hnone => not_active_none (hnone ▸ hreq)
  exact ⟨h.limit, h.count, rfl, h.retry (.inl hreq), hparked, htails⟩

theorem Rests.keeps (h : Rests cfg { s with requestD := none }) (hN : 0 < cfg.requestRetryMaxAttempts) (ht : Keeps s t)
    (hreq : t.requestD = none) : Rests cfg t where
  limit := (ht.limit (show s.requestRetryMaxAttempts ≠ 0 by have := h.limit; dsimp only at this; omega)).trans h.limit
  count := ht.count ▸ h.count
  requestD := hreq
  retryCall := by
    obtain hcall | ⟨⟨delay, hactive⟩, -⟩ := ht.retry
    · exact hcall.trans h.retryCall
    · exact absurd (h.retryCall.symm.trans hactive) (by simp)
  parked := ht.parked.elim (fun hsame => hsame.trans h.parked) (·.1)
  tails := ht.tails.trans h.tails

theorem cancelFailure_eq_some {exc : Exc} : cancelFailure s t o = some exc ↔
    (Active s.requestD ∧ ¬ Active t.requestD ∧ o.request ≠ some .tidCancelled) ∧ o.request = some exc := by
  rw [cancelFailure, Option.ite_none_right_eq_some]

theorem Aside.failed {e : Event} {exc : Exc} (h : Aside cfg e.cancels s t) (hreached : Reached cfg s)
    (hfailure : e.cancels.bind (cancelFailure s t) = some exc) :
    ∃ o u after, Silent s u ∧ t = stop cfg u o after ∧ Active s.requestD ∧ t.requestD = none ∧
      o.request = some exc ∧ exc ≠ .tidCancelled := by
  obtain ⟨o, ho, hcancel⟩ := Option.bind_eq_some_iff.mp hfailure
  obtain ⟨⟨hactive, hno, htid⟩, hexc⟩ := cancelFailure_eq_some.mp hcancel
  cases h with
  | keeps _ hreq => exact absurd (hreq ▸ hactive) hno
  | takes u responses hparked _ _ =>
    obtain ⟨-, hfetched, -⟩ := hreached.tidy.parked (by simp [hparked])
    exact absurd (hfetched ▸ hactive) not_active_fetched
  | stops o' ho' u after hu ht =>
    obtain rfl : o = o' := Option.some.inj (ho.symm.trans ho')
    have hkeeps : Keeps s t := ht ▸ (stop_keeps u o after).after hu
    have hreq : t.requestD = none := hkeeps.request.resolve_left fun hsame => hno (hsame ▸ hactive)
    exact ⟨o, u, after, hu, ht, hactive, hreq, hexc, fun heq => htid (heq ▸ hexc)⟩

def Fatal (cfg : Config) (s : State) (exc : Exc) : Prop :=
  exc = .offsetOutOfRange ∧ cfg.autoOffsetReset = none ∧ s.requestD ≠ some .offset

/-- The count reaches the limit before the failures do. -/
def Attempts.Ahead (cfg : Config) (g : Attempts) : Prop :=
  g.failures + 1 < cfg.requestRetryMaxAttempts ∧ cfg.requestRetryMaxAttempts ≤ g.failures + g.surplus + 1

def Budgeted (cfg : Config) (x : State × Attempts) (e : Event) : Prop :=
  ∀ t exc, step cfg x.1 e = some t → failure x.1 e t = some exc → x.1.startD = some false →
    (¬ x.2.Ahead cfg →
      (t.startD = some true ↔ x.2.failures + 1 = cfg.requestRetryMaxAttempts ∨ Fatal cfg x.1 exc) ∧
      (t.startD ≠ some true → t.ended = false → t.shuttingdown = false → RetryActive t)) ∧
    (x.2.failures = 0 → x.2.left = 0 → 3 ≤ cfg.requestRetryMaxAttempts → ¬ Fatal cfg x.1 exc → t.startD ≠ some true)

end Afkak.Consumer
