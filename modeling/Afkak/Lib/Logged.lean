import Afkak.Lib.Reader

/-!
# Readers with a log

A logged reader gives its events as well, also those before an error. `Pays fair good cost d k p`
says what a run of `p` over fair events does: all its events are good, it moves the cursor forward
by `k` and by the cost of its events, and a run that fails costs at most `d` more than the data it
had in front of it. The contract composes along `>>=` and along counted loops that log each round.
-/

namespace Lib

variable {β ε ω α γ : Type}

def Logged (β ε ω α : Type) : Type := List β → Int → List ω × Except ε (α × Int)

namespace Logged

def seq (p : Logged β ε ω α) (k : α → Logged β ε ω γ) : Logged β ε ω γ := fun data cur =>
  match p data cur with
  | (log, .error e) => (log, .error e)
  | (log, .ok (a, cur)) => (log ++ (k a data cur).1, (k a data cur).2)

instance : Monad (Logged β ε ω) where
  pure a := fun _ cur => ([], .ok (a, cur))
  bind := seq

def raise (e : ε) : Logged β ε ω α := fun _ _ => ([], .error e)

def log (e : ω) : Logged β ε ω Unit := fun _ cur => ([e], .ok ((), cur))

/-- One read, which is logged when it returns. -/
def field (event : α → Int → Int → ω) (p : Reader β ε α) : Logged β ε ω α := fun data cur =>
  match p data cur with
  | .error e => ([], .error e)
  | .ok (a, next) => ([event a cur next], .ok (a, next))

/-- `for _ in range(n): out.append(p)`; each round logs `tick` first. -/
def times (tick : ω) (p : Logged β ε ω α) : Nat → Logged β ε ω (List α)
  | 0 => pure []
  | n + 1 => do
    log tick
    let a ← p
    let l ← times tick p n
    return a :: l

end Logged

open Logged

/-! ## Contracts -/

section Pays

variable (fair good : List β → ω → Prop) (cost : ω → Nat)

def total : List ω → Nat
  | [] => 0
  | e :: l => cost e + total l

theorem total_append (l l' : List ω) : total cost (l ++ l') = total cost l + total cost l' := by
  induction l with
  | nil => simp [total]
  | cons e l ih =>
    rw [List.cons_append, total, total, ih]
    omega

/-- What a run from `cur` has to show for its cost. -/
structure Paid (d k : Nat) (data : List β) (cur : Int) (r : List ω × Except ε (α × Int)) : Prop where
  good : ∀ e ∈ r.1, good data e
  value : ∀ a next, r.2 = .ok (a, next) → cur + k + total cost r.1 ≤ next ∧ next ≤ data.length
  error : ∀ e, r.2 = .error e → cur + total cost r.1 ≤ data.length + d

def Pays (d k : Nat) (p : Logged β ε ω α) : Prop :=
  ∀ data cur, 0 ≤ cur → cur ≤ data.length → (∀ e ∈ (p data cur).1, fair data e) →
    Paid good cost d k data cur (p data cur)

variable {fair good cost}

theorem Pays.mono {d d' k k' : Nat} {p : Logged β ε ω α} (h : Pays fair good cost d k p) (hd : d ≤ d')
    (hk : k' ≤ k) : Pays fair good cost d' k' p := by
  intro data cur h0 hle hfair
  obtain ⟨hgood, hvalue, herror⟩ := h data cur h0 hle hfair
  refine ⟨hgood, ?_, ?_⟩
  · intro a next hr
    have := hvalue a next hr
    omega
  · intro e hr
    have := herror e hr
    omega

theorem Pays.pure (a : α) : Pays fair good cost 0 0 (Pure.pure a : Logged β ε ω α) := by
  intro data cur h0 hle hfair
  refine ⟨by simp [Pure.pure], ?_, ?_⟩
  · rintro _ _ ⟨⟩
    simp [Pure.pure, total, hle]
  · rintro _ ⟨⟩

theorem Pays.raise (e : ε) (k : Nat) : Pays fair good cost 0 k (Logged.raise e : Logged β ε ω α) := by
  intro data cur h0 hle hfair
  refine ⟨by simp [Logged.raise], ?_, ?_⟩
  · rintro _ _ ⟨⟩
  · rintro _ ⟨⟩
    simpa [Logged.raise, total] using hle

theorem Pays.bind {d d' k k' : Nat} {p : Logged β ε ω α} {q : α → Logged β ε ω γ}
    (hp : Pays fair good cost d k p) (hq : ∀ a, Pays fair good cost d' k' (q a)) :
    Pays fair good cost (max d (d' - k)) (k + k') (p >>= q) := by
  intro data cur h0 hle
  show (∀ e ∈ (seq p q data cur).1, fair data e) → Paid good cost _ _ data cur (seq p q data cur)
  have hpay := hp data cur h0 hle
  unfold seq
  rcases hrun : p data cur with ⟨log, e | ⟨a, next⟩⟩
  · intro hfair
    rw [hrun] at hpay
    obtain ⟨hgood, -, herror⟩ := hpay hfair
    refine ⟨hgood, ?_, ?_⟩
    · rintro _ _ ⟨⟩
    · intro e' _
      have := herror e rfl
      simp only at this ⊢
      omega
  · intro hfair
    rw [hrun] at hpay
    obtain ⟨hgood, hvalue, -⟩ := hpay fun e he => hfair e (List.mem_append_left _ he)
    obtain ⟨hlow, hhigh⟩ := hvalue a next rfl
    simp only at hlow hhigh
    obtain ⟨hgood', hvalue', herror'⟩ := hq a data next (by omega) hhigh
      fun e he => hfair e (List.mem_append_right _ he)
    have htotal := total_append cost log (q a data next).1
    refine ⟨?_, ?_, ?_⟩
    · intro e he
      rcases List.mem_append.mp he with he | he
      · exact hgood e he
      · exact hgood' e he
    · intro b last hr
      have := hvalue' b last hr
      simp only [htotal]
      omega
    · intro e hr
      have := herror' e hr
      simp only [htotal]
      omega

/-- What has to follow `p` for a given contract. -/
theorem Pays.andThen {d k n : Nat} {p : Logged β ε ω α} {q : α → Logged β ε ω γ}
    (hp : Pays fair good cost d n p) (hq : ∀ a, Pays fair good cost (d + n) (k - n) (q a)) :
    Pays fair good cost d k (p >>= q) :=
  (hp.bind hq).mono (by omega) (by omega)

theorem Pays.thenRead {d k n : Nat} {p : Logged β ε ω α} {q : α → Logged β ε ω γ}
    (hp : Pays fair good cost 0 n p) (hq : ∀ a, Pays fair good cost (d + n) (k - n) (q a)) :
    Pays fair good cost d k (p >>= q) :=
  (hp.mono (Nat.zero_le d) (Nat.le_refl n)).andThen hq

theorem Pays.field {k : Nat} {event : α → Int → Int → ω} {p : Reader β ε α}
    (hcost : ∀ a cur next, cost (event a cur next) = 0)
    (hread : ∀ data cur a next, 0 ≤ cur → cur ≤ data.length → p data cur = .ok (a, next) →
      fair data (event a cur next) → good data (event a cur next) ∧ cur + k ≤ next ∧ next ≤ data.length) :
    Pays fair good cost 0 k (Logged.field event p) := by
  intro data cur h0 hle
  unfold Logged.field
  rcases hrun : p data cur with e | ⟨a, next⟩
  · intro _
    refine ⟨by simp, ?_, ?_⟩
    · rintro _ _ ⟨⟩
    · intro _ _
      simpa [total] using hle
  · intro hfair
    obtain ⟨hgood, hlow, hhigh⟩ := hread data cur a next h0 hle hrun (hfair _ List.mem_cons_self)
    refine ⟨by simpa using hgood, ?_, ?_⟩
    · rintro _ _ ⟨⟩
      simpa [total, hcost] using ⟨hlow, hhigh⟩
    · rintro _ ⟨⟩

/-- The rounds of a loop pay for their ticks out of what they read. -/
theorem Pays.tick {d k : Nat} {tick : ω} {p : Logged β ε ω α} (hgood : ∀ data : List β, good data tick)
    (hcost : cost tick = 1) (hp : Pays fair good cost d (k + 1) p) :
    Pays fair good cost (d + 1) k (log tick >>= fun _ => p) := by
  intro data cur h0 hle hfair
  change ∀ e ∈ tick :: (p data cur).1, fair data e at hfair
  show Paid good cost _ _ data cur (tick :: (p data cur).1, (p data cur).2)
  obtain ⟨hgood', hvalue, herror⟩ := hp data cur h0 hle fun e he => hfair e (List.mem_cons_of_mem _ he)
  have htotal : total cost (tick :: (p data cur).1) = 1 + total cost (p data cur).1 := by
    simp [total, hcost]
  refine ⟨?_, ?_, ?_⟩
  · intro e he
    rcases List.mem_cons.mp he with rfl | he
    · exact hgood data
    · exact hgood' e he
  · intro a next hr
    have := hvalue a next hr
    simp only [htotal]
    omega
  · intro e hr
    have := herror e hr
    simp only [htotal]
    omega

theorem Pays.times {d k : Nat} {tick : ω} {p : Logged β ε ω α} (hgood : ∀ data : List β, good data tick)
    (hcost : cost tick = 1) (hp : Pays fair good cost d (k + 1) p) (n : Nat) :
    Pays fair good cost (d + 1) 0 (Logged.times tick p n) := by
  induction n with
  | zero => exact (Pays.pure []).mono (by omega) (Nat.le_refl 0)
  | succ n ih =>
    have hrest : ∀ a, Pays fair good cost (d + 1) 0 (Logged.times tick p n >>= fun l => Pure.pure (a :: l)) := by
      intro a
      exact (ih.bind fun l => Pays.pure (a :: l)).mono (by omega) (by omega)
    have hround : Pays fair good cost d (k + 1)
      (p >>= fun a => Logged.times tick p n >>= fun l => Pure.pure (a :: l)) :=
      (hp.bind hrest).mono (by omega) (by omega)
    exact (Pays.tick hgood hcost hround).mono (Nat.le_refl _) (by omega)

end Pays

end Lib
