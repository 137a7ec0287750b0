import Afkak.Lib.Logged

/-!
# What a logged reader emits

Some events of a log are values that the reader gives out before it is done. `Emits out u p bs a ys` says that `p` reads
`bs` as `a` wherever `bs` stands in the data, and emits `ys` meanwhile; on data that ends inside `bs` it fails with the
underflow error `u`, and has emitted the first few of `ys`. The contract composes along `>>=` and along counted loops.
-/

namespace Lib

variable {β ε ω α γ ρ : Type}

def emitted (out : ω → Option ρ) (log : List ω) : List ρ := log.filterMap out

structure Emits (out : ω → Option ρ) (u : ε) (p : Logged β ε ω α) (bs : List β) (a : α) (ys : List ρ) : Prop where
  reads : ∀ l r, (p (l ++ (bs ++ r)) l.length).2 = .ok (a, (l.length + bs.length : Nat)) ∧
    emitted out (p (l ++ (bs ++ r)) l.length).1 = ys
  underflows : ∀ l c, c <+: bs → c ≠ bs → (p (l ++ c) l.length).2 = .error u ∧
    emitted out (p (l ++ c) l.length).1 <+: ys

namespace Emits

variable {out : ω → Option ρ} {u : ε}

theorem pure (a : α) : Emits out u (Pure.pure a : Logged β ε ω α) [] a [] where
  reads _ _ := ⟨rfl, rfl⟩
  underflows _ _ hc hne := absurd (List.prefix_nil.mp hc) hne

theorem field {event : α → Int → Int → ω} {p : Reader β ε α} {bs : List β} {a : α} (hp : Parses u p bs a)
    (hout : ∀ a cur next, out (event a cur next) = none) : Emits out u (Logged.field event p) bs a [] where
  reads l r := by
    unfold Logged.field
    rw [hp.reads l r]
    exact ⟨rfl, by simp [emitted, hout]⟩
  underflows l c hc hne := by
    unfold Logged.field
    rw [hp.underflows l c hc hne]
    exact ⟨rfl, List.prefix_rfl⟩

theorem log (e : ω) : Emits out u (Logged.log e : Logged β ε ω Unit) [] () (out e).toList where
  reads l r := by
    refine ⟨rfl, ?_⟩
    cases h : out e <;> simp [Logged.log, emitted, h]
  underflows _ _ hc hne := absurd (List.prefix_nil.mp hc) hne

theorem bind {p : Logged β ε ω α} {k : α → Logged β ε ω γ} {bs cs : List β} {a : α} {b : γ} {ys zs : List ρ}
    (hp : Emits out u p bs a ys) (hk : Emits out u (k a) cs b zs) : Emits out u (p >>= k) (bs ++ cs) b (ys ++ zs) := by
  -- What comes after a first part that is read whole.
  have hseq (l r : List β) : (Logged.seq p k (l ++ (bs ++ r)) l.length).2 = (k a ((l ++ bs) ++ r) (l ++ bs).length).2 ∧
      emitted out (Logged.seq p k (l ++ (bs ++ r)) l.length).1 =
        ys ++ emitted out (k a ((l ++ bs) ++ r) (l ++ bs).length).1 := by
    obtain ⟨hval, hys⟩ := hp.reads l r
    unfold Logged.seq
    generalize p (l ++ (bs ++ r)) l.length = run at hval hys
    obtain ⟨log, res⟩ := run
    obtain rfl : res = .ok (a, _) := hval
    have hys : emitted out log = ys := hys
    dsimp only
    rw [List.length_append, List.append_assoc, emitted, List.filterMap_append, ← hys]
    exact ⟨rfl, rfl⟩
  constructor
  · intro l r
    obtain ⟨hval, hys⟩ := hseq l (cs ++ r)
    obtain ⟨hval', hzs⟩ := hk.reads (l ++ bs) r
    rw [List.append_assoc bs cs r]
    refine ⟨hval.trans (hval'.trans ?_), hys.trans (by rw [hzs])⟩
    rw [List.length_append, List.length_append, Nat.add_assoc]
  · intro l c hc hne
    rcases prefix_append_cases bs cs c hc with ⟨hbs, hcne⟩ | ⟨d, hd, rfl⟩
    · obtain ⟨hval, hys⟩ := hp.underflows l c hbs hcne
      show (Logged.seq p k (l ++ c) l.length).2 = _ ∧ emitted out (Logged.seq p k (l ++ c) l.length).1 <+: _
      unfold Logged.seq
      generalize p (l ++ c) l.length = run at hval hys
      obtain ⟨log, res⟩ := run
      obtain rfl : res = .error u := hval
      exact ⟨rfl, hys.trans (List.prefix_append ys zs)⟩
    · obtain ⟨hval, hys⟩ := hseq l d
      obtain ⟨hval', hzs⟩ := hk.underflows (l ++ bs) d hd fun h => hne (by rw [h])
      refine ⟨hval.trans hval', ?_⟩
      show emitted out (Logged.seq p k (l ++ (bs ++ d)) l.length).1 <+: _
      rw [hys]
      exact (List.prefix_append_right_inj ys).mpr hzs

theorem last {p : Logged β ε ω α} {k : α → Logged β ε ω γ} {bs : List β} {a : α} {b : γ} {ys zs : List ρ}
    (hp : Emits out u p bs a ys) (hk : Emits out u (k a) [] b zs) : Emits out u (p >>= k) bs b (ys ++ zs) := by
  have h := hp.bind hk
  rwa [List.append_nil] at h

theorem map {p : Logged β ε ω α} {bs : List β} {a : α} {ys : List ρ} (f : α → γ) (hp : Emits out u p bs a ys) :
    Emits out u (p >>= fun x => Pure.pure (f x)) bs (f a) ys := by
  have h := hp.bind (k := fun x => (Pure.pure (f x) : Logged β ε ω γ)) (pure (f a))
  rwa [List.append_nil, List.append_nil] at h

theorem times {tick : ω} (htick : out tick = none) {p : Logged β ε ω α} {τ : Type} (w : τ → List β) (v : τ → α)
    (y : τ → List ρ) (l : List τ) (h : ∀ t ∈ l, Emits out u p (w t) (v t) (y t)) :
    Emits out u (Logged.times tick p l.length) (l.flatMap w) (l.map v) (l.flatMap y) := by
  induction l with
  | nil => exact pure []
  | cons t l ih =>
    have hone := h t List.mem_cons_self
    have hrest := ih fun t' ht' => h t' (List.mem_cons_of_mem _ ht')
    have htick' : Emits out u (Logged.log tick : Logged β ε ω Unit) [] () [] := by
      have hlog : Emits out u (Logged.log tick : Logged β ε ω Unit) [] () (out tick).toList := log tick
      rwa [htick] at hlog
    exact htick'.bind (hone.bind (hrest.map (v t :: ·)))

end Emits

end Lib
