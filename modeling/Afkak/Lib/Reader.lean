import Mathlib.Data.List.Basic

/-!
# Readers with a cursor

A reader gets all the data and a cursor, and gives a value and the cursor after it, or an error.
`Parses p bs a` is the contract between a writer and its reader: `p` reads `bs` as `a` wherever
`bs` stands in the data, and on data that ends inside `bs` it fails with the underflow error.
Contracts compose along `>>=` and along counted loops.
-/

namespace Lib

variable {β ε α γ : Type}

def Reader (β ε α : Type) : Type := List β → Int → Except ε (α × Int)

namespace Reader

def seq (p : Reader β ε α) (k : α → Reader β ε γ) : Reader β ε γ := fun data cur =>
  match p data cur with
  | .error e => .error e
  | .ok (a, cur) => k a data cur

instance : Monad (Reader β ε) where
  pure a := fun _ cur => .ok (a, cur)
  bind := seq

def raise (e : ε) : Reader β ε α := fun _ _ => .error e

/-- `for _ in range(n): out.append(p)` -/
def times (p : Reader β ε α) : Nat → Reader β ε (List α)
  | 0 => pure []
  | n + 1 => do
    let a ← p
    let l ← times p n
    return a :: l

theorem bind_ok {p : Reader β ε α} {k : α → Reader β ε γ} {data : List β} {cur cur' : Int} {a : α}
    (h : p data cur = .ok (a, cur')) : (p >>= k) data cur = k a data cur' := by
  show seq p k data cur = _
  rw [seq, h]

theorem bind_error {p : Reader β ε α} {k : α → Reader β ε γ} {data : List β} {cur : Int} {e : ε}
    (h : p data cur = .error e) : (p >>= k) data cur = .error e := by
  show seq p k data cur = _
  rw [seq, h]

theorem bind_inv {p : Reader β ε α} {k : α → Reader β ε γ} {data : List β} {cur : Int} {r : γ × Int}
    (h : (p >>= k) data cur = .ok r) : ∃ a cur', p data cur = .ok (a, cur') ∧ k a data cur' = .ok r := by
  cases hp : p data cur with
  | error e =>
    rw [bind_error hp] at h
    cases h
  | ok x =>
    rw [bind_ok hp] at h
    exact ⟨x.1, x.2, rfl, h⟩

theorem times_length {p : Reader β ε α} (n : Nat) {data : List β} {cur cur' : Int} {l : List α}
    (h : p.times n data cur = .ok (l, cur')) : l.length = n := by
  induction n generalizing cur l cur' with
  | zero =>
    obtain ⟨rfl, -⟩ := Prod.mk.inj (Except.ok.inj h)
    rfl
  | succ n ih =>
    obtain ⟨a, cur₁, -, h⟩ := bind_inv h
    obtain ⟨rest, cur₂, hrest, h⟩ := bind_inv h
    obtain ⟨rfl, -⟩ := Prod.mk.inj (Except.ok.inj h)
    rw [List.length_cons, ih hrest]

/-! ## Errors -/

def Fails (P : ε → Prop) (p : Reader β ε α) : Prop := ∀ data cur e, p data cur = .error e → P e

variable {P : ε → Prop}

theorem Fails.pure (a : α) : Fails P (Pure.pure a : Reader β ε α) := fun _ _ _ h => nomatch h

theorem Fails.raise {e : ε} (h : P e) : Fails P (raise e : Reader β ε α) := fun _ _ _ he => Except.error.inj he ▸ h

theorem Fails.bind {p : Reader β ε α} {k : α → Reader β ε γ} (hp : Fails P p) (hk : ∀ a, Fails P (k a)) :
    Fails P (p >>= k) := by
  intro data cur e h
  cases hrun : p data cur with
  | error e' =>
    rw [bind_error hrun] at h
    cases h
    exact hp data cur _ hrun
  | ok x =>
    rw [bind_ok hrun] at h
    exact hk x.1 data x.2 e h

theorem Fails.times {p : Reader β ε α} (hp : Fails P p) (n : Nat) : Fails P (p.times n) := by
  induction n with
  | zero => exact .pure []
  | succ n ih => exact hp.bind fun a => ih.bind fun l => .pure (a :: l)

end Reader

open Reader

/-! ## Contracts -/

/-- `u` is the error for data that ends too early. -/
structure Parses (u : ε) (p : Reader β ε α) (bs : List β) (a : α) : Prop where
  reads : ∀ l r : List β, p (l ++ (bs ++ r)) l.length = .ok (a, (l.length + bs.length : Nat))
  underflows : ∀ l c : List β, c <+: bs → c ≠ bs → p (l ++ c) l.length = .error u

variable {u : ε}

theorem Parses.pure (a : α) : Parses u (Pure.pure a : Reader β ε α) [] a where
  reads _ _ := rfl
  underflows _ _ hc hne := absurd (List.prefix_nil.mp hc) hne

theorem cut_length {c bs : List β} (h : c <+: bs) (hne : c ≠ bs) : c.length < bs.length := by
  rcases Nat.lt_or_ge c.length bs.length with hlt | hge
  · exact hlt
  · exact absurd (h.eq_of_length_le hge) hne

/-- A cut inside `bs ++ cs` is a cut inside `bs`, or all of `bs` and a cut inside `cs`. -/
theorem prefix_append_cases (bs cs c : List β) (h : c <+: bs ++ cs) :
    (c <+: bs ∧ c ≠ bs) ∨ ∃ d, d <+: cs ∧ c = bs ++ d := by
  rcases List.prefix_or_prefix_of_prefix h (List.prefix_append bs cs) with hc | ⟨d, rfl⟩
  · by_cases hne : c = bs
    · exact .inr ⟨[], List.nil_prefix, by simp [hne]⟩
    · exact .inl ⟨hc, hne⟩
  · exact .inr ⟨d, (List.prefix_append_right_inj bs).mp h, rfl⟩

theorem Parses.bind {p : Reader β ε α} {k : α → Reader β ε γ} {bs cs : List β} {a : α} {b : γ}
    (hp : Parses u p bs a) (hk : Parses u (k a) cs b) : Parses u (p >>= k) (bs ++ cs) b where
  reads l r := by
    have h1 := hp.reads l (cs ++ r)
    have h2 := hk.reads (l ++ bs) r
    rw [List.length_append] at h2
    rw [List.append_assoc bs cs r, Reader.bind_ok h1, ← List.append_assoc l bs, h2, List.length_append,
      Nat.add_assoc]
  underflows l c hc hne := by
    rcases prefix_append_cases bs cs c hc with ⟨hbs, hcne⟩ | ⟨d, hd, rfl⟩
    · exact Reader.bind_error (hp.underflows l c hbs hcne)
    · have h1 := hp.reads l d
      have h2 := hk.underflows (l ++ bs) d hd (fun h => hne (by rw [h]))
      rw [List.length_append] at h2
      rw [Reader.bind_ok h1, ← List.append_assoc, h2]

theorem Parses.last {p : Reader β ε α} {k : α → Reader β ε γ} {bs : List β} {a : α} {b : γ} (hp : Parses u p bs a)
    (hk : Parses u (k a) [] b) : Parses u (p >>= k) bs b := by
  have h := hp.bind hk
  rwa [List.append_nil] at h

theorem Parses.map {p : Reader β ε α} {bs : List β} {a : α} (f : α → γ) (hp : Parses u p bs a) :
    Parses u (p >>= fun x => Pure.pure (f x)) bs (f a) := by
  have h := Parses.bind (k := fun x => (Pure.pure (f x) : Reader β ε γ)) hp (Parses.pure (f a))
  rwa [List.append_nil] at h

/-- A counted loop over values that are each parsed on their own. -/
theorem Parses.times {p : Reader β ε α} (w : α → List β) (l : List α)
    (h : ∀ a ∈ l, Parses u p (w a) a) : Parses u (p.times l.length) (l.flatMap w) l := by
  induction l with
  | nil => exact Parses.pure []
  | cons a l ih =>
    have ha := h a List.mem_cons_self
    have hl := ih fun b hb => h b (List.mem_cons_of_mem _ hb)
    exact ha.bind (hl.map (a :: ·))

end Lib
