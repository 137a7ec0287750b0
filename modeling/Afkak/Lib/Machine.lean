import Mathlib.Data.List.Basic

/-!
# Runs of a step function

A component is a step function: a state and an event give the next state, or nothing when the
event cannot happen there. A run is a list of events. `run_invariant` is the only induction over
runs; every safety result is an invariant that one step keeps.
-/

namespace Lib.Machine

variable {σ ε : Type} (step : σ → ε → Option σ)

def run (s : σ) : List ε → Option σ
  | [] => some s
  | e :: es => (step s e).bind fun t => run t es

@[simp] theorem run_nil (s : σ) : run step s [] = some s := rfl

theorem run_cons (s : σ) (e : ε) (es : List ε) :
    run step s (e :: es) = (step s e).bind fun t => run step t es := rfl

theorem run_append (s : σ) (es fs : List ε) :
    run step s (es ++ fs) = (run step s es).bind fun t => run step t fs := by
  induction es generalizing s with
  | nil => rfl
  | cons e es ih =>
    rw [List.cons_append, run_cons, run_cons]
    cases step s e with
    | none => rfl
    | some t => exact ih t

/-- Every step of the run meets `ok`, a condition on the event and the state it meets. -/
def RunOk (ok : σ → ε → Prop) (s : σ) : List ε → Prop
  | [] => True
  | e :: es => ok s e ∧ ∀ t, step s e = some t → RunOk ok t es

instance decidableRunOk (ok : σ → ε → Prop) [∀ s e, Decidable (ok s e)] :
    ∀ (s : σ) (es : List ε), Decidable (RunOk step ok s es)
  | _, [] => isTrue trivial
  | s, e :: es =>
    match h : step s e with
    | none => decidable_of_iff (ok s e) (by simp [RunOk, h])
    | some t =>
      have := decidableRunOk ok t es
      decidable_of_iff (ok s e ∧ RunOk step ok t es) (by simp [RunOk, h])

/-- An invariant that every step meeting `ok` keeps holds at the end of every such run. -/
theorem run_invariant (ok : σ → ε → Prop) (inv : σ → Prop)
    (hstep : ∀ s e t, inv s → ok s e → step s e = some t → inv t)
    (es : List ε) (s t : σ) (h0 : inv s) (hok : RunOk step ok s es) (hrun : run step s es = some t) :
    inv t := by
  induction es generalizing s with
  | nil =>
    simp only [run_nil, Option.some.injEq] at hrun
    rwa [← hrun]
  | cons e es ih =>
    rw [run_cons, Option.bind_eq_some_iff] at hrun
    obtain ⟨u, hu, hrun⟩ := hrun
    exact ih u (hstep s e u h0 hok.1 hu) (hok.2 u hu) hrun

theorem runOk_append {ok : σ → ε → Prop} {s t : σ} {es fs : List ε} (hok : RunOk step ok s (es ++ fs))
    (hrun : run step s es = some t) : RunOk step ok s es ∧ RunOk step ok t fs := by
  induction es generalizing s with
  | nil =>
    simp only [run_nil, Option.some.injEq] at hrun
    subst hrun
    exact ⟨trivial, hok⟩
  | cons e es ih =>
    rw [run_cons, Option.bind_eq_some_iff] at hrun
    obtain ⟨u, hu, hrun⟩ := hrun
    refine ⟨⟨hok.1, fun v hv => ?_⟩, (ih (hok.2 u hu) hrun).2⟩
    rw [hu, Option.some.injEq] at hv
    subst hv
    exact (ih (hok.2 u hu) hrun).1

theorem RunOk.append {ok : σ → ε → Prop} {s : σ} {es fs : List ε} (hok : RunOk step ok s es)
    (hrest : ∀ t, run step s es = some t → RunOk step ok t fs) : RunOk step ok s (es ++ fs) := by
  induction es generalizing s with
  | nil => exact hrest s rfl
  | cons e es ih =>
    refine ⟨hok.1, fun t ht => ih (hok.2 t ht) fun u hu => hrest u ?_⟩
    rw [run_cons, ht]
    exact hu

theorem runOk_mem {ok : σ → ε → Prop} {s : σ} {es : List ε} (all : List ε) (hall : ∀ e ∈ es, e ∈ all)
    (hok : RunOk step ok s es) : RunOk step (fun s e => ok s e ∧ e ∈ all) s es := by
  induction es generalizing s with
  | nil => trivial
  | cons e es ih =>
    refine ⟨⟨hok.1, hall e (by simp)⟩, fun t ht => ?_⟩
    exact ih (fun x hx => hall x (List.mem_cons_of_mem e hx)) (hok.2 t ht)

theorem runOk_mono {ok ok' : σ → ε → Prop} (h : ∀ s e, ok s e → ok' s e) {es : List ε} {s : σ}
    (hok : RunOk step ok s es) : RunOk step ok' s es := by
  induction es generalizing s with
  | nil => trivial
  | cons e es ih => exact ⟨h s e hok.1, fun t ht => ih (hok.2 t ht)⟩

theorem runOk_of_forall {ok : σ → ε → Prop} (h : ∀ s e, ok s e) (es : List ε) (s : σ) :
    RunOk step ok s es := by
  induction es generalizing s with
  | nil => trivial
  | cons e es ih => exact ⟨h s e, fun t _ => ih t⟩

/-- Two conditions that come to the same wherever the invariant holds, which the first of them keeps. -/
theorem runOk_iff {ok ok' : σ → ε → Prop} (inv : σ → Prop) (hiff : ∀ s e, inv s → (ok s e ↔ ok' s e))
    (hstep : ∀ s e t, inv s → ok s e → step s e = some t → inv t) {s : σ} (h0 : inv s) (es : List ε) :
    RunOk step ok s es ↔ RunOk step ok' s es := by
  induction es generalizing s with
  | nil => exact Iff.rfl
  | cons e es ih =>
    refine ⟨fun h => ⟨(hiff s e h0).mp h.1, fun t ht => (ih (hstep s e t h0 h.1 ht)).mp (h.2 t ht)⟩, fun h => ?_⟩
    have hok := (hiff s e h0).mpr h.1
    exact ⟨hok, fun t ht => (ih (hstep s e t h0 hok ht)).mpr (h.2 t ht)⟩

/-- The unconditional case of `run_invariant`. -/
theorem run_invariant_all (inv : σ → Prop)
    (hstep : ∀ s e t, inv s → step s e = some t → inv t)
    (es : List ε) (s t : σ) (h0 : inv s) (hrun : run step s es = some t) : inv t :=
  run_invariant step (fun _ _ => True) inv (fun s e t hi _ => hstep s e t hi) es s t h0
    (runOk_of_forall step (fun _ _ => trivial) es s) hrun

/-! ## What must come -/

section Inevitable

variable (ok : σ → ε → Prop) (goal : σ → Prop)

/-- By events that meet `ok`, every run comes to `goal`, and none gets stuck before. -/
inductive Inevitable : σ → Prop
  | reached {s : σ} (h : goal s) : Inevitable s
  | next {s : σ} (hsome : ∃ e t, ok s e ∧ step s e = some t) (hall : ∀ e t, ok s e → step s e = some t → Inevitable t) :
    Inevitable s

variable {step ok goal} {goal' inv : σ → Prop} {s : σ}

theorem Inevitable.bind (h : Inevitable step ok goal s) (hgoal : ∀ t, goal t → Inevitable step ok goal' t) :
    Inevitable step ok goal' s := by
  induction h with
  | reached h => exact hgoal _ h
  | next hsome _ ih => exact .next hsome ih

theorem Inevitable.keeps (h : Inevitable step ok goal s) (hstep : ∀ s e t, inv s → step s e = some t → inv t)
    (hinv : inv s) : Inevitable step ok (fun t => goal t ∧ inv t) s := by
  induction h with
  | reached h => exact .reached ⟨h, hinv⟩
  | next hsome _ ih => exact .next hsome fun e t hok ht => ih e t hok ht (hstep _ e t hinv ht)

end Inevitable

end Lib.Machine
