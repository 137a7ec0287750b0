import Mathlib.Data.List.Perm.Basic

/-!
# Drawing from a cycle

A cycle is the list of what comes next: the element drawn goes to the end. A search for an element
that is not there never ends, so `draw` gives up after one whole round.
-/

namespace Lib.Cycle

variable {α : Type} (p : α → Bool)

def draw : Nat → List α → Option (α × List α)
  | 0, _ => none
  | _, [] => none
  | fuel + 1, a :: l => if p a then some (a, l ++ [a]) else draw fuel (l ++ [a])

theorem draw_append (l r : List α) (h : ∃ a ∈ l, p a) :
    ∃ a s, draw p l.length (l ++ r) = some (a, s) ∧ a ∈ l ∧ p a ∧ s.Perm (l ++ r) := by
  induction l generalizing r with
  | nil => simp at h
  | cons b l ih =>
    rw [List.length_cons, List.cons_append, draw]
    cases hb : p b with
    | true => exact ⟨b, l ++ r ++ [b], by simp, List.mem_cons_self, hb, List.perm_append_singleton b _⟩
    | false =>
      have hl : ∃ a ∈ l, p a := by simpa [hb] using h
      obtain ⟨a, s, hd, ha, hp, hs⟩ := ih (r ++ [b]) hl
      refine ⟨a, s, by simpa using hd, List.mem_cons_of_mem b ha, hp, hs.trans ?_⟩
      rw [← List.append_assoc]
      exact List.perm_append_singleton b _

theorem draw_spec (l : List α) (h : ∃ a ∈ l, p a) :
    ∃ a s, draw p l.length l = some (a, s) ∧ a ∈ l ∧ p a ∧ s.Perm l := by
  simpa using draw_append p l [] h

/-! ## Turns

When every element fits, the draws take turns. What each has had so far is level: those who wait longest have had as
much as each other, and the others one more. -/

/-- Those who come next have had `q` each, and those who had a turn since one more. -/
structure Level (cycle : List α) (count : α → Nat) : Prop where
  level : ∃ q r l, cycle = r ++ l ∧ (∀ a ∈ r, count a = q) ∧ ∀ a ∈ l, count a = q + 1

theorem level_of_const {cycle : List α} {count : α → Nat} {q : Nat} (h : ∀ a ∈ cycle, count a = q) :
    Level cycle count :=
  ⟨q, cycle, [], (List.append_nil cycle).symm, h, fun _ ha => absurd ha List.not_mem_nil⟩

theorem Level.turn {a : α} {rest : List α} {count count' : α → Nat} (h : Level (a :: rest) count)
    (hnodup : (a :: rest).Nodup) (hself : count' a = count a + 1) (hother : ∀ b, b ≠ a → count' b = count b) :
    Level (rest ++ [a]) count' := by
  obtain ⟨q, r, l, hcycle, hr, hl⟩ := h.level
  have hfresh (b : α) (hb : b ∈ rest) : count' b = count b :=
    hother b fun heq => (List.nodup_cons.mp hnodup).1 (heq ▸ hb)
  cases r with
  | nil =>
    -- All are one ahead of `q`: a new round begins.
    rw [List.nil_append] at hcycle
    have hall : ∀ b ∈ a :: rest, count b = q + 1 := hcycle ▸ hl
    exact ⟨q + 1, rest, [a], rfl, fun b hb => (hfresh b hb).trans (hall b (List.mem_cons_of_mem _ hb)),
      by simpa [hself] using hall a List.mem_cons_self⟩
  | cons b r =>
    rw [List.cons_append] at hcycle
    obtain ⟨rfl, rfl⟩ := List.cons.inj hcycle
    refine ⟨q, r, l ++ [a], by rw [List.append_assoc], fun b hb => ?_, fun b hb => ?_⟩
    · exact (hfresh b (List.mem_append_left l hb)).trans (hr b (List.mem_cons_of_mem _ hb))
    · rcases List.mem_append.mp hb with hb | hb
      · exact (hfresh b (List.mem_append_right r hb)).trans (hl b hb)
      · rw [List.mem_singleton.mp hb, hself, hr a List.mem_cons_self]

theorem Level.even {cycle : List α} {count : α → Nat} (h : Level cycle count) {a b : α} (ha : a ∈ cycle)
    (hb : b ∈ cycle) : count a ≤ count b + 1 := by
  obtain ⟨q, r, l, rfl, hr, hl⟩ := h.level
  have hone (c : α) (hc : c ∈ r ++ l) : q ≤ count c ∧ count c ≤ q + 1 := by
    rcases List.mem_append.mp hc with hc | hc
    · have := hr c hc
      omega
    · have := hl c hc
      omega
  have := hone a ha
  have := hone b hb
  omega

end Lib.Cycle
