import Mathlib.Data.List.Basic
import Mathlib.Data.List.Infix

/-!
# Windows of a log

A log is a list whose keys increase. Its window from `lo` to `hi` is a run of consecutive entries, and
`window_extend` says how a reader that is handed runs of the log goes from one window to the next.
-/

namespace Lib.Window

variable {α : Type} {key : α → Int}

abbrev Increasing (key : α → Int) (l : List α) : Prop := l.Pairwise fun a b => key a < key b

def window (key : α → Int) (l : List α) (lo hi : Int) : List α := l.filter fun a => lo ≤ key a ∧ key a < hi

theorem window_append (l l' : List α) (lo hi : Int) :
    window key (l ++ l') lo hi = window key l lo hi ++ window key l' lo hi := List.filter_append ..

theorem window_eq_nil {l : List α} {lo hi : Int} (h : ∀ a ∈ l, lo ≤ key a → hi ≤ key a) : window key l lo hi = [] := by
  rw [window, List.filter_eq_nil_iff]
  intro a ha hin
  simp only [decide_eq_true_eq] at hin
  have := h a ha hin.1
  omega

@[simp] theorem window_self (l : List α) (lo : Int) : window key l lo lo = [] := window_eq_nil fun _ _ h => h

theorem dropWhile_lt {l : List α} (hl : Increasing key l) (lo : Int) :
    (l.dropWhile fun a => key a < lo) = l.filter fun a => lo ≤ key a := by
  induction l with
  | nil => rfl
  | cons a l ih =>
    obtain ⟨hhead, htail⟩ := List.pairwise_cons.mp hl
    by_cases ha : key a < lo
    · rw [List.dropWhile_cons_of_pos (by simpa using ha), ih htail, List.filter_cons_of_neg (by simpa using ha)]
    · have hall : ∀ b ∈ a :: l, lo ≤ key b := by
        intro b hb
        obtain rfl | hb := List.mem_cons.mp hb
        · omega
        · have := hhead b hb
          omega
      rw [List.dropWhile_cons_of_neg (by simpa using ha), List.filter_eq_self.mpr (by simpa using hall)]

theorem filter_lt_initial {l : List α} (hl : Increasing key l) (hi : Int) : (l.filter fun a => key a < hi) <+: l := by
  induction l with
  | nil => exact List.prefix_rfl
  | cons a l ih =>
    obtain ⟨hhead, htail⟩ := List.pairwise_cons.mp hl
    by_cases ha : key a < hi
    · rw [List.filter_cons_of_pos (by simpa using ha)]
      exact List.cons_prefix_cons.mpr ⟨rfl, ih htail⟩
    · have hnone : ∀ b ∈ a :: l, ¬ key b < hi := by
        intro b hb
        obtain rfl | hb := List.mem_cons.mp hb
        · exact ha
        · have := hhead b hb
          omega
      rw [List.filter_eq_nil_iff.mpr (by simpa using hnone)]
      exact List.nil_prefix

theorem window_initial {l : List α} (hl : Increasing key l) (lo hi : Int) :
    window key l lo hi <+: l.dropWhile fun a => key a < lo := by
  have hsplit : window key l lo hi = (l.filter fun a => lo ≤ key a).filter fun a => key a < hi := by
    rw [window, List.filter_filter]
    exact List.filter_congr fun a _ => by rw [Bool.decide_and, Bool.and_comm]
  rw [hsplit, dropWhile_lt hl]
  exact filter_lt_initial (hl.sublist List.filter_sublist) hi

/-- Cutting at `n` and putting together again. -/
theorem window_append_filter {l : List α} (hl : Increasing key l) {lo n : Int} (hlo : lo ≤ n) :
    (window key l lo n ++ l.filter fun a => n ≤ key a) = l.filter fun a => lo ≤ key a := by
  induction l with
  | nil => rfl
  | cons a l ih =>
    obtain ⟨hhead, htail⟩ := List.pairwise_cons.mp hl
    have ih := ih htail
    rw [window] at ih ⊢
    by_cases hn : n ≤ key a
    · -- The cut is before `a`, and the window has nothing of what follows.
      have hnil : window key l lo n = [] := window_eq_nil fun b hb _ => by have := hhead b hb; omega
      rw [window] at hnil
      rw [hnil, List.nil_append] at ih
      rw [List.filter_cons_of_neg (by simpa using fun _ => hn), hnil, List.nil_append,
        List.filter_cons_of_pos (by simpa using hn), List.filter_cons_of_pos (by simpa using Int.le_trans hlo hn), ih]
    · rw [List.filter_cons_of_neg (a := a) (p := fun a => decide (n ≤ key a)) (by simpa using hn)]
      by_cases ha : lo ≤ key a
      · rw [List.filter_cons_of_pos (by simpa using ⟨ha, by omega⟩), List.filter_cons_of_pos (by simpa using ha),
          List.cons_append, ih]
      · rw [List.filter_cons_of_neg (by simp; omega), List.filter_cons_of_neg (by simpa using ha), ih]

theorem lt_of_first {l ms r : List α} (hl : Increasing key (l ++ ms ++ r)) {n : Int}
    (hfirst : ∀ e, ((l ++ ms ++ r).find? fun e => n ≤ key e) = some e → e ∈ ms) : ∀ a ∈ l, key a < n := by
  intro a ha
  by_contra hge
  have hsome : (l.find? fun e => n ≤ key e).isSome := by
    rw [List.find?_isSome]
    exact ⟨a, ha, by simpa using hge⟩
  obtain ⟨e, he⟩ := Option.isSome_iff_exists.mp hsome
  have hmem : e ∈ ms := hfirst e (by rw [List.append_assoc, List.find?_append, he, Option.some_or])
  rw [List.append_assoc] at hl
  have hlt := (List.pairwise_append.mp hl).2.2 e (List.mem_of_find?_eq_some he) e (List.mem_append_left _ hmem)
  omega

theorem mem_initial {l p : List α} (hl : Increasing key l) (hp : p <+: l) {a b : α} (ha : a ∈ l) (hb : b ∈ p)
    (hle : key a ≤ key b) : a ∈ p := by
  obtain ⟨rest, rfl⟩ := hp
  obtain ha | ha := List.mem_append.mp ha
  · exact ha
  · have hlt := (List.pairwise_append.mp hl).2.2 b hb a ha
    omega

theorem window_extend {l ms : List α} (hl : Increasing key l) (hms : ms <:+: l) {lo n n' : Int} (hlo : lo ≤ n)
    (hfirst : (∃ m ∈ ms, n ≤ key m) → ∀ e, (l.find? fun e => n ≤ key e) = some e → e ∈ ms)
    (hlt : ∀ m ∈ ms, key m < n') (hn : n' = n ∨ ∃ m ∈ ms, n ≤ key m ∧ n' = key m + 1) :
    (window key l lo n ++ ms.filter fun m => n ≤ key m) = window key l lo n' := by
  obtain rfl | ⟨m, hm, hle, rfl⟩ := hn
  · rw [List.filter_eq_nil_iff.mpr (by simpa using hlt), List.append_nil]
  obtain ⟨before, after, rfl⟩ := hms
  have hbefore := lt_of_first hl (hfirst ⟨m, hm, hle⟩)
  obtain ⟨hpre, -, hafter⟩ := List.pairwise_append.mp hl
  obtain ⟨-, hrun, -⟩ := List.pairwise_append.mp hpre
  have hbeyond : ∀ a ∈ after, key m + 1 ≤ key a := fun a ha => hafter m (List.mem_append_right _ hm) a ha
  have hend : window key after lo n = [] := window_eq_nil fun a ha _ => by have := hbeyond a ha; omega
  have hend' : window key after lo (key m + 1) = [] := window_eq_nil fun a ha _ => hbeyond a ha
  have hstart : window key before lo n = window key before lo (key m + 1) :=
    List.filter_congr fun a ha => decide_eq_decide.mpr (by have := hbefore a ha; omega)
  have hmid : window key ms lo (key m + 1) = ms.filter fun a => lo ≤ key a :=
    List.filter_congr fun a ha => decide_eq_decide.mpr (by have := hlt a ha; omega)
  rw [window_append, window_append, window_append, window_append, hend, hend', List.append_nil, List.append_nil, hstart,
    hmid, List.append_assoc, window_append_filter hrun hlo]

end Lib.Window
