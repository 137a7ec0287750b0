import Afkak.Lib.Dict
import Mathlib.Data.List.Induction

/-!
# Groups in the order of their keys' first appearance

`groupsBy key l` splits a list by a key. A dictionary of dictionaries that is filled one item at a time holds these
groups, in this order, when no two items go to the same place.
-/

namespace Lib

variable {κ μ α : Type}

/-- A dictionary of dictionaries as the lists of its entries. -/
def Dict.nested (out : Dict κ (Dict μ α)) : List (κ × List (μ × α)) := out.entries.map fun e => (e.1, e.2.entries)

theorem Dict.map_fst_nested (out : Dict κ (Dict μ α)) : out.nested.map Prod.fst = out.keys := by
  rw [Dict.nested, List.map_map]
  rfl

variable [DecidableEq κ]

/-- The keys without repetition, each where it is first. -/
def firsts : List κ → List κ
  | [] => []
  | k :: l => k :: (firsts l).filter (· ≠ k)

def groupsBy (key : α → κ) (l : List α) : List (κ × List α) :=
  (firsts (l.map key)).map fun k => (k, l.filter fun a => key a = k)

@[simp] theorem mem_firsts (l : List κ) (k : κ) : k ∈ firsts l ↔ k ∈ l := by
  induction l with
  | nil => simp [firsts]
  | cons a l ih =>
    by_cases h : k = a <;> simp [firsts, h, ih]

theorem nodup_firsts (l : List κ) : (firsts l).Nodup := by
  induction l with
  | nil => exact List.nodup_nil
  | cons a l ih => exact List.nodup_cons.mpr ⟨by simp, ih.filter _⟩

theorem firsts_append_singleton (l : List κ) (k : κ) :
    firsts (l ++ [k]) = if k ∈ l then firsts l else firsts l ++ [k] := by
  induction l with
  | nil => rfl
  | cons a l ih =>
    rw [List.cons_append, firsts, ih, firsts]
    by_cases hl : k ∈ l
    · simp [hl]
    · by_cases ha : k = a
      · subst ha
        simp [hl]
      · simp [hl, ha]

theorem groupsBy_append_singleton (key : α → κ) (l : List α) (a : α) :
    groupsBy key (l ++ [a]) = if key a ∈ l.map key then
        (groupsBy key l).map fun g => if g.1 = key a then (g.1, g.2 ++ [a]) else g
      else groupsBy key l ++ [(key a, [a])] := by
  have hold (k : κ) (hk : key a ≠ k) : ((l ++ [a]).filter fun b => key b = k) = l.filter fun b => key b = k := by
    simp [hk]
  rw [groupsBy, List.map_append, List.map_singleton, firsts_append_singleton]
  split
  · rw [groupsBy, List.map_map]
    refine List.map_congr_left fun k _ => ?_
    by_cases hk : key a = k
    · simp [hk]
    · simp [hk, Ne.symm hk]
  · next hnew =>
    rw [List.map_append, List.map_singleton, groupsBy]
    congr 1
    · refine List.map_congr_left fun k hk => ?_
      rw [hold k fun h => hnew (h ▸ (mem_firsts _ k).mp hk)]
    · have hnone : (l.filter fun b => key b = key a) = [] :=
        List.filter_eq_nil_iff.mpr fun b hb hkey => hnew (by simpa using ⟨b, hb, by simpa using hkey⟩)
      simp [hnone]

theorem groupsBy_perm (key : α → κ) (l : List α) : ((groupsBy key l).flatMap Prod.snd).Perm l := by
  rw [groupsBy, List.flatMap_map]
  suffices h : ∀ ks : List κ, ks.Nodup →
      (ks.flatMap fun k => l.filter fun a => key a = k).Perm (l.filter fun a => key a ∈ ks) by
    refine (h _ (nodup_firsts _)).trans (List.Perm.of_eq (List.filter_eq_self.mpr fun a ha => ?_))
    simpa using ⟨a, ha, rfl⟩
  intro ks hks
  induction ks with
  | nil => simp
  | cons k ks ih =>
    rw [List.nodup_cons] at hks
    rw [List.flatMap_cons]
    refine ((ih hks.2).append_left _).trans ?_
    have hsplit : (l.filter fun a => key a ∈ k :: ks).filter (fun a => key a = k) = l.filter fun a => key a = k := by
      rw [List.filter_filter]
      exact List.filter_congr fun a _ => by by_cases h : key a = k <;> simp [h]
    have hrest : (l.filter fun a => key a ∈ k :: ks).filter (fun a => ¬ key a = k) = l.filter fun a => key a ∈ ks := by
      rw [List.filter_filter]
      refine List.filter_congr fun a _ => ?_
      by_cases h : key a = k
      · simp [h, hks.1]
      · simp [h]
    rw [← hsplit, ← hrest]
    simpa using List.filter_append_perm (fun a => decide (key a = k)) (l.filter fun a => key a ∈ k :: ks)

/-! ## Dictionaries of dictionaries -/

variable [DecidableEq μ]

/-- `out[key][sub] = a`, where a missing `out[key]` is made first. -/
def setIn (out : Dict κ (Dict μ α)) (k : κ) (m : μ) (a : α) : Dict κ (Dict μ α) :=
  out.set k (((out.get? k).getD .empty).set m a)

theorem nested_setIn_new (out : Dict κ (Dict μ α)) (k : κ) (m : μ) (a : α) (h : k ∉ out.keys) :
    (setIn out k m a).nested = out.nested ++ [(k, [(m, a)])] := by
  have hnone := (Dict.get?_eq_none_iff out k).mpr h
  rw [setIn, hnone, Dict.nested, Dict.entries_set_new _ _ _ hnone, List.map_append]
  rfl

theorem nested_setIn_old (out : Dict κ (Dict μ α)) (k : κ) (m : μ) (a : α) (h : k ∈ out.keys)
    (hm : ∀ g ∈ out.nested, g.1 = k → m ∉ g.2.map Prod.fst) :
    (setIn out k m a).nested = out.nested.map fun g => if g.1 = k then (g.1, g.2 ++ [(m, a)]) else g := by
  obtain ⟨d, hd⟩ := (Dict.mem_keys_iff out k).mp h
  have hmem := (Dict.get?_eq_some_iff out k d).mp hd
  have hfresh : d.get? m = none := (Dict.get?_eq_none_iff d m).mpr (hm (k, d.entries) (List.mem_map_of_mem hmem) rfl)
  rw [setIn, hd, Option.getD_some, Dict.nested, Dict.entries_set_old _ _ _ h, Dict.nested, List.map_map, List.map_map]
  refine List.map_congr_left fun e he => ?_
  by_cases hk : e.1 = k
  · obtain rfl : e.2 = d := by
      have hget := (Dict.get?_eq_some_iff out e.1 e.2).mpr he
      rw [hk, hd] at hget
      exact (Option.some.inj hget).symm
    simp [hk, Dict.entries_set_new _ _ _ hfresh]
  · simp [hk]

theorem nested_foldl_setIn (key : α → κ) (sub : α → μ) (l : List α) (h : (l.map fun a => (key a, sub a)).Nodup) :
    (l.foldl (fun out a => setIn out (key a) (sub a) a) .empty).nested =
      (groupsBy key l).map fun g => (g.1, g.2.map fun a => (sub a, a)) := by
  induction l using List.reverseRecOn with
  | nil => rfl
  | append_singleton l a ih =>
    rw [List.map_append, List.map_singleton, List.nodup_append] at h
    obtain ⟨hl, -, hne⟩ := h
    specialize ih hl
    have hkeys (k : κ) : k ∈ (l.foldl (fun out a => setIn out (key a) (sub a) a) .empty).keys ↔ k ∈ l.map key := by
      rw [← Dict.map_fst_nested, ih, groupsBy, List.map_map, List.map_map]
      simp
    rw [List.foldl_append, List.foldl_cons, List.foldl_nil, groupsBy_append_singleton]
    by_cases hk : key a ∈ l.map key
    · rw [nested_setIn_old _ _ _ _ ((hkeys _).mpr hk), ih, if_pos hk, List.map_map, List.map_map]
      · refine List.map_congr_left fun g _ => ?_
        by_cases hg : g.1 = key a <;> simp [hg]
      · -- The item is not in its group yet.
        intro g hg hgk hmem
        rw [ih, groupsBy, List.map_map] at hg
        obtain ⟨k, -, rfl⟩ := List.mem_map.mp hg
        obtain rfl : k = key a := hgk
        simp only [Function.comp_apply, List.map_map, List.mem_map, List.mem_filter, decide_eq_true_eq] at hmem
        obtain ⟨b, ⟨hb, hbk⟩, hsub⟩ := hmem
        exact hne _ (List.mem_map_of_mem hb) _ (List.mem_singleton_self _) (Prod.ext hbk hsub)
    · rw [nested_setIn_new _ _ _ _ ((hkeys _).not.mpr hk), ih, if_neg hk, List.map_append]
      rfl

end Lib
