import Mathlib.Data.List.Nodup

/-!
# Insertion-ordered dictionaries

A `Dict` keeps its keys in the order they were first set and holds each of them once.
-/

namespace Lib

variable {κ ν : Type}

@[ext] structure Dict (κ ν : Type) where
  entries : List (κ × ν)
  nodup : (entries.map Prod.fst).Nodup

namespace Dict

instance [DecidableEq κ] [DecidableEq ν] : DecidableEq (Dict κ ν) := fun a b =>
  decidable_of_iff (a.entries = b.entries) (by cases a; cases b; simp)

def empty : Dict κ ν := ⟨[], by simp⟩

def keys (d : Dict κ ν) : List κ := d.entries.map Prod.fst

def values (d : Dict κ ν) : List ν := d.entries.map Prod.snd

variable [DecidableEq κ]

def get? (d : Dict κ ν) (k : κ) : Option ν := d.entries.lookup k

def assign (k : κ) (v : ν) : List (κ × ν) → List (κ × ν)
  | [] => [(k, v)]
  | (a, w) :: l => if a = k then (a, v) :: l else (a, w) :: assign k v l

theorem mem_keys_assign (k : κ) (v : ν) (l : List (κ × ν)) (a : κ) :
    a ∈ (assign k v l).map Prod.fst ↔ a = k ∨ a ∈ l.map Prod.fst := by
  induction l with
  | nil => simp [assign]
  | cons x l ih =>
    obtain ⟨b, w⟩ := x
    by_cases hb : b = k
    · subst hb
      simp [assign]
    · simp only [assign, if_neg hb, List.map_cons, List.mem_cons, ih]
      tauto

theorem nodup_assign (k : κ) (v : ν) (l : List (κ × ν)) (h : (l.map Prod.fst).Nodup) :
    ((assign k v l).map Prod.fst).Nodup := by
  induction l with
  | nil => simp [assign]
  | cons x l ih =>
    obtain ⟨b, w⟩ := x
    rw [List.map_cons, List.nodup_cons] at h
    by_cases hb : b = k
    · simpa [assign, hb] using h
    · rw [assign, if_neg hb, List.map_cons, List.nodup_cons, mem_keys_assign]
      exact ⟨fun hm => hm.elim hb h.1, ih h.2⟩

/-- `d[k] = v`: a new key goes to the end, an old one keeps its place. -/
def set (d : Dict κ ν) (k : κ) (v : ν) : Dict κ ν := ⟨assign k v d.entries, nodup_assign k v _ d.nodup⟩

/-- `del d[k]` -/
def erase (d : Dict κ ν) (k : κ) : Dict κ ν :=
  ⟨d.entries.filter fun e => e.1 ≠ k, by
    exact d.nodup.sublist (List.filter_sublist.map _)⟩

def filter (d : Dict κ ν) (p : κ × ν → Bool) : Dict κ ν :=
  ⟨d.entries.filter p, d.nodup.sublist (List.filter_sublist.map _)⟩

def mapValues {ω : Type} (d : Dict κ ν) (f : κ → ν → ω) : Dict κ ω :=
  ⟨d.entries.map fun e => (e.1, f e.1 e.2), by simpa [Function.comp_def] using d.nodup⟩

/-- `for k, v in l: d[k] = v` -/
def update (d : Dict κ ν) (l : List (κ × ν)) : Dict κ ν := l.foldl (fun d e => d.set e.1 e.2) d

/-! ## Lookup -/

theorem lookup_assign (k : κ) (v : ν) (l : List (κ × ν)) (a : κ) :
    (assign k v l).lookup a = if k = a then some v else l.lookup a := by
  induction l with
  | nil =>
    by_cases h : k = a
    · simp [assign, h]
    · simp [assign, List.lookup_cons, h, beq_eq_false_iff_ne.mpr (Ne.symm h)]
  | cons x l ih =>
    obtain ⟨b, w⟩ := x
    by_cases hb : b = k
    · subst hb
      by_cases h : b = a
      · simp [assign, h]
      · simp [assign, List.lookup_cons, h, beq_eq_false_iff_ne.mpr (Ne.symm h)]
    · by_cases h : b = a
      · subst h
        simp [assign, hb, Ne.symm hb]
      · simp [assign, if_neg hb, List.lookup_cons, ih, beq_eq_false_iff_ne.mpr (Ne.symm h)]

@[simp] theorem get?_empty (k : κ) : (empty : Dict κ ν).get? k = none := rfl

@[simp] theorem entries_singleton (k : κ) (v : ν) : ((empty : Dict κ ν).set k v).entries = [(k, v)] := rfl

@[simp] theorem get?_set (d : Dict κ ν) (k : κ) (v : ν) (a : κ) :
    (d.set k v).get? a = if k = a then some v else d.get? a := lookup_assign k v _ a

theorem lookup_of_mem (k : κ) (v : ν) (l : List (κ × ν)) (hn : (l.map Prod.fst).Nodup)
    (h : (k, v) ∈ l) : l.lookup k = some v := by
  obtain ⟨l₁, l₂, rfl⟩ := List.append_of_mem h
  refine List.lookup_eq_some_iff.mpr ⟨l₁, l₂, rfl, fun p hp => ?_⟩
  rw [List.map_append, List.map_cons, List.nodup_append] at hn
  simpa using (hn.2.2 p.1 (List.mem_map_of_mem hp) k (by simp)).symm

theorem mem_of_lookup (k : κ) (v : ν) (l : List (κ × ν)) (h : l.lookup k = some v) : (k, v) ∈ l := by
  obtain ⟨l₁, l₂, rfl, -⟩ := List.lookup_eq_some_iff.mp h
  simp

theorem get?_eq_some_iff (d : Dict κ ν) (k : κ) (v : ν) : d.get? k = some v ↔ (k, v) ∈ d.entries :=
  ⟨mem_of_lookup k v _, lookup_of_mem k v _ d.nodup⟩

theorem get?_eq_none_iff (d : Dict κ ν) (k : κ) : d.get? k = none ↔ k ∉ d.keys := by
  constructor
  · intro h hk
    obtain ⟨⟨a, v⟩, hm, rfl⟩ := List.mem_map.mp hk
    rw [(get?_eq_some_iff d a v).mpr hm] at h
    simp at h
  · intro h
    by_contra hne
    obtain ⟨v, hv⟩ := Option.ne_none_iff_exists'.mp hne
    exact h (List.mem_map_of_mem (f := Prod.fst) ((get?_eq_some_iff d k v).mp hv))

theorem mem_keys_set (d : Dict κ ν) (k : κ) (v : ν) (a : κ) : a ∈ (d.set k v).keys ↔ a = k ∨ a ∈ d.keys :=
  mem_keys_assign k v _ a

theorem assign_of_not_mem (k : κ) (v : ν) (l : List (κ × ν)) (h : k ∉ l.map Prod.fst) :
    assign k v l = l ++ [(k, v)] := by
  induction l with
  | nil => rfl
  | cons x l ih =>
    obtain ⟨b, w⟩ := x
    simp only [List.map_cons, List.mem_cons, not_or] at h
    rw [assign, if_neg (Ne.symm h.1), ih h.2]
    rfl

theorem entries_set_new (d : Dict κ ν) (k : κ) (v : ν) (h : d.get? k = none) :
    (d.set k v).entries = d.entries ++ [(k, v)] :=
  assign_of_not_mem k v _ ((get?_eq_none_iff d k).mp h)

theorem assign_of_mem (k : κ) (v : ν) (l : List (κ × ν)) (hn : (l.map Prod.fst).Nodup) (h : k ∈ l.map Prod.fst) :
    assign k v l = l.map fun e => if e.1 = k then (k, v) else e := by
  induction l with
  | nil => simp at h
  | cons x l ih =>
    obtain ⟨b, w⟩ := x
    rw [List.map_cons, List.nodup_cons] at hn
    by_cases hb : b = k
    · subst hb
      have hid : (l.map fun e => if e.1 = b then (b, v) else e) = l.map id :=
        List.map_congr_left fun e he => if_neg fun heq => hn.1 (List.mem_map.mpr ⟨e, he, heq⟩)
      simp [assign, hid]
    · have hl : k ∈ l.map Prod.fst := (List.mem_cons.mp h).resolve_left fun heq => hb heq.symm
      simp [assign, hb, ih hn.2 hl]

theorem entries_set_old (d : Dict κ ν) (k : κ) (v : ν) (h : k ∈ d.keys) :
    (d.set k v).entries = d.entries.map fun e => if e.1 = k then (k, v) else e :=
  assign_of_mem k v _ d.nodup h

theorem length_flatten_assign {β : Type} (k : κ) (v : List β) (l : List (κ × List β)) :
    ((assign k v l).map Prod.snd).flatten.length + ((l.lookup k).getD []).length =
      (l.map Prod.snd).flatten.length + v.length := by
  induction l with
  | nil => simp [assign]
  | cons x l ih =>
    obtain ⟨b, w⟩ := x
    by_cases hb : b = k
    · subst hb
      simp only [assign, if_true, List.map_cons, List.flatten_cons, List.length_append, List.lookup_cons,
        beq_self_eq_true,
        Option.getD_some]
      omega
    · simp only [assign, if_neg hb, List.map_cons, List.flatten_cons, List.length_append, List.lookup_cons,
        beq_eq_false_iff_ne.mpr (Ne.symm hb)]
      omega

theorem length_flatten_set {β : Type} (d : Dict κ (List β)) (k : κ) (v : List β) :
    (d.set k v).values.flatten.length + ((d.get? k).getD []).length = d.values.flatten.length + v.length :=
  length_flatten_assign k v d.entries

theorem update_entries (d : Dict κ ν) : (empty : Dict κ ν).update d.entries = d := by
  suffices h : ∀ (l r : List (κ × ν)) (e : Dict κ ν), e.entries = l → ((l ++ r).map Prod.fst).Nodup →
      (e.update r).entries = l ++ r by
    exact Dict.ext (h [] d.entries empty rfl d.nodup)
  intro l r
  induction r generalizing l with
  | nil =>
    intro e he _
    simpa [update] using he
  | cons x r ih =>
    intro e he hn
    obtain ⟨k, v⟩ := x
    have hk : e.get? k = none := by
      rw [get?_eq_none_iff, keys, he]
      rw [List.map_append, List.nodup_append] at hn
      exact fun hm => hn.2.2 k hm k (by simp) rfl
    have hset : (e.set k v).entries = l ++ [(k, v)] := by rw [entries_set_new e k v hk, he]
    have := ih (l ++ [(k, v)]) (e.set k v) hset (by simpa using hn)
    simpa [update] using this

theorem update_values (d : Dict κ ν) (key : ν → κ) (h : ∀ e ∈ d.entries, key e.2 = e.1) :
    (empty : Dict κ ν).update (d.values.map fun v => (key v, v)) = d := by
  have hentries : (d.values.map fun v => (key v, v)) = d.entries := by
    have hid : d.entries.map ((fun v => (key v, v)) ∘ Prod.snd) = d.entries.map id :=
      List.map_congr_left fun e he => by simp [h e he]
    rw [values, List.map_map, hid, List.map_id]
  rw [hentries, update_entries]

theorem update_of_nodup (l : List (κ × ν)) (h : (l.map Prod.fst).Nodup) : (empty : Dict κ ν).update l = ⟨l, h⟩ :=
  update_entries ⟨l, h⟩

@[simp] theorem mem_entries_erase (d : Dict κ ν) (k : κ) (e : κ × ν) :
    e ∈ (d.erase k).entries ↔ e ∈ d.entries ∧ e.1 ≠ k := by
  simp [erase]

theorem get?_erase (d : Dict κ ν) (k a : κ) : (d.erase k).get? a = if a = k then none else d.get? a := by
  by_cases h : a = k
  · rw [if_pos h, get?_eq_none_iff]
    simp [keys, erase, h]
  · rw [if_neg h]
    apply Option.ext
    intro v
    rw [get?_eq_some_iff, get?_eq_some_iff, mem_entries_erase]
    simp [h]

/-- `popitem(True)` takes the last entry off. -/
theorem entries_erase_last (d : Dict κ ν) (l : List (κ × ν)) (k : κ) (v : ν) (h : d.entries = l ++ [(k, v)]) :
    (d.erase k).entries = l := by
  have hn := d.nodup
  rw [h, List.map_append, List.nodup_append] at hn
  have hl : ∀ e ∈ l, e.1 ≠ k := fun e he => hn.2.2 e.1 (List.mem_map_of_mem he) k (by simp)
  change d.entries.filter _ = l
  rw [h, List.filter_append, List.filter_eq_self.mpr fun e he => by simpa using hl e he]
  simp

theorem get?_filter (d : Dict κ ν) (p : κ × ν → Bool) (k : κ) :
    (d.filter p).get? k = (d.get? k).filter fun v => p (k, v) := by
  apply Option.ext
  intro v
  rw [get?_eq_some_iff, Option.filter_eq_some_iff, get?_eq_some_iff]
  simp [filter]

theorem get?_mapValues {ω : Type} (d : Dict κ ν) (f : κ → ν → ω) (k : κ) :
    (d.mapValues f).get? k = (d.get? k).map (f k) := by
  apply Option.ext
  intro v
  rw [get?_eq_some_iff, Option.map_eq_some_iff]
  simp only [get?_eq_some_iff, mapValues, List.mem_map, Prod.mk.injEq]
  constructor
  · rintro ⟨⟨a, w⟩, hm, rfl, rfl⟩
    exact ⟨w, hm, rfl⟩
  · rintro ⟨w, hm, rfl⟩
    exact ⟨(k, w), hm, rfl, rfl⟩

theorem mem_keys_iff (d : Dict κ ν) (k : κ) : k ∈ d.keys ↔ ∃ v, d.get? k = some v := by
  rw [← not_iff_not, ← get?_eq_none_iff, Option.eq_none_iff_forall_not_mem, not_exists]
  rfl

theorem mem_values_iff (d : Dict κ ν) (v : ν) : v ∈ d.values ↔ ∃ k, d.get? k = some v := by
  simp only [values, List.mem_map, get?_eq_some_iff, Prod.exists, exists_eq_right]

/-- `for k in ks: del d[k]`, where a missing key is no error. -/
theorem get?_foldl_erase {α : Type} (f : α → κ) (l : List α) (d : Dict κ ν) (a : κ) :
    (l.foldl (fun d x => d.erase (f x)) d).get? a = if a ∈ l.map f then none else d.get? a := by
  induction l generalizing d with
  | nil => simp
  | cons x l ih =>
    rw [List.foldl_cons, ih, get?_erase, List.map_cons]
    by_cases hx : a = f x
    · simp [hx]
    · simp [hx]

theorem mem_keys_update (d : Dict κ ν) (l : List (κ × ν)) (a : κ) :
    a ∈ (d.update l).keys ↔ a ∈ l.map Prod.fst ∨ a ∈ d.keys := by
  induction l generalizing d with
  | nil => simp [update]
  | cons e l ih =>
    have hset := ih (d.set e.1 e.2)
    rw [mem_keys_set] at hset
    rw [update, List.foldl_cons, List.map_cons, List.mem_cons]
    refine hset.trans ?_
    tauto

theorem get?_update_some (d : Dict κ ν) (l : List (κ × ν)) (k : κ) (v : ν) (h : (d.update l).get? k = some v) :
    (k, v) ∈ l ∨ d.get? k = some v := by
  induction l generalizing d with
  | nil => exact .inr h
  | cons e l ih =>
    rw [update, List.foldl_cons] at h
    rcases ih (d.set e.1 e.2) h with hl | hd
    · exact .inl (List.mem_cons_of_mem _ hl)
    · rw [get?_set] at hd
      split at hd
      · next hk =>
        left
        rw [Option.some.injEq] at hd
        rw [← hk, ← hd]
        exact List.mem_cons_self
      · exact .inr hd

theorem get?_update_map (f : κ → ν) (l : List κ) (d : Dict κ ν) (a : κ) :
    (d.update (l.map fun k => (k, f k))).get? a = if a ∈ l then some (f a) else d.get? a := by
  induction l generalizing d with
  | nil => rfl
  | cons k l ih =>
    rw [List.map_cons, update, List.foldl_cons]
    refine (ih (d.set k (f k))).trans ?_
    by_cases hl : a ∈ l
    · simp [hl]
    · by_cases hk : a = k
      · simp [hk]
      · simp [hl, hk, Ne.symm hk]

end Dict

end Lib
