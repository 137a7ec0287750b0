import Afkak.BrokerClient.Flush

/-!
# What is written to the connections

Nothing whose `Deferred` has fired is written, nothing twice on one connection, and what waits is written in the
order of the calls, as long as callbacks leave alone what a running flush has yet to write.
-/

open Lib

namespace Afkak.BrokerClient

/-! ## A dead request is not written -/

def escapes (s : State) (sendFails : Option Exc) : Option Exc :=
  match s.stack with
  | .flush (o :: rest) :: below =>
    match s.heap.get? o with
    | none => none
    | some r =>
      if r.sent.isSome then none else (sendRequest { s with stack := .flush rest :: below } o r sendFails).2
  | _ => none

theorem Flushing.no_escape {s : State} (h : Flushing s) (sendFails : Option Exc) : escapes s sendFails = none := by
  unfold escapes
  split
  · next o rest below hstack =>
    obtain ⟨c, r, -, ho, hs, hsend⟩ := flushRound_waiting h hstack sendFails
    simp [ho.1, hs, hsend]
  · rfl

theorem Waits.unfired {s : State} (hi : Inv s) {o : Nat} (h : Waits s o) : ¬ Fired s o := by
  obtain ⟨r, ho, -⟩ := h
  exact (hi.unfired o r ho.1).mpr ho

theorem calls_subset {s t : State} {e : Event} (h : Effect s e t) {x : Nat × Outcome} (hx : x ∈ s.calls) :
    x ∈ t.calls := by
  rcases h.calls with hc | ⟨d, out, hc, -⟩
  · rw [hc]
    exact hx
  · rw [hc]
    exact List.mem_append_left _ hx

theorem Fired.mono {s t : State} {e : Event} (h : Effect s e t) {d : Nat} (hd : Fired s d) : Fired t d := by
  obtain ⟨x, hx, rfl⟩ := List.mem_map.mp hd
  exact List.mem_map_of_mem (calls_subset h hx)

structure Since (s t : State) : Prop where
  nextD : s.nextD ≤ t.nextD
  fired : ∀ d, Fired s d → Fired t d
  written : ∃ w, t.written = s.written ++ w ∧ ∀ x ∈ w, ¬ Fired s x.2

theorem since_step {s t u : State} {e : Event} (hs : Inv s) (ht : Flushing t) (h : Since s t) (hspare : SparesQueue t e)
    (hstep : step t e = some u) : Since s u := by
  have heff := step_effect ht.inv (ht.uniqueIds e) hstep
  obtain ⟨w, hw, hall⟩ := h.written
  have hadd : ∀ w', u.written = t.written ++ w' → (∀ x ∈ w', ¬ Fired s x.2) → Since s u := by
    intro w' hw' hall'
    refine ⟨h.nextD.trans heff.later.nextD, fun d hd => (h.fired d hd).mono heff, w ++ w', ?_, ?_⟩
    · rw [hw', hw, List.append_assoc]
    · intro x hx
      rcases List.mem_append.mp hx with hx | hx
      · exact hall x hx
      · exact hall' x hx
  have hsame : u.written = t.written → Since s u := fun heq => hadd [] (by simpa using heq) (by simp)
  cases (flushing_step ht hspare hstep).2 with
  | quiet _ _ _ hwritten _ => exact hsame hwritten
  | up _ _ _ _ hwritten => exact hsame hwritten
  | lost _ _ _ _ hwritten => exact hsame hwritten
  | sends _ _ _ _ hwritten _ _ _ =>
    refine hadd _ hwritten fun x hx => ?_
    simp only [List.mem_singleton] at hx
    subst hx
    exact (hs.fresh t.nextD h.nextD).2
  | round _ _ _ _ hwaits hwritten _ _ _ =>
    refine hadd _ hwritten fun x hx => ?_
    split at hx
    · simp only [List.mem_singleton] at hx
      subst hx
      exact fun hf => hwaits.unfired ht.inv (h.fired _ hf)
    · simp at hx

/-- After a state only those requests are written whose `Deferred` had not fired there, and nothing escapes from
a flush. -/
theorem dead_request_not_written (es fs : List Event) (s t : State)
    (hok : Machine.RunOk step SparesQueue init (es ++ fs)) (hs : Machine.run step init es = some s)
    (ht : Machine.run step s fs = some t) :
    (∃ w, t.written = s.written ++ w ∧ ∀ x ∈ w, ¬ Fired s x.2) ∧ ∀ sendFails, escapes t sendFails = none := by
  obtain ⟨hok₁, hok₂⟩ := Machine.runOk_append step hok hs
  have hflush : Flushing s := Machine.run_invariant step SparesQueue Flushing
    (fun _ _ _ h hspare hstep => (flushing_step h hspare hstep).1) es init s flushing_init hok₁ hs
  have hsince : Flushing t ∧ Since s t := by
    refine Machine.run_invariant step SparesQueue (fun u => Flushing u ∧ Since s u) ?_ fs s t ?_ hok₂ ht
    · intro u e v hu hspare hstep
      exact ⟨(flushing_step hu.1 hspare hstep).1, since_step hflush.inv hu.1 hu.2 hspare hstep⟩
    · exact ⟨hflush, le_rfl, fun _ => id, [], by simp, by simp⟩
  exact ⟨hsince.2.written, hsince.1.no_escape⟩

def quietFlush : List Event :=
  [.makeRequest 1 [0, 0] false none, .makeRequest 2 [0, 3] true none, .makeRequest 3 [0, 1] true none, .cancel 1,
    .connectionMade 0, .resume none]

theorem quietFlush_not_written : ∃ s t, Machine.run step init quietFlush = some s ∧ Fired s 1 ∧
    Machine.run step s [.resume none, .resume none] = some t ∧ t.written = [(0, 0), (0, 2)] ∧
    ((∃ w, t.written = s.written ++ w ∧ ∀ x ∈ w, ¬ Fired s x.2) ∧ ∀ sendFails, escapes t sendFails = none) := by
  refine ⟨_, _, rfl, by decide, rfl, by decide, ?_⟩
  exact dead_request_not_written quietFlush [.resume none, .resume none] _ _ (by decide) rfl rfl

/-- The callback of the first request cancels the second while the flush runs. -/
def cancelInFlush (expectResponse : Bool) : List Event :=
  [.makeRequest 1 [0, 0] false none, .makeRequest 2 [0, 3] expectResponse none, .makeRequest 3 [0, 1] true none,
    .connectionMade 0, .resume none, .cancel 1]

/-- The flush writes it all the same, and without a response to wait for a `KeyError` escapes. -/
theorem cancelled_in_flush_written : ∃ s t u, Machine.run step init (cancelInFlush true) = some s ∧ Fired s 1 ∧
    step s (.resume none) = some t ∧ t.written = s.written ++ [(0, 1)] ∧
    Machine.run step init (cancelInFlush false) = some u ∧ escapes u none = some .keyError := by
  refine ⟨_, _, _, rfl, by decide, rfl, rfl, rfl, by decide⟩

/-! ## Once on each connection -/

structure Once (s : State) : Prop where
  known : ∀ x ∈ s.written, x.1 < s.nextConnection ∧ x.2 < s.nextD
  proto : ∀ c, s.proto = some c → c < s.nextConnection
  marked : ∀ c o, s.proto = some c → (c, o) ∈ s.written → Sent s o
  nodup : s.written.Nodup

theorem Waits.not_sent {s : State} {o : Nat} (h : Waits s o) : ¬ Sent s o := by
  obtain ⟨r, ⟨hr, -⟩, hs⟩ := h
  rintro ⟨q, hq, hsent⟩
  rw [hr, Option.some.injEq] at hq
  exact hsent (hq ▸ hs)

theorem Once.write {s t : State} (h : Once s) {c o : Nat} (hup : s.proto = some c) (hproto : t.proto = s.proto)
    (hconn : t.nextConnection = s.nextConnection) (hnext : s.nextD ≤ t.nextD)
    (hwritten : t.written = s.written ++ [(c, o)]) (ho : o < t.nextD) (hnew : (c, o) ∉ s.written) (hsent : Sent t o)
    (hkeep : ∀ o, Sent s o → Sent t o) : Once t where
  known := by
    intro x hx
    rw [hwritten, List.mem_append, List.mem_singleton] at hx
    rw [hconn]
    rcases hx with hx | rfl
    · have := h.known x hx
      omega
    · exact ⟨h.proto c hup, ho⟩
  proto := by
    rw [hproto, hconn]
    exact h.proto
  marked := by
    intro c' o' hc' hx
    rw [hwritten, List.mem_append, List.mem_singleton] at hx
    rcases hx with hx | hx
    · exact hkeep o' (h.marked c' o' (hproto ▸ hc') hx)
    · rw [Prod.mk.injEq] at hx
      exact hx.2 ▸ hsent
  nodup := by
    rw [hwritten, List.nodup_append]
    refine ⟨h.nodup, by simp, ?_⟩
    rintro x hx y hy rfl
    simp only [List.mem_singleton] at hy
    exact hnew (hy ▸ hx)

theorem once_step {s t : State} {e : Event} (hs : Flushing s) (h : Once s) (hspare : SparesQueue s e)
    (hstep : step s e = some t) : Once t := by
  have hnext := (step_effect hs.inv (hs.uniqueIds e) hstep).later.nextD
  have hknown : t.nextConnection = s.nextConnection ∨ t.nextConnection = s.nextConnection + 1 →
      ∀ x ∈ s.written, x.1 < t.nextConnection ∧ x.2 < t.nextD := by
    intro hconn x hx
    have := h.known x hx
    omega
  cases (flushing_step hs hspare hstep).2 with
  | quiet hproto hconn _ hwritten hkeep =>
    refine ⟨by rw [hwritten]; exact hknown (.inl hconn), by rw [hproto, hconn]; exact h.proto, ?_,
      by rw [hwritten]; exact h.nodup⟩
    intro c o hc hx
    exact hkeep o (h.marked c o (hproto ▸ hc) (hwritten ▸ hx))
  | sends hup hproto hconn _ hwritten hnextD hsent hkeep =>
    refine h.write hup hproto hconn hnext hwritten (by omega) ?_ hsent hkeep
    intro hx
    have := (h.known _ hx).2
    simp only at this
    omega
  | up _ hproto hconn _ hwritten =>
    refine ⟨by rw [hwritten]; exact hknown (.inr hconn), ?_, ?_, by rw [hwritten]; exact h.nodup⟩
    · intro c hc
      rw [hproto, Option.some.injEq] at hc
      omega
    · -- Nothing has been written on the new connection.
      intro c o hc hx
      rw [hproto, Option.some.injEq] at hc
      rw [hwritten] at hx
      have := (h.known _ hx).1
      simp only at this
      omega
  | lost _ _ hproto hconn hwritten =>
    refine ⟨by rw [hwritten]; exact hknown (.inl hconn), ?_, ?_, by rw [hwritten]; exact h.nodup⟩
    · intro c hc
      simp [hproto] at hc
    · intro c o hc
      simp [hproto] at hc
  | round hup hproto hconn _ hwaits hwritten _ hsent hkeep =>
    have hlt := hwaits.lt hs.inv
    split at hwritten
    · exact h.write hup hproto hconn hnext hwritten (by omega)
        (fun hx => hwaits.not_sent (h.marked _ _ hup hx)) hsent hkeep
    · rw [List.append_nil] at hwritten
      refine ⟨by rw [hwritten]; exact hknown (.inl hconn), by rw [hproto, hconn]; exact h.proto, ?_,
        by rw [hwritten]; exact h.nodup⟩
      intro c o hc hx
      exact hkeep o (h.marked c o (hproto ▸ hc) (hwritten ▸ hx))

/-! ## In order -/

/-- Those of the requests `p` that were written on connection `c`, in order. -/
def writtenOn (s : State) (c : Nat) (p : List Nat) : List Nat :=
  (s.written.filter fun x => x.1 = c ∧ x.2 ∈ p).map Prod.snd

/-- How far the flush of `p` on connection `c` has come, when `fs` is what has happened since the connection came
up: `done` has been tried. -/
structure Progress (c : Nat) (p : List Nat) (fs : List Event) (done : List Nat) (t : State) : Prop where
  conn : c < t.nextConnection
  old : ∀ o ∈ p, o < t.nextD
  running : t.proto = some c → p = done ++ queuedBy t.stack
  ended : t.proto ≠ some c → p = done
  written : (writtenOn t c p).Sublist done
  all : ∀ o ∈ done, o ∈ writtenOn t c p ∨ ∃ e, .resume (some e) ∈ fs ∧ (o, .failed e) ∈ t.calls

theorem writtenOn_append (s t : State) (c : Nat) (p : List Nat) (x : Nat × Nat) (h : t.written = s.written ++ [x]) :
    writtenOn t c p = writtenOn s c p ++ if x.1 = c ∧ x.2 ∈ p then [x.2] else [] := by
  unfold writtenOn
  rw [h, List.filter_append, List.map_append]
  by_cases hx : x.1 = c ∧ x.2 ∈ p
  · simp [hx]
  · rw [List.filter_cons_of_neg (by simpa using hx), if_neg hx]
    rfl

theorem Progress.keep {c : Nat} {p done : List Nat} {fs : List Event} {s t : State} (h : Progress c p fs done s)
    (hconn : c < t.nextConnection) (hnext : s.nextD ≤ t.nextD) (hrun : t.proto = some c → p = done ++ queuedBy t.stack)
    (hended : t.proto ≠ some c → p = done) (hwritten : writtenOn t c p = writtenOn s c p)
    (hcalls : ∀ x ∈ s.calls, x ∈ t.calls) : Progress c p fs done t where
  conn := hconn
  old o ho := (h.old o ho).trans_le hnext
  running := hrun
  ended := hended
  written := by
    rw [hwritten]
    exact h.written
  all o ho := by
    rw [hwritten]
    exact (h.all o ho).imp_right fun ⟨e, he, hx⟩ => ⟨e, he, hcalls _ hx⟩

theorem progress_step {c : Nat} {p : List Nat} {fs : List Event} {s t : State} {e : Event} (hs : Flushing s)
    {done : List Nat} (h : Progress c p fs done s) (hspare : SparesQueue s e) (he : e ∈ fs)
    (hstep : step s e = some t) :
    ∃ done, Progress c p fs done t := by
  have heff := step_effect hs.inv (hs.uniqueIds e) hstep
  have hnext := heff.later.nextD
  have hcalls : ∀ x ∈ s.calls, x ∈ t.calls := fun x hx => calls_subset heff hx
  have hdone : queuedBy s.stack = [] → p = done := by
    intro hq
    by_cases hp : s.proto = some c
    · simpa [hq] using h.running hp
    · exact h.ended hp
  have hconn := h.conn
  cases (flushing_step hs hspare hstep).2 with
  | quiet hproto hconn' hqueue hwritten _ =>
    refine ⟨done, h.keep (by omega) hnext ?_ ?_ (by simp [writtenOn, hwritten]) hcalls⟩
    · rw [hproto, hqueue]
      exact h.running
    · rw [hproto]
      exact h.ended
  | @sends _ _ c' _ hproto hconn' hqueue hwritten _ _ _ =>
    refine ⟨done, h.keep (by omega) hnext ?_ ?_ ?_ hcalls⟩
    · rw [hproto, hqueue]
      exact h.running
    · rw [hproto]
      exact h.ended
    · rw [writtenOn_append s t c p _ hwritten, if_neg, List.append_nil]
      intro hx
      exact Nat.lt_irrefl _ (h.old _ hx.2)
  | up hidle hproto hconn' _ hwritten =>
    refine ⟨done, h.keep (by omega) hnext (fun hc => ?_) (fun _ => hdone hidle) (by simp [writtenOn, hwritten]) hcalls⟩
    rw [hproto, Option.some.injEq] at hc
    omega
  | lost hidle _ hproto hconn' hwritten =>
    refine ⟨done, h.keep (by omega) hnext (fun hc => ?_) (fun _ => hdone hidle) (by simp [writtenOn, hwritten]) hcalls⟩
    simp [hproto] at hc
  | @round _ c' o sendFails hup hproto hconn' hqueue _ hwritten hfailed _ _ =>
    by_cases hc : c' = c
    · subst hc
      have hrun : p = (done ++ [o]) ++ queuedBy t.stack := by
        rw [h.running hup, hqueue]
        simp
      have ho : o ∈ p := by
        rw [hrun]
        simp
      have hw : writtenOn t c' p = writtenOn s c' p ++ if sendFails = none then [o] else [] := by
        split at hwritten
        · next hf => rw [writtenOn_append s t c' p _ hwritten, if_pos ⟨rfl, ho⟩, if_pos hf]
        · next hf => simp [writtenOn, hwritten, hf]
      refine ⟨done ++ [o], by omega, fun x hx => (h.old x hx).trans_le hnext, fun _ => hrun, ?_, ?_, ?_⟩
      · intro hne
        exact absurd (hproto.trans hup) hne
      · rw [hw]
        refine h.written.append ?_
        split
        · exact List.Sublist.refl _
        · exact List.nil_sublist _
      · intro x hx
        rw [hw]
        rcases List.mem_append.mp hx with hx | hx
        · rcases h.all x hx with hx | ⟨e, he, hx⟩
          · exact .inl (List.mem_append_left _ hx)
          · exact .inr ⟨e, he, hcalls _ hx⟩
        · simp only [List.mem_singleton] at hx
          subst hx
          cases sendFails with
          | none => exact .inl (by simp)
          | some e => exact .inr ⟨e, he, hfailed e rfl⟩
    · -- It is another connection that is flushed.
      have hne : t.proto ≠ some c := by
        rw [hproto, hup, ne_eq, Option.some.injEq]
        exact hc
      refine ⟨done, h.keep (by omega) hnext (fun heq => absurd heq hne) (fun _ => h.ended (hproto ▸ hne)) ?_ hcalls⟩
      split at hwritten
      · rw [writtenOn_append s t c p _ hwritten, if_neg (by simp [hc]), List.append_nil]
      · simp [writtenOn, hwritten]

/-- What waited in the table of `u` when a connection came up there, and the state `t` after `fs`: the requests
are written on that connection in the order of their `makeRequest`, and none is left out, except where
`sendString` raises. -/
structure FlushedInOrder (u : State) (fs : List Event) (t : State) : Prop where
  order : u.requests.values.Pairwise (· < ·)
  written : (writtenOn t u.nextConnection u.requests.values).Sublist u.requests.values
  all : ∀ o ∈ u.requests.values, o ∈ writtenOn t u.nextConnection u.requests.values ∨
    (t.proto = some u.nextConnection ∧ o ∈ queuedBy t.stack) ∨
    ∃ e, .resume (some e) ∈ fs ∧ (o, .failed e) ∈ t.calls

structure Disciplined (es : List Event) (s : State) : Prop where
  once : s.written.Nodup
  inOrder : ∀ es₁ k es₂ u, es = es₁ ++ .connectionMade k :: es₂ → Machine.run step init es₁ = some u →
    FlushedInOrder u es₂ s
  /-- The entries of the unfired `Deferred`s stay where they are, unsent. -/
  kept : ∀ c t, step s (.connectionLost c) = some t →
    t.requests.entries = (s.requests.entries.filter fun x => ¬ Fired s x.2) ∧ ∀ d < s.nextD, ¬ Fired s d → Waits t d

theorem flushedInOrder {k : Nat} {u s t : State} {fs : List Event} (hu : Flushing u) (honce : Once u)
    (hup : step u (.connectionMade k) = some s) (hok : Machine.RunOk step SparesQueue s fs)
    (hrun : Machine.run step s fs = some t) (hopen : t.dDown = none) : FlushedInOrder u fs t := by
  have hs := (flushing_step (e := .connectionMade k) hu trivial hup).1
  have hfresh : ∀ o ∈ u.requests.values, o < u.nextD := fun o ho => lt_of_mem_values hu.inv ho
  -- The flush begins with nothing done.
  have hbegin : s.dDown = none → Progress u.nextConnection u.requests.values fs [] s := by
    intro hdown
    simp only [step, Option.ite_none_right_eq_some, Option.some.injEq] at hup
    obtain ⟨⟨hstack, -⟩, rfl⟩ := hup
    unfold cbConnect at hdown ⊢
    simp only at hdown ⊢
    split at hdown
    · next hd =>
      have hnone : u.dDown = none := hdown
      simp [hnone] at hd
    · next hd =>
      rw [if_neg hd]
      have hempty : writtenOn u u.nextConnection u.requests.values = [] := by
        simp only [writtenOn, List.map_eq_nil_iff, List.filter_eq_nil_iff, decide_eq_true_eq, not_and]
        intro x hx heq
        have := (honce.known x hx).1
        omega
      refine ⟨Nat.lt_succ_self _, hfresh, fun _ => by simp [queuedBy, hstack], fun h => absurd rfl h, ?_, by simp⟩
      exact hempty ▸ List.Sublist.refl _
  have hprogress : Flushing t ∧ (t.dDown = none → ∃ done, Progress u.nextConnection u.requests.values fs done t) := by
    refine Machine.run_invariant step (fun s e => SparesQueue s e ∧ e ∈ fs)
      (fun t => Flushing t ∧ (t.dDown = none → ∃ done, Progress u.nextConnection u.requests.values fs done t))
      ?_ fs s t ⟨hs, fun hd => ⟨[], hbegin hd⟩⟩ (Machine.runOk_mem step fs (fun _ => id) hok) hrun
    intro v e w hv hcond hstep
    have heff := step_effect hv.1.inv (hv.1.uniqueIds e) hstep
    refine ⟨(flushing_step hv.1 hcond.1 hstep).1, fun hd => ?_⟩
    have hdown : v.dDown = none := by
      by_contra hne
      exact heff.later.down hne hd
    obtain ⟨done, hdone⟩ := hv.2 hdown
    exact progress_step hv.1 hdone hcond.1 hcond.2 hstep
  obtain ⟨done, hdone⟩ := hprogress.2 hopen
  by_cases hc : t.proto = some u.nextConnection
  · have hsplit := hdone.running hc
    refine ⟨hu.ordered, ?_, ?_⟩
    · refine hdone.written.trans ?_
      conv_rhs => rw [hsplit]
      exact List.sublist_append_left _ _
    · intro o ho
      rw [hsplit, List.mem_append] at ho
      rcases ho with ho | ho
      · exact (hdone.all o ho).imp_right .inr
      · exact .inr (.inl ⟨hc, ho⟩)
  · have hall := hdone.ended hc
    refine ⟨hu.ordered, ?_, ?_⟩
    · conv_rhs => rw [hall]
      exact hdone.written
    · intro o ho
      rw [hall] at ho
      exact (hdone.all o ho).imp_right .inr

theorem isCancelled_iff_fired {s : State} (hi : Inv s) {x : Int × Nat} (hx : x ∈ s.requests.entries) :
    isCancelled s x.2 = true ↔ Fired s x.2 := by
  obtain ⟨cid, o⟩ := x
  have hget := (Dict.get?_eq_some_iff _ _ _).mpr hx
  obtain ⟨r, hr, rfl⟩ := hi.entry cid o hget
  have hun := hi.unfired o r hr
  simp only [isCancelled, hr, Option.isSome_iff_ne_none]
  constructor
  · intro hcan
    by_contra hf
    exact hcan (hun.mp hf).2.2
  · intro hf hcan
    exact hun.mpr ⟨hr, hget, hcan⟩ hf

theorem kept_connectionLost {s t : State} (h : Flushing s) {c : Nat} (hstep : step s (.connectionLost c) = some t) :
    t.requests.entries = (s.requests.entries.filter fun x => ¬ Fired s x.2) ∧ ∀ d < s.nextD, ¬ Fired s d →
    Waits t d := by
  have heff := step_effect h.inv (h.uniqueIds (.connectionLost c)) hstep
  have hflush := (flushing_step (e := .connectionLost c) h trivial hstep).1
  simp only [step, Option.ite_none_right_eq_some, Option.some.injEq] at hstep
  obtain ⟨-, rfl⟩ := hstep
  -- Every branch keeps the table and the calls that `markUnsent` leaves, and has no connection.
  obtain ⟨hreq, hcalls, hnext, hproto⟩ : (connectionLost { s with live := s.live.filter (· ≠ c) }).requests =
        s.requests.filter (fun e => !isCancelled s e.2) ∧
      (connectionLost { s with live := s.live.filter (· ≠ c) }).calls = s.calls ∧
      (connectionLost { s with live := s.live.filter (· ≠ c) }).nextD = s.nextD ∧
      (connectionLost { s with live := s.live.filter (· ≠ c) }).proto = none := by
    unfold connectionLost
    simp only
    split
    · exact ⟨rfl, rfl, rfl, rfl⟩
    · split
      · exact ⟨rfl, rfl, rfl, rfl⟩
      · exact ⟨rfl, rfl, rfl, rfl⟩
  refine ⟨?_, ?_⟩
  · rw [hreq]
    refine List.filter_congr fun x hx => ?_
    have := isCancelled_iff_fired h.inv hx
    by_cases hf : Fired s x.2
    · simp [hf, this.mpr hf]
    · simp [hf, Bool.eq_false_iff.mpr fun hc => hf (this.mp hc)]
  · intro d hd hf
    rw [← fired_congr hcalls] at hf
    rw [← hnext] at hd
    obtain ⟨r, ho⟩ := (heff.inv.outstanding hd).mp hf
    exact hflush.unsent hproto d ((mem_values_iff _ _).mpr ⟨_, ho.2.1⟩)

theorem writes_disciplined (es : List Event) (s : State) (hok : Machine.RunOk step SparesQueue init es)
    (hrun : Machine.run step init es = some s) (hopen : s.dDown = none) : Disciplined es s := by
  have hall : ∀ fs t, Machine.RunOk step SparesQueue init fs → Machine.run step init fs = some t → Flushing t ∧
    Once t := by
    intro fs t hok hrun
    refine Machine.run_invariant step SparesQueue (fun t => Flushing t ∧ Once t) ?_ fs init t ?_ hok hrun
    · intro u e v hu hspare hstep
      exact ⟨(flushing_step hu.1 hspare hstep).1, once_step hu.1 hu.2 hspare hstep⟩
    · exact ⟨flushing_init, by simp [init], by simp [init], by simp [init], by simp [init]⟩
  obtain ⟨hflush, honce⟩ := hall es s hok hrun
  refine ⟨honce.nodup, ?_, fun c t hstep => kept_connectionLost hflush hstep⟩
  rintro es₁ k es₂ u rfl hu
  obtain ⟨hok₁, hok₂⟩ := Machine.runOk_append step hok hu
  rw [Machine.run_append, hu, Option.bind_some, Machine.run_cons, Option.bind_eq_some_iff] at hrun
  obtain ⟨v, hv, hrun⟩ := hrun
  obtain ⟨hflush₁, honce₁⟩ := hall es₁ u hok₁ hu
  exact flushedInOrder hflush₁ honce₁ hv (hok₂.2 v hv) hrun hopen

/-- Two requests are written and then one more; the connection is lost, and after a failed attempt they are
written again. -/
def rewrittenRun : List Event :=
  [.makeRequest 1 [0, 3] true none, .makeRequest 2 [0, 1] true none, .connectionMade 0, .resume none, .resume none,
    .resume none, .makeRequest 3 [0, 2] true none, .cancel 1, .connectionLost 0, .connectFailed 1, .delayElapsed 2,
    .connectionMade 3, .resume none, .resume none, .resume none]

theorem rewrittenRun_disciplined : ∃ s, Machine.run step init rewrittenRun = some s ∧
    s.written = [(0, 0), (0, 1), (0, 2), (1, 0), (1, 2)] ∧ Disciplined rewrittenRun s := by
  refine ⟨_, rfl, rfl, ?_⟩
  exact writes_disciplined rewrittenRun _ (by decide) rfl rfl

/-- The flush ends with the `KeyError`: the third request, though it waited when the connection came up, is not
written on it. -/
theorem cancelled_in_flush_drops_rest : ∃ u s,
    Machine.run step init ((cancelInFlush false).take 3) = some u ∧ 2 ∈ u.requests.values ∧
    Machine.run step init (cancelInFlush false ++ [.resume none]) = some s ∧ s.dDown = none ∧
    2 ∉ writtenOn s u.nextConnection u.requests.values ∧ s.stack = [] ∧ ¬ Fired s 2 := by
  refine ⟨_, _, rfl, by decide, rfl, rfl, by decide, rfl, by decide⟩

end Afkak.BrokerClient
