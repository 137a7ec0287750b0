import Afkak.BrokerClient.Table

/-!
# What comes of the requests

A step fires the `Deferred`s that it has reason to (`Fires`), and keeps the invariant of the table. From this the
table is sound in every run.
-/

open Lib

namespace Afkak.BrokerClient

/-! ## What one step does -/

inductive Fires (s t : State) (d : Nat) : Event → Outcome → Prop
  | refused {correlationId : Int} {request : Bytes} {expectResponse : Bool} {sendFails : Option Exc}
    (hnew : d = s.nextD) (hdown : s.dDown ≠ none) :
    Fires s t d (.makeRequest correlationId request expectResponse sendFails) (.failed .clientError)
  | sentAtOnce {correlationId : Int} {request : Bytes} {expectResponse : Bool} {sendFails : Option Exc} {out : Outcome}
    (hnew : d = s.nextD) (hsends : Sends t d out) :
    Fires s t d (.makeRequest correlationId request expectResponse sendFails) out
  | flushed {r : RequestState} {sendFails : Option Exc} {out : Outcome} (ho : Outstanding s d r)
    (hstack : s.stack.head? ≠ some .close) (hsends : Sends t d out) : Fires s t d (.resume sendFails) out
  | closed {r : RequestState} {sendFails : Option Exc} (ho : Outstanding s d r) :
    Fires s t d (.resume sendFails) (.failed .clientError)
  | cancelled {r : RequestState} (ho : Outstanding s d r) : Fires s t d (.cancel d) (.failed .tidCancelled)
  | answered {r : RequestState} {c : Nat} {response : Bytes} (hlive : c ∈ s.live) (hstack : s.stack = [])
    (ho : Outstanding s d r) (hid : getResponseCorrelationId response = .ok r.correlationId) :
    Fires s t d (.stringReceived c response) (.success (some response))

structure Later (s t : State) : Prop where
  down : s.dDown ≠ none → t.dDown ≠ none
  nextD : s.nextD ≤ t.nextD

/-- A step keeps the invariant and fires one `Deferred` or none. -/
structure Effect (s : State) (e : Event) (t : State) : Prop where
  inv : Inv t
  later : Later s t
  calls : t.calls = s.calls ∨ ∃ d out, t.calls = s.calls ++ [(d, out)] ∧ Fires s t d e out

theorem Effect.quiet {s t : State} {e : Event} (hi : Inv t) (hl : Later s t)
    (h : t.calls = s.calls) : Effect s e t := ⟨hi, hl, .inl h⟩

theorem Effect.same {s t : State} {e : Event} (hi : Inv s) (h : SameTable s t) (hstack : t.stack = s.stack)
    (hdown : t.dDown = s.dDown) : Effect s e t := by
  refine .quiet (hi.congr h (fun o ho => .inl (hstack ▸ ho)) fun hd => ?_) ⟨by rw [hdown]; exact id, h.nextD.ge⟩ h.calls
  rw [h.requests, hstack]
  exact hi.closing (hdown ▸ hd)

theorem effect_makeRequest {s : State} (hi : Inv s) (cid : Int) (request : Bytes) (expectResponse : Bool)
    (sendFails : Option Exc) (hu : UniqueIds s (.makeRequest cid request expectResponse sendFails)) :
    Effect s (.makeRequest cid request expectResponse sendFails)
      (makeRequest s cid request expectResponse sendFails) := by
  unfold makeRequest
  split
  · exact .quiet hi ⟨id, le_rfl⟩ rfl
  · next hnew =>
    have hnew : s.requests.get? cid = none := by simpa using hnew
    split
    · next hdown =>
      have hdown : s.dDown ≠ none := by simpa [Option.isSome_iff_ne_none] using hdown
      refine ⟨?_, ⟨id, Nat.le_succ _⟩, .inr ⟨s.nextD, _, rfl, .refused rfl hdown⟩⟩
      exact inv_refuse hi
    · next hdown =>
      have hq := hu.resolve_left (by simp [hnew])
      have hdown : s.dDown = none := by simpa using hdown
      have henq := inv_enqueue (r := ⟨cid, request, expectResponse, s.seconds, none, none⟩) hi hnew hq hdown rfl
      split
      · -- The new request is sent over the connection.
        have hget : (enqueue s ⟨cid, request, expectResponse, s.seconds, none, none⟩).heap.get? s.nextD =
            some ⟨cid, request, expectResponse, s.seconds, none, none⟩ := by simp [enqueue]
        obtain ⟨writes, hmark, h | ⟨out, ho, hs, h⟩⟩ := sendRequest_cases henq hget rfl
          (by intro o' h'; simpa [enqueue, eq_comm] using h') sendFails
        · rw [← h] at hmark
          have hcalls := congrArg State.calls h
          have hnext := congrArg State.nextD h
          exact .quiet hmark ⟨fun hd => absurd hdown hd, hnext ▸ Nat.le_succ _⟩ hcalls
        · have hinv := inv_retire hmark (outstanding_marked ho writes) out
          have heq := congrArg Prod.fst h
          have hnext := congrArg State.nextD heq
          refine ⟨heq ▸ hinv, ⟨fun hd => absurd hdown hd, hnext ▸ Nat.le_succ _⟩,
            .inr ⟨s.nextD, out, congrArg State.calls heq, .sentAtOnce rfl ?_⟩⟩
          exact heq ▸ hs
      · split
        · exact .quiet (henq.congr ⟨rfl, rfl, rfl, rfl⟩ (fun _ h => .inl h) henq.closing) ⟨id, Nat.le_succ _⟩ rfl
        · exact .quiet henq ⟨id, Nat.le_succ _⟩ rfl

theorem effect_cancel {s : State} (hi : Inv s) (d : Nat) : Effect s (.cancel d) (cancel s d) := by
  unfold cancel
  split
  · exact .quiet hi ⟨id, le_rfl⟩ rfl
  · next hf =>
    cases hheap : s.heap.get? d with
    | none => exact .quiet hi ⟨id, le_rfl⟩ rfl
    | some r =>
      -- An unfired request is the one that its id leads to.
      have ho := (hi.unfired d r hheap).mp hf
      simp only [ho.2.1, hheap]
      refine ⟨?_, ?_, .inr ⟨d, .failed .tidCancelled, ?_, .cancelled ho⟩⟩
      · unfold cancelRequest
        split
        · next hs => exact inv_cancelSent hi ho (by simpa [Option.isSome_iff_ne_none] using hs) s.seconds _
        · exact inv_retire hi ho _
      · unfold cancelRequest
        split <;> exact ⟨id, le_rfl⟩
      · unfold cancelRequest
        split <;> rfl

theorem effect_handleResponse {s : State} (hi : Inv s) {c : Nat} (hc : c ∈ s.live) (hstack : s.stack = [])
    (response : Bytes) : Effect s (.stringReceived c response) (handleResponse s response) := by
  unfold handleResponse
  cases hid : getResponseCorrelationId response with
  | error e => exact .quiet hi ⟨id, le_rfl⟩ rfl
  | ok cid =>
    simp only
    cases hget : s.requests.get? cid with
    | none => exact .quiet hi ⟨id, le_rfl⟩ rfl
    | some o =>
      obtain ⟨r, hr, rfl⟩ := hi.entry cid o hget
      simp only [hr]
      split
      · next h => exact .quiet (inv_drop hi hget hr (by simpa [Option.isSome_iff_ne_none] using h)) ⟨id, le_rfl⟩ rfl
      · next h =>
        have ho : Outstanding s o r := ⟨hr, hget, by simpa using h⟩
        exact ⟨inv_retire hi ho _, ⟨id, le_rfl⟩, .inr ⟨o, _, rfl, .answered hc hstack ho hid⟩⟩

theorem effect_flushRound {s : State} (hi : Inv s) {o : Nat} {rest : List Nat} {below : List Frame}
    (hstack : s.stack = .flush (o :: rest) :: below) (sendFails : Option Exc) :
    Effect s (.resume sendFails) (flushRound s o rest below sendFails) := by
  have hmem : o ∈ queuedBy s.stack := by simp [hstack, queuedBy]
  obtain ⟨r, hr, hown⟩ := hi.queued o hmem
  have hdown : s.dDown ≠ none → s.requests.entries = [] := by
    intro h
    refine (hi.closing h).resolve_right ?_
    simp [hstack]
  have hpop : ∀ frames, (∀ x ∈ queuedBy frames, x ∈ queuedBy s.stack) → Inv { s with stack := frames } := by
    intro frames h
    exact hi.congr ⟨rfl, rfl, rfl, rfl⟩ (fun x hx => .inl (h x hx)) fun hd => .inl (hdown hd)
  have hnext : Inv { s with stack := .flush rest :: below } := hpop _ (by
    intro x hx
    simp only [hstack, queuedBy, List.cons_append, List.mem_cons]
    exact .inr hx)
  have hhead : s.stack.head? ≠ some .close := by simp [hstack]
  unfold flushRound
  simp only [hr]
  split
  · exact .quiet hnext ⟨id, le_rfl⟩ rfl
  · next hsent =>
    have hsent : r.sent = none := by simpa using hsent
    have heb : ∀ u : State, Inv u → u.dDown = s.dDown → u.nextD = s.nextD → u.stack = .flush rest :: below →
      u.calls = s.calls →
        Effect s (.resume sendFails) (ebConnect { u with stack := below }) := by
      intro u hu hud hun hus huc
      have hpopped : Inv { u with stack := below } := by
        refine hu.congr ⟨rfl, rfl, rfl, rfl⟩ (fun x hx => .inl ?_) fun hd => ?_
        · rw [hus, queuedBy]
          exact List.mem_append_right rest hx
        · refine .inl ((hu.closing hd).resolve_right ?_)
          simp [hus]
      unfold ebConnect
      split
      · exact .quiet hpopped ⟨hud ▸ id, hun.ge⟩ huc
      · exact .quiet (hpopped.congr ⟨rfl, rfl, rfl, rfl⟩ (fun _ h => .inl h) hpopped.closing) ⟨hud ▸ id, hun.ge⟩ huc
    obtain ⟨writes, hmark, h | ⟨out, ho, hs, h⟩⟩ := sendRequest_cases hnext hr hsent hown sendFails
    · split
      · next s' heq =>
        rw [heq] at h
        simp only at h
        subst h
        exact .quiet hmark ⟨id, le_rfl⟩ rfl
      · next s' e heq =>
        rw [heq] at h
        simp only at h
        subst h
        exact heb _ hmark rfl rfl rfl rfl
    · rw [h]
      exact ⟨inv_retire hmark (outstanding_marked ho writes) out, ⟨id, le_rfl⟩,
        .inr ⟨o, out, rfl, .flushed ho hhead hs⟩⟩

theorem effect_closeRound {s : State} (hi : Inv s) {below : List Frame} (hstack : s.stack = .close :: below)
    (sendFails : Option Exc) : Effect s (.resume sendFails) (closeRound s below) := by
  unfold closeRound
  cases hlast : s.requests.entries.getLast? with
  | none =>
    have hnil : s.requests.entries = [] := List.getLast?_eq_none_iff.mp hlast
    refine .quiet (hi.congr ⟨rfl, rfl, rfl, rfl⟩ (fun o ho => .inl ?_) fun _ => .inl hnil) ⟨id, le_rfl⟩ rfl
    rw [hstack]
    exact ho
  | some e =>
    obtain ⟨cid, o⟩ := e
    have hget : s.requests.get? cid = some o :=
      (Dict.get?_eq_some_iff _ _ _).mpr (List.mem_of_getLast? hlast)
    obtain ⟨r, hr, rfl⟩ := hi.entry cid o hget
    simp only [hr]
    split
    · next h => exact .quiet (inv_drop hi hget hr (by simpa [Option.isSome_iff_ne_none] using h)) ⟨id, le_rfl⟩ rfl
    · next h =>
      have ho : Outstanding s o r := ⟨hr, hget, by simpa using h⟩
      have hnot : ¬ Fired { s with requests := s.requests.erase r.correlationId } o := (hi.unfired o r hr).mpr ho
      simp only [fire, if_neg hnot]
      exact ⟨inv_retire hi ho _, ⟨id, le_rfl⟩, .inr ⟨o, _, rfl, .closed ho⟩⟩

structure SameLoops (s t : State) : Prop extends SameTable s t where
  stack : t.stack = s.stack

theorem sameLoops_closeConnection (s : State) (connects : Bool) (hd : s.dDown ≠ none) :
    SameLoops s (closeConnection s connects) ∧ (closeConnection s connects).dDown ≠ none := by
  have hsome : s.dDown.isSome := by simpa [Option.isSome_iff_ne_none] using hd
  unfold closeConnection
  split
  · exact ⟨⟨⟨rfl, rfl, rfl, rfl⟩, rfl⟩, hd⟩
  · exact ⟨⟨⟨rfl, rfl, rfl, rfl⟩, rfl⟩, by simpa [fireDown] using hd⟩
  · split
    · exact ⟨⟨⟨rfl, rfl, rfl, rfl⟩, rfl⟩, hd⟩
    · simp only
      split
      · unfold cbConnect
        simp only [hsome, if_true]
        exact ⟨⟨⟨rfl, rfl, rfl, rfl⟩, rfl⟩, hd⟩
      · exact ⟨⟨⟨rfl, rfl, rfl, rfl⟩, rfl⟩, by simpa [fireDown] using hd⟩

theorem effect_close {s : State} (hi : Inv s) (connects : Bool) : Effect s (.close connects) (close s connects) := by
  unfold close
  split
  · exact .quiet hi ⟨id, le_rfl⟩ rfl
  · obtain ⟨h, hd⟩ := sameLoops_closeConnection { s with dDown := some 0 } connects (by simp)
    refine .quiet (hi.congr ⟨h.heap, h.nextD, h.requests, h.calls⟩ (fun o ho => .inl ?_) fun _ => .inr rfl)
      ⟨fun _ => hd, h.nextD.ge⟩ h.calls
    rw [queuedBy, h.stack] at ho
    exact ho

theorem effect_cbConnect {s : State} (hi : Inv s) (k : Nat) (pending : List (Nat × Pending)) (hstack : s.stack = []) :
    Effect s (.connectionMade k) (cbConnect { s with pending := pending }) := by
  unfold cbConnect
  simp only
  split
  · exact .same hi ⟨rfl, rfl, rfl, rfl⟩ rfl rfl
  · next hdown =>
    refine .quiet (hi.congr ⟨rfl, rfl, rfl, rfl⟩ (fun o ho => ?_) ?_) ⟨id, le_rfl⟩ rfl
    · simp only [queuedBy, hstack, List.append_nil, Dict.values, List.mem_map] at ho
      obtain ⟨⟨cid, o⟩, hmem, rfl⟩ := ho
      exact .inr ⟨cid, (Dict.get?_eq_some_iff _ _ _).mpr hmem⟩
    · intro hd
      have hnone : s.dDown = none := by simpa using hdown
      exact absurd hnone hd

theorem inv_markUnsent {s : State} (hi : Inv s) (hstack : s.stack = []) : Inv (markUnsent s) := by
  -- A request keeps its id and its cancellation.
  have hget : ∀ o x, (markUnsent s).heap.get? o = some x → ∃ y, s.heap.get? o = some y ∧
    x.correlationId = y.correlationId ∧
      x.cancelled = y.cancelled ∧ (y.cancelled ≠ none → x.sent = y.sent) := by
    intro o x hx
    simp only [markUnsent, Dict.get?_mapValues, Option.map_eq_some_iff] at hx
    obtain ⟨y, hy, rfl⟩ := hx
    refine ⟨y, hy, ?_⟩
    split
    · next hcond => exact ⟨rfl, rfl, fun hne => absurd (by simpa using hcond.2) hne⟩
    · exact ⟨rfl, rfl, fun _ => rfl⟩
  have hnone : ∀ o, (markUnsent s).heap.get? o = none ↔ s.heap.get? o = none := by
    intro o
    simp only [markUnsent, Dict.get?_mapValues, Option.map_eq_none_iff]
  have hsome : ∀ o y, s.heap.get? o = some y → ∃ x, (markUnsent s).heap.get? o = some x ∧
    x.correlationId = y.correlationId := by
    intro o y hy
    obtain ⟨x, hx⟩ := Option.ne_none_iff_exists'.mp (fun h => by simp [(hnone o).mp h] at hy)
    obtain ⟨z, hz, h1, -⟩ := hget o x hx
    rw [hy, Option.some.injEq] at hz
    exact ⟨x, hx, hz ▸ h1⟩
  have htable : ∀ cid o, (markUnsent s).requests.get? cid = some o ↔
      s.requests.get? cid = some o ∧ ∀ y, s.heap.get? o = some y → y.cancelled = none := by
    intro cid o
    simp only [markUnsent, Dict.get?_filter, Option.filter_eq_some_iff, isCancelled]
    refine and_congr_right fun _ => ?_
    cases hy : s.heap.get? o with
    | none => simp
    | some y => simp
  refine ⟨?_, ?_, ?_, hi.once, ?_, ?_, ?_, ?_⟩
  · intro cid o h
    obtain ⟨y, hy, rfl⟩ := hi.entry cid o ((htable cid o).mp h).1
    exact hsome o y hy
  · intro d hd
    exact ⟨(hnone d).mpr (hi.fresh d hd).1, (hi.fresh d hd).2⟩
  · intro d hd h
    exact hi.known d hd ((hnone d).mp h)
  · intro o x hx
    obtain ⟨y, hy, h1, h2, -⟩ := hget o x hx
    refine (hi.unfired o y hy).trans ⟨?_, ?_⟩
    · rintro ⟨-, ht, hc⟩
      refine ⟨hx, ?_, h2 ▸ hc⟩
      rw [h1, htable]
      refine ⟨ht, fun z hz => ?_⟩
      rw [hy, Option.some.injEq] at hz
      exact hz ▸ hc
    · rintro ⟨-, ht, hc⟩
      rw [h1, htable] at ht
      exact ⟨hy, ht.1, h2 ▸ hc⟩
  · intro o x hx hne
    obtain ⟨y, hy, -, h2, h3⟩ := hget o x hx
    rw [h3 (h2 ▸ hne)]
    exact hi.sent o y hy (h2 ▸ hne)
  · intro o ho
    simp [markUnsent, hstack, queuedBy] at ho
  · intro hd
    have hnil := (hi.closing hd).resolve_right (by simp [hstack])
    left
    simp [markUnsent, Dict.filter, hnil]

theorem effect_connectionLost {s : State} (hi : Inv s) (c : Nat) (live : List Nat) (hstack : s.stack = []) :
    Effect s (.connectionLost c) (connectionLost { s with live := live }) := by
  have hlive : Inv { s with live := live, proto := none } :=
    hi.congr ⟨rfl, rfl, rfl, rfl⟩ (fun _ h => .inl h) hi.closing
  have h := inv_markUnsent hlive hstack
  unfold connectionLost
  simp only
  split
  · next hdown =>
    refine .quiet (h.congr ⟨rfl, rfl, rfl, rfl⟩ (fun o ho => .inl ho) fun _ => h.closing ?_) ?_ rfl
    · simpa [markUnsent, Option.isSome_iff_ne_none] using hdown
    · exact ⟨by simp [fireDown, markUnsent], le_rfl⟩
  · split
    · exact .quiet h ⟨id, le_rfl⟩ rfl
    · exact .quiet (h.congr ⟨rfl, rfl, rfl, rfl⟩ (fun o ho => .inl ho) h.closing) ⟨id, le_rfl⟩ rfl

theorem step_effect {s t : State} {e : Event} (hi : Inv s) (hu : UniqueIds s e) (h : step s e = some t) :
    Effect s e t := by
  cases takes_of_step h with
  | advance => exact .same hi ⟨rfl, rfl, rfl, rfl⟩ rfl rfl
  | makeRequest cid request expectResponse sendFails =>
    exact effect_makeRequest hi cid request expectResponse sendFails hu
  | cancel d hd => exact effect_cancel hi d
  | disconnect =>
    unfold disconnect
    split
    · exact .same hi ⟨rfl, rfl, rfl, rfl⟩ rfl rfl
    · exact .quiet hi ⟨id, le_rfl⟩ rfl
  | close connects => exact effect_close hi connects
  | connectionMade k hstack hk => exact effect_cbConnect hi k _ hstack
  | connectFailed k hstack hk =>
    unfold ebConnect
    split <;> exact .same hi ⟨rfl, rfl, rfl, rfl⟩ rfl rfl
  | delayElapsed => exact .same hi ⟨rfl, rfl, rfl, rfl⟩ rfl rfl
  | connectionLost c hstack hc => exact effect_connectionLost hi c _ hstack
  | stringReceived c response hstack hc => exact effect_handleResponse hi hc hstack response
  | flushed sendFails below hstack =>
    refine .quiet (hi.congr ⟨rfl, rfl, rfl, rfl⟩ (fun o ho => .inl ?_) fun hd => .inl ?_) ⟨id, le_rfl⟩ rfl
    · rw [hstack]
      exact ho
    · exact (hi.closing hd).resolve_right (by simp [hstack])
  | flush sendFails o rest below hstack => exact effect_flushRound hi hstack sendFails
  | closing sendFails below hstack => exact effect_closeRound hi hstack sendFails

theorem inv_init : Inv init where
  entry _ _ h := by simp [init] at h
  fresh d _ := by simp [init, Fired]
  known _ h := by simp [init] at h
  once := by simp [init]
  unfired _ _ h := by simp [init] at h
  sent _ _ h := by simp [init] at h
  queued _ h := by simp [init, queuedBy] at h
  closing h := by simp [init] at h

/-! ## Closing -/

theorem closeRound_next {s : State} (hi : Inv s) (below : List Frame)
    {l : List (Int × Nat)} {cid : Int} {o : Nat} (hl : s.requests.entries = l ++ [(cid, o)]) :
    ∃ t, closeRound s below = t ∧ t.stack = s.stack ∧ t.heap = s.heap ∧ t.requests.entries = l ∧
      ∀ x, (x ∈ t.calls ↔ x ∈ s.calls ∨ x = (o, .failed .clientError) ∧ ¬ Fired s o) := by
  have hlast : s.requests.entries.getLast? = some (cid, o) := by rw [hl]; simp
  have hget : s.requests.get? cid = some o := (Dict.get?_eq_some_iff _ _ _).mpr (by simp [hl])
  obtain ⟨r, hr, rfl⟩ := hi.entry cid o hget
  have herase := Dict.entries_erase_last _ _ _ _ hl
  have hun := hi.unfired o r hr
  refine ⟨_, rfl, ?_⟩
  unfold closeRound
  simp only [hlast, hr]
  split
  · next h =>
    refine ⟨rfl, rfl, herase, fun x => ?_⟩
    have hf : Fired s o := by
      by_contra hnf
      have := (hun.mp hnf).2.2
      simp [this] at h
    simp [hf]
  · next h =>
    have ho : ¬ Fired s o := hun.mpr ⟨hr, hget, by simpa using h⟩
    have ho' : ¬ Fired { s with requests := s.requests.erase r.correlationId } o := ho
    simp only [fire, if_neg ho']
    refine ⟨trivial, trivial, herase, fun x => ?_⟩
    simp [ho]

/-- The loop of `close`, left alone, fails what is unfired and empties the table. -/
theorem close_run (n : Nat) (s : State) (hi : Inv s) (below : List Frame) (hstack : s.stack = .close :: below)
    (hlen : s.requests.entries.length = n) :
    ∃ t, Machine.run step s (List.replicate (n + 1) (.resume none)) = some t ∧ t.stack = below ∧
      t.requests.entries = [] ∧ (∀ x ∈ s.calls, x ∈ t.calls) ∧
      ∀ o r, Outstanding s o r → (o, .failed .clientError) ∈ t.calls := by
  induction n generalizing s with
  | zero =>
    have hnil : s.requests.entries = [] := List.eq_nil_of_length_eq_zero hlen
    refine ⟨{ s with stack := below }, ?_, rfl, hnil, fun _ h => h, ?_⟩
    · simp [Machine.run_cons, step, hstack, closeRound, hnil]
    · rintro o r ⟨-, ht, -⟩
      rw [Dict.get?_eq_some_iff, hnil] at ht
      cases ht
  | succ n ih =>
    obtain ⟨l, ⟨cid, o⟩, hl⟩ : ∃ l e, s.requests.entries = l ++ [e] := by
      rcases List.eq_nil_or_concat s.requests.entries with h | ⟨l, e, h⟩
      · simp [h] at hlen
      · exact ⟨l, e, by simpa using h⟩
    obtain ⟨t, ht, htstack, htheap, htreq, htcalls⟩ := closeRound_next hi below hl
    have hstep : step s (.resume none) = some t := by simp [step, hstack, ht]
    have hit := (step_effect (e := .resume none) hi trivial hstep).inv
    obtain ⟨u, hrun, hustack, hureq, hsub, hout⟩ := ih t hit (by rw [htstack, hstack]) (by
      rw [htreq]
      simpa [hl] using hlen)
    refine ⟨u, ?_, hustack, hureq, fun x hx => hsub x ((htcalls x).mpr (.inl hx)), ?_⟩
    · rw [List.replicate_succ, Machine.run_cons, hstep]
      exact hrun
    · intro d r hd
      have hheap : t.heap.get? d = some r := by rw [htheap]; exact hd.1
      by_cases hf : Fired t d
      · -- Only this round can have fired it.
        obtain ⟨⟨d', out⟩, hmem, rfl⟩ := List.mem_map.mp hf
        rcases (htcalls _).mp hmem with h | ⟨h, -⟩
        · exact absurd (List.mem_map_of_mem h) ((hi.unfired _ r hd.1).mpr hd)
        · rw [h] at hmem
          rw [h]
          exact hsub _ hmem
      · exact hout d r ((hit.unfired d r hheap).mp hf)

/-- After `close`, an outstanding `Deferred` fails with `ClientError`, or is cancelled before its turn. -/
structure Closing (d : Nat) (s : State) : Prop where
  inv : Inv s
  down : s.dDown ≠ none
  waits : (∃ r, Outstanding s d r) ∨ (d, .failed .clientError) ∈ s.calls ∨ (d, .failed .tidCancelled) ∈ s.calls

theorem not_outstanding_of_empty {s : State} (h : s.requests.entries = []) (d : Nat) (r : RequestState) :
    ¬ Outstanding s d r := by
  rintro ⟨-, ht, -⟩
  rw [Dict.get?_eq_some_iff, h] at ht
  cases ht

theorem Closing.step {d : Nat} {s t : State} {e : Event} (h : Closing d s) (hu : UniqueIds s e)
    (hstep : step s e = some t) : Closing d t := by
  obtain ⟨hinv, hlater, hcalls⟩ := step_effect h.inv hu hstep
  refine ⟨hinv, hlater.down h.down, ?_⟩
  have hempty : s.stack.head? ≠ some .close → s.requests.entries = [] :=
    (h.inv.closing h.down).resolve_right
  have hsub : ∀ x ∈ s.calls, x ∈ t.calls := by
    rcases hcalls with hc | ⟨d', out, hc, -⟩
    · rw [hc]
      exact fun _ hx => hx
    · rw [hc]
      exact fun x hx => List.mem_append_left _ hx
  rcases h.waits with ⟨r, ho⟩ | hdone | hdone
  · have hnot : ¬ Fired s d := (h.inv.unfired d r ho.1).mpr ho
    have hlt : d < s.nextD := lt_nextD h.inv ho.1
    have hwait : ¬ Fired t d → ∃ r', Outstanding t d r' := by
      intro hf
      cases hheap : t.heap.get? d with
      | none => exact absurd (hinv.known d (hlt.trans_le hlater.nextD) hheap) hf
      | some r' => exact ⟨r', (hinv.unfired d r' hheap).mp hf⟩
    rcases hcalls with hc | ⟨d', out, hc, hfires⟩
    · exact .inl (hwait fun hf => hnot ((fired_congr hc d).mp hf))
    · by_cases hd : d' = d
      · subst hd
        have hmem : (d', out) ∈ t.calls := by simp [hc]
        cases hfires with
        | refused hnew => exact absurd hnew hlt.ne
        | sentAtOnce hnew => exact absurd hnew hlt.ne
        | flushed ho' hstack => exact absurd ho (not_outstanding_of_empty (hempty hstack) _ _)
        | closed => exact .inr (.inl hmem)
        | cancelled => exact .inr (.inr hmem)
        | answered _ hstack => exact absurd ho (not_outstanding_of_empty (hempty (by simp [hstack])) _ _)
      · refine .inl (hwait fun hf => ?_)
        unfold Fired at hf
        rw [hc, fired_append] at hf
        rcases hf with hf | hf
        · exact hnot hf
        · exact hd hf.symm
  · exact .inr (.inl (hsub _ hdone))
  · exact .inr (.inr (hsub _ hdone))

/-! ## The table is sound -/

theorem getResponseCorrelationId_ok (response : Bytes) (cid : Int)
    (h : getResponseCorrelationId response = .ok cid) :
    4 ≤ response.length ∧ Fmt.i.read (response.take 4) = cid := by
  unfold getResponseCorrelationId relativeUnpack at h
  simp only [calcsize, Fmt.size, List.map_cons, List.map_nil, List.sum_cons, List.sum_nil] at h
  split at h
  · cases h
  · next hlen =>
    have hlen : 4 ≤ response.length := by
      push_cast at hlen
      omega
    have hslice : slice response 0 (0 + ((4 + 0 : Nat) : Int)) = response.take 4 := by
      simp [slice, clampIndex, Nat.min_eq_left hlen]
    rw [hslice, unpack, if_pos (by simp [calcsize, Fmt.size, hlen])] at h
    simp only [unpackBytes, ok_bind, pure_ok, Except.ok.injEq, Fmt.size] at h
    refine ⟨hlen, ?_⟩
    rw [← h, List.take_take]
    rfl

/-- What holds of every state that is reached, and of every step from it. -/
structure Sound (s : State) : Prop where
  once : (s.calls.map Prod.fst).Nodup
  unfired_iff : ∀ d < s.nextD, ¬ Fired s d ↔ ∃ r, Outstanding s d r
  /-- A response comes to the request whose id it carries, while that is outstanding. -/
  success : ∀ e t, UniqueIds s e → step s e = some t → ∀ d response, (d, .success (some response)) ∈ t.calls →
    (d, .success (some response)) ∈ s.calls ∨
      ∃ c r, e = .stringReceived c response ∧ c ∈ s.live ∧ Outstanding s d r ∧ 4 ≤ response.length ∧
        Fmt.i.read (response.take 4) = r.correlationId
  successNone : ∀ e t, UniqueIds s e → step s e = some t → ∀ d, (d, .success none) ∈ t.calls →
    (d, .success none) ∈ s.calls ∨
      ((∃ r, t.heap.get? d = some r ∧ r.expectResponse = false) ∧ ∃ c, (c, d) ∈ t.written)
  /-- A response to a cancelled or an unknown request fires nothing. -/
  ignored : ∀ c response t, step s (.stringReceived c response) = some t →
    (∀ o r, s.heap.get? o = some r → Fmt.i.read (response.take 4) = r.correlationId → ¬ Outstanding s o r) →
    t.calls = s.calls
  close : s.dDown = none → ∀ connects, ∃ t,
    Machine.run step s (.close connects :: List.replicate (s.requests.entries.length + 1) (.resume none)) = some t ∧
      t.stack = s.stack ∧ t.requests.entries = [] ∧
      ∀ d < s.nextD, ¬ Fired s d → (d, .failed .clientError) ∈ t.calls
  /-- `close`, whatever the callbacks do until its loop has ended. -/
  closeAmid : s.dDown = none → ∀ connects es t, Machine.run step s (.close connects :: es) = some t →
    Machine.RunOk step UniqueIds s (.close connects :: es) → .close ∉ t.stack →
      t.requests.entries = [] ∧ ∀ d < s.nextD, ¬ Fired s d →
        (d, .failed .clientError) ∈ t.calls ∨ (d, .failed .tidCancelled) ∈ t.calls

theorem Inv.outstanding {s : State} (hi : Inv s) {d : Nat} (hd : d < s.nextD) :
    ¬ Fired s d ↔ ∃ r, Outstanding s d r := by
  constructor
  · intro hf
    cases hheap : s.heap.get? d with
    | none => exact absurd (hi.known d hd hheap) hf
    | some r => exact ⟨r, (hi.unfired d r hheap).mp hf⟩
  · rintro ⟨r, ho⟩
    exact (hi.unfired d r ho.1).mpr ho

theorem new_call {s t : State} {e : Event} (hi : Inv s) (hu : UniqueIds s e) (hstep : step s e = some t) {d : Nat}
    {out : Outcome} (hmem : (d, out) ∈ t.calls) : (d, out) ∈ s.calls ∨ Fires s t d e out := by
  rcases (step_effect hi hu hstep).calls with hc | ⟨d', out', hc, hfires⟩
  · exact .inl (hc ▸ hmem)
  · rw [hc, List.mem_append, List.mem_singleton, Prod.mk.injEq] at hmem
    rcases hmem with hmem | ⟨rfl, rfl⟩
    · exact .inl hmem
    · exact .inr hfires

theorem step_close {s : State} (hdown : s.dDown = none) (connects : Bool) :
    ∃ t, step s (.close connects) = some t ∧ t.stack = .close :: s.stack ∧ SameTable s t ∧ t.dDown ≠ none := by
  obtain ⟨h, hd⟩ := sameLoops_closeConnection { s with dDown := some 0 } connects (by simp)
  refine ⟨_, rfl, ?_⟩
  unfold close
  rw [if_neg (by simp [hdown])]
  exact ⟨by simp [h.stack], ⟨h.heap, h.nextD, h.requests, h.calls⟩, hd⟩

theorem sound_of_inv {s : State} (hi : Inv s) : Sound s where
  once := hi.once
  unfired_iff _ hd := hi.outstanding hd
  success e t hu hstep d response hmem := by
    refine (new_call hi hu hstep hmem).imp_right fun hfires => ?_
    cases hfires with
    | sentAtOnce _ hs => rcases hs with ⟨e, he⟩ | ⟨he, -⟩ <;> cases he
    | flushed _ _ hs => rcases hs with ⟨e, he⟩ | ⟨he, -⟩ <;> cases he
    | answered hlive _ ho hid =>
      obtain ⟨hlen, hread⟩ := getResponseCorrelationId_ok _ _ hid
      exact ⟨_, _, rfl, hlive, ho, hlen, hread⟩
  successNone e t hu hstep d hmem := by
    refine (new_call hi hu hstep hmem).imp_right fun hfires => ?_
    have hsends : ∀ out, out = .success none → Sends t d out →
        (∃ r, t.heap.get? d = some r ∧ r.expectResponse = false) ∧ ∃ c, (c, d) ∈ t.written := by
      rintro _ rfl (⟨e, he⟩ | ⟨-, h⟩)
      · cases he
      · exact h
    cases hfires with
    | sentAtOnce _ hs => exact hsends _ rfl hs
    | flushed _ _ hs => exact hsends _ rfl hs
  ignored c response t hstep hout := by
    rcases (step_effect (e := .stringReceived c response) hi trivial hstep).calls with hc | ⟨d, out, -, hfires⟩
    · exact hc
    · cases hfires with
      | answered _ _ ho hid => exact absurd ho (hout _ _ ho.1 (getResponseCorrelationId_ok _ _ hid).2)
  close hdown connects := by
    obtain ⟨t, hstep, hstack, hsame, -⟩ := step_close hdown connects
    have hit := (step_effect (e := .close connects) hi trivial hstep).inv
    obtain ⟨u, hrun, hustack, hureq, -, hout⟩ := close_run _ t hit s.stack hstack rfl
    refine ⟨u, ?_, hustack, hureq, fun d hd hf => ?_⟩
    · rw [Machine.run_cons, hstep, ← hsame.requests]
      exact hrun
    · obtain ⟨r, ho⟩ := (hi.outstanding hd).mp hf
      exact hout d r ((outstanding_congr hsame d r).mpr ho)
  closeAmid hdown connects es t hrun hok hgone := by
    obtain ⟨u, hstep, -, hsame, hud⟩ := step_close hdown connects
    rw [Machine.run_cons, hstep] at hrun
    have hiu := (step_effect (e := .close connects) hi trivial hstep).inv
    have hok := hok.2 u hstep
    have hstart : Inv u ∧ u.dDown ≠ none := ⟨hiu, hud⟩
    obtain ⟨hit, htd⟩ := Machine.run_invariant step UniqueIds (fun x => Inv x ∧ x.dDown ≠ none)
      (fun x e y hx hue hxy =>
        have heff := step_effect hx.1 hue hxy
        ⟨heff.inv, heff.later.down hx.2⟩) es u t hstart hok hrun
    have hempty : t.requests.entries = [] := by
      refine (hit.closing htd).resolve_right fun hhead => hgone ?_
      exact List.mem_of_head? hhead
    refine ⟨hempty, fun d hd hf => ?_⟩
    obtain ⟨r, ho⟩ := (hi.outstanding hd).mp hf
    have hclosing : Closing d u := ⟨hiu, hud, .inl ⟨r, (outstanding_congr hsame d r).mpr ho⟩⟩
    have hend := Machine.run_invariant step UniqueIds (Closing d) (fun x e y hx hue hxy => hx.step hue hxy) es u t
      hclosing hok hrun
    refine hend.waits.resolve_left ?_
    rintro ⟨r', ho'⟩
    exact not_outstanding_of_empty hempty d r' ho'

/-- Over every interleaving, also of the calls that callbacks make while a loop is running. -/
theorem requestTable_sound (es : List Event) (s : State) (hok : Machine.RunOk step UniqueIds init es)
    (hrun : Machine.run step init es = some s) : Sound s :=
  sound_of_inv (Machine.run_invariant step UniqueIds Inv
    (fun _ _ _ hi hu hstep => (step_effect hi hu hstep).inv) es init s inv_init hok hrun)

/-- Two requests wait for a connection; the flush writes both, and the first one is answered. -/
def answeredRun : List Event :=
  [.makeRequest 1 [7] true none, .makeRequest 2 [8] false none, .connectionMade 0, .resume none, .resume none,
    .resume none, .stringReceived 0 [0, 0, 0, 1, 9]]

theorem answeredRun_sound : ∃ s, Machine.run step init answeredRun = some s ∧
    s.calls = [(1, .success none), (0, .success (some [0, 0, 0, 1, 9]))] ∧ Sound s :=
  ⟨_, rfl, by decide, requestTable_sound answeredRun _ (by decide) rfl⟩

end Afkak.BrokerClient
