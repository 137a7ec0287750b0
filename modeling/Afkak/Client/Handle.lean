import Afkak.Client.Metadata
import Afkak.Client.Produce

/-!
# Handling responses (`_handle_responses`)

The error of a response is raised, and two groups of exceptions are caught: those that call for new topic metadata and
those that call for a new coordinator. With `fail_on_error=False` a caught error is only cleared and the response goes on
to the caller. The error of a response outside the two groups is not caught at all, and `reset_consumer_group_metadata`
takes no `None` for a group, so such a response still ends the call.
-/

open Lib

namespace Afkak.Client

/-! ## The method -/

/-- `reset_consumer_group_metadata(group)`: `_coerce_consumer_group` takes no `None`. -/
def resetConsumerGroupMetadata (s : State) (group : Option String) : State × Option Exc :=
  match group with
  | none => (s, some .typeError)
  | some group => ({ s with groupToCoordinator := s.groupToCoordinator.erase group }, none)

section Method

variable {ρ β : Type} (error : ρ → Int) (topic : ρ → String)

def checkResponse (s : State) (failOnError : Bool) (consumerGroup : Option String) (resp : ρ) :
    State × Except Exc Unit :=
  match raiseForErrno (error resp) with
  | .ok () => (s, .ok ())
  | .error e =>
    if error resp = 3 ∨ error resp = 6 then
      match resetTopicMetadata s [topic resp] with
      | (s, some e) => (s, .error e)
      | (s, none) => (s, if failOnError then .error e else .ok ())
    else if error resp = 14 ∨ error resp = 15 ∨ error resp = 16 then
      match resetConsumerGroupMetadata s consumerGroup with
      | (s, some e) => (s, .error e)
      | (s, none) => (s, if failOnError then .error e else .ok ())
    else (s, .error e)

/-- `_handle_responses`; `entry` is the callback, or gives the response itself where there is none. -/
def handleAll (entry : ρ → Except Exc β) (failOnError : Bool) (consumerGroup : Option String) :
    State → List ρ → State × Except Exc (List β)
  | s, [] => (s, .ok [])
  | s, resp :: responses =>
    match checkResponse error topic s failOnError consumerGroup resp with
    | (s, .error e) => (s, .error e)
    | (s, .ok ()) =>
      match entry resp with
      | .error e => (s, .error e)
      | .ok b =>
        match handleAll entry failOnError consumerGroup s responses with
        | (s, .ok out) => (s, .ok (b :: out))
        | (s, .error e) => (s, .error e)

theorem handleResponses_eq (s : State) (failOnError : Bool) (responses : List ProduceResponse) :
    handleResponses s failOnError responses =
      handleAll ProduceResponse.error ProduceResponse.topic .ok failOnError none s responses := by
  induction responses generalizing s with
  | nil => rfl
  | cons resp responses ih =>
    rw [handleResponses, handleAll, checkResponse]
    cases raiseForErrno resp.error with
    | ok =>
      dsimp only
      rw [ih]
      rcases handleAll ProduceResponse.error ProduceResponse.topic .ok failOnError none s responses
        with ⟨t, _ | out⟩ <;> rfl
    | error e =>
      dsimp only
      by_cases htopic : resp.error = 3 ∨ resp.error = 6
      · rw [if_pos htopic, if_pos htopic]
        rcases resetTopicMetadata s [resp.topic] with ⟨t, _ | e'⟩
        · cases failOnError
          · simp only [Bool.false_eq_true, if_false]
            rw [ih]
            rcases handleAll ProduceResponse.error ProduceResponse.topic .ok false none t responses
              with ⟨u, _ | out⟩ <;> rfl
          · rfl
        · rfl
      · rw [if_neg htopic, if_neg htopic]
        by_cases hgroup : resp.error = 14 ∨ resp.error = 15 ∨ resp.error = 16
        · rw [if_pos hgroup, if_pos hgroup]
          rfl
        · rw [if_neg hgroup, if_neg hgroup]

/-! ## What `fail_on_error=False` does -/

def Handled (consumerGroup : Option String) (resp : ρ) : Prop :=
  error resp = 0 ∨ ((error resp = 3 ∨ error resp = 6) ∧ 1 ≤ (topic resp).length ∧ (topic resp).length ≤ 249) ∨
    ((error resp = 14 ∨ error resp = 15 ∨ error resp = 16) ∧ consumerGroup.isSome)

def Stale (resp : ρ) : Prop := error resp = 3 ∨ error resp = 6

instance (resp : ρ) : Decidable (Stale error resp) := inferInstanceAs (Decidable (_ ∨ _))

def cleared (consumerGroup : Option String) (s : State) (resp : ρ) : State :=
  if Stale error resp then resetTopic s (topic resp)
  else if error resp = 14 ∨ error resp = 15 ∨ error resp = 16 then (resetConsumerGroupMetadata s consumerGroup).1
  else s

variable {error topic}

theorem checkResponse_handled {consumerGroup : Option String} {resp : ρ} (h : Handled error topic consumerGroup resp)
    (s : State) : checkResponse error topic s false consumerGroup resp =
    (cleared error topic consumerGroup s resp, .ok ()) := by
  unfold checkResponse cleared
  rcases h with h | ⟨h, hlen⟩ | ⟨h, hgroup⟩
  · simp [h, raiseForErrno, Stale]
  · have hne : error resp ≠ 0 := by omega
    rw [raiseForErrno, if_neg hne]
    dsimp only
    rw [if_pos h, if_pos (show Stale error resp from h), resetTopicMetadata_single hlen]
    rfl
  · have hne : error resp ≠ 0 := by omega
    have htopic : ¬ (error resp = 3 ∨ error resp = 6) := by omega
    obtain ⟨group, rfl⟩ := Option.isSome_iff_exists.mp hgroup
    rw [raiseForErrno, if_neg hne]
    dsimp only
    rw [if_neg htopic, if_pos h, if_neg (show ¬ Stale error resp from htopic), if_pos h]
    rfl

theorem checkResponse_unhandled {consumerGroup : Option String} {resp : ρ}
    (h : ¬ Handled error topic consumerGroup resp) (s : State) :
    ∃ t e, checkResponse error topic s false consumerGroup resp = (t, .error e) := by
  unfold Handled at h
  simp only [not_or, not_and] at h
  obtain ⟨hne, htopic, hgroup⟩ := h
  unfold checkResponse
  rw [raiseForErrno, if_neg hne]
  dsimp only
  by_cases ht : error resp = 3 ∨ error resp = 6
  · have hraise : ∃ e, resetTopicMetadata s [topic resp] = (s, some e) := by
      have hbad : ¬ (1 ≤ (topic resp).length ∧ (topic resp).length ≤ 249) := fun hlen => htopic ht hlen.1 hlen.2
      have hmap : [topic resp].mapM coerceTopic = .error .valueError := by
        simp only [List.mapM_cons, List.mapM_nil, coerceTopic, if_neg hbad]
        rfl
      exact ⟨_, by rw [resetTopicMetadata, hmap]⟩
    obtain ⟨e, he⟩ := hraise
    rw [if_pos ht, he]
    exact ⟨s, e, rfl⟩
  · rw [if_neg ht]
    by_cases hg : error resp = 14 ∨ error resp = 15 ∨ error resp = 16
    · have hnone : consumerGroup = none := by
        cases consumerGroup with
        | none => rfl
        | some group => exact absurd rfl (hgroup hg)
      rw [if_pos hg, hnone]
      exact ⟨s, .typeError, rfl⟩
    · rw [if_neg hg]
      exact ⟨s, _, rfl⟩

theorem handleAll_handled (value : ρ → β) {consumerGroup : Option String} {responses : List ρ}
    (h : ∀ resp ∈ responses, Handled error topic consumerGroup resp) (s : State) :
    handleAll error topic (fun resp => .ok (value resp)) false consumerGroup s responses =
      (responses.foldl (cleared error topic consumerGroup) s, .ok (responses.map value)) := by
  induction responses generalizing s with
  | nil => rfl
  | cons resp responses ih =>
    rw [handleAll, checkResponse_handled (h resp List.mem_cons_self)]
    dsimp only
    rw [ih fun r hr => h r (List.mem_cons_of_mem _ hr)]
    rfl

theorem handleAll_unhandled (value : ρ → β) {consumerGroup : Option String} {responses : List ρ}
    (h : ∃ resp ∈ responses, ¬ Handled error topic consumerGroup resp) (s : State) :
    ∃ e, (handleAll error topic (fun resp => .ok (value resp)) false consumerGroup s responses).2 = .error e := by
  induction responses generalizing s with
  | nil =>
    obtain ⟨resp, hmem, -⟩ := h
    cases hmem
  | cons resp responses ih =>
    rw [handleAll]
    by_cases hresp : Handled error topic consumerGroup resp
    · obtain ⟨r, hr, hbad⟩ := h
      have hrest : ∃ r ∈ responses, ¬ Handled error topic consumerGroup r := by
        rcases List.mem_cons.mp hr with rfl | hr
        · exact absurd hresp hbad
        · exact ⟨r, hr, hbad⟩
      rw [checkResponse_handled hresp]
      dsimp only
      obtain ⟨e, he⟩ := ih hrest (cleared error topic consumerGroup s resp)
      revert he
      rcases handleAll error topic (fun resp => .ok (value resp)) false consumerGroup
        (cleared error topic consumerGroup s resp) responses with ⟨t, _ | out⟩
      · exact fun he => ⟨_, rfl⟩
      · intro he
        cases he
    · obtain ⟨t, e, he⟩ := checkResponse_unhandled hresp s
      rw [he]
      exact ⟨e, rfl⟩

structure Clears (s t : State) (topics : List String) : Prop where
  partitions : ∀ a, t.topicPartitions.get? a = if a ∈ topics then none else s.topicPartitions.get? a
  errors : ∀ a, t.topicErrors.get? a = if a ∈ topics then none else s.topicErrors.get? a
  leaders : ∀ tp : TopicAndPartition, t.topicsToBrokers.get? tp =
    if tp.topic ∈ topics ∧ tp.partition ∈ (s.topicPartitions.get? tp.topic).getD [] then none
    else s.topicsToBrokers.get? tp

theorem clears_nil (s : State) : Clears s s [] := ⟨by simp, by simp, by simp⟩

theorem clears_resetTopic {s t : State} {topic : String} {topics : List String}
    (h : Clears (resetTopic s topic) t topics) :
    Clears s t (topic :: topics) where
  partitions a := by
    rw [h.partitions, resetTopic_partitions]
    by_cases ha : a = topic <;> simp [ha]
  errors a := by
    rw [h.errors, resetTopic_errors]
    by_cases ha : a = topic <;> simp [ha]
  leaders tp := by
    rw [h.leaders, resetTopic_partitions, resetTopic_leaders]
    by_cases ha : tp.topic = topic <;> simp [ha]

theorem Clears.of_group {s t : State} {topics : List String} (group : Option String)
    (h : Clears (resetConsumerGroupMetadata s group).1 t topics) : Clears s t topics := by
  cases group with
  | none => exact h
  | some group => exact ⟨h.partitions, h.errors, h.leaders⟩

theorem clears_cleared (consumerGroup : Option String) (responses : List ρ) (s : State) :
    Clears s (responses.foldl (cleared error topic consumerGroup) s)
      ((responses.filter fun resp => Stale error resp).map topic) := by
  induction responses generalizing s with
  | nil => exact clears_nil s
  | cons resp responses ih =>
    have hrest := ih (cleared error topic consumerGroup s resp)
    rw [List.foldl_cons]
    generalize responses.foldl (cleared error topic consumerGroup) (cleared error topic consumerGroup s resp) =
      t at hrest
    unfold cleared at hrest
    by_cases hstale : Stale error resp
    · rw [if_pos hstale] at hrest
      rw [List.filter_cons_of_pos (by simpa using hstale)]
      exact clears_resetTopic hrest
    · rw [if_neg hstale] at hrest
      rw [List.filter_cons_of_neg (by simpa using hstale)]
      split at hrest
      · exact hrest.of_group
      · exact hrest

/-- Nothing is raised, there is one entry for each response, and the metadata of the stale topics is cleared. -/
structure Honoured (error : ρ → Int) (topic : ρ → String) (value : ρ → β) (s : State) (responses : List ρ)
    (result : State × Except Exc (List β)) : Prop where
  returns : result.2 = .ok (responses.map value)
  clears : Clears s result.1 ((responses.filter fun resp => Stale error resp).map topic)

end Method

/-- `fail_on_error=False` is honoured exactly when every error is one that is caught, and its cache can be reset. A produce
request that all brokers answered then returns their responses, and otherwise raises. -/
theorem failOnError_honoured_iff {ρ β : Type} (error : ρ → Int) (topic : ρ → String) (value : ρ → β)
    (consumerGroup : Option String) (s : State) (responses : List ρ) :
    (Honoured error topic value s responses
        (handleAll error topic (fun resp => .ok (value resp)) false consumerGroup s responses) ↔
      ∀ resp ∈ responses, Handled error topic consumerGroup resp) ∧
    ∀ (c : Codec) (call : ProduceCall) (w : Surroundings)
      (reply : BrokerMetadata → List ProduceRequest → Reply ProduceResponse) (t : State)
      (payloads : List ProduceRequest)
      (acknowledged : List ProduceResponse), call.failOnError = false →
      sendBrokerAwareRequest ProduceRequest.topicPart ProduceResponse.topicPart
      (produceNetwork c call w reply) s payloads
        (call.acks ≠ 0) none = (t, .returned acknowledged) →
      ((sendProduceRequest c call w reply s payloads).2 = .ok acknowledged ↔
        ∀ resp ∈ acknowledged, Handled ProduceResponse.error ProduceResponse.topic none resp) := by
  have hiff (ρ β : Type) (error : ρ → Int) (topic : ρ → String) (value : ρ → β)
      (consumerGroup : Option String) (s : State) (responses : List ρ) :
      (handleAll error topic (fun resp => .ok (value resp)) false consumerGroup s responses).2 =
        .ok (responses.map value) ↔ ∀ resp ∈ responses, Handled error topic consumerGroup resp := by
    constructor
    · intro hok
      by_contra hbad
      simp only [not_forall, exists_prop] at hbad
      obtain ⟨e, he⟩ := handleAll_unhandled value hbad s
      rw [he] at hok
      cases hok
    · intro h
      rw [handleAll_handled value h]
  refine ⟨⟨fun h => (hiff ..).mp h.returns, fun h => ?_⟩, fun c call w reply t payloads acknowledged hfail hsend => ?_⟩
  · refine ⟨(hiff ..).mpr h, ?_⟩
    rw [handleAll_handled value h]
    exact clears_cleared consumerGroup responses s
  · rw [sendProduceRequest, hsend]
    dsimp only
    rw [hfail, handleResponses_eq]
    have hproduce :=
      hiff ProduceResponse ProduceResponse ProduceResponse.error ProduceResponse.topic id none t acknowledged
    rwa [List.map_id] at hproduce

def halfAcknowledged : List ProduceResponse := [⟨"t", 0, 0, 5⟩, ⟨"t", 1, 7, -1⟩]

theorem halfAcknowledged_raises :
    ¬ Honoured ProduceResponse.error ProduceResponse.topic id {} halfAcknowledged
      (handleAll ProduceResponse.error ProduceResponse.topic
      (fun resp => .ok (id resp)) false none {} halfAcknowledged) := by
  intro h
  have hret := h.returns
  simp [handleAll, checkResponse, halfAcknowledged, raiseForErrno] at hret

def halfMoved : List ProduceResponse := [⟨"t", 0, 0, 5⟩, ⟨"t", 1, 6, -1⟩]

def twoPartitions : List ProduceRequest :=
  [⟨"t", 0, [createMessage (some [97]) none]⟩, ⟨"t", 1, [createMessage (some [98]) none]⟩]

def answerMoved (_ : BrokerMetadata) (_ : List ProduceRequest) : Reply ProduceResponse := .answered (.ok halfMoved)

def patientAck : ProduceCall := { oneAck with failOnError := false }

theorem halfMoved_honoured : (∀ resp ∈ halfMoved, Handled ProduceResponse.error ProduceResponse.topic none resp) ∧
    Honoured ProduceResponse.error ProduceResponse.topic id {} halfMoved
      (handleAll ProduceResponse.error ProduceResponse.topic (fun resp => .ok (id resp)) false none {} halfMoved) ∧
    (sendProduceRequest hiCodec patientAck oneLeader answerMoved {} twoPartitions).2 = .ok halfMoved := by
  have hall : ∀ resp ∈ halfMoved, Handled ProduceResponse.error ProduceResponse.topic none resp := by
    simp only [halfMoved, Handled, List.forall_mem_cons, List.not_mem_nil, false_implies, implies_true, and_true]
    decide
  obtain ⟨hiff, hproduce⟩ := failOnError_honoured_iff ProduceResponse.error ProduceResponse.topic id none {} halfMoved
  exact ⟨hall, hiff.mpr hall,
    (hproduce hiCodec patientAck oneLeader answerMoved {} twoPartitions halfMoved rfl rfl).mpr hall⟩

end Afkak.Client
