import Afkak.ConsumerProtocol

/-!
# What group members send each other

Subscriptions and assignments are read back as they were written, whatever comes after them, and data that ends early
is not read at all. The only limits are those of the fields: an encoder raises where a length, a count or a number does
not fit its field, and a topic name in an assignment has to be ASCII.
-/

open Lib

namespace Afkak

/-- What `encode` gives is read back as `a` in front of any bytes, and is an underflow when it is cut. -/
def RoundTrips {α : Type} (encode : Except Exc Bytes) (decode : Option Bytes → Except Exc α) (a : α) : Prop :=
  ∃ b, encode = .ok b ∧ (∀ junk, decode (some (b ++ junk)) = .ok a) ∧
    ∀ c, c <+: b → c ≠ b → decode (some c) = .error .bufferUnderflow

theorem roundTrips_of_parses {α : Type} {p : Read α} {bs : Bytes} {a : α} (h : Parses .bufferUnderflow p bs a) :
    RoundTrips (.ok bs) (decodeWith p) a := by
  refine ⟨bs, rfl, fun junk => ?_, fun c hc hne => ?_⟩
  · have hr := h.reads [] junk
    simp only [List.nil_append, List.length_nil, Nat.cast_zero] at hr
    simp only [decodeWith, hr, ok_bind, pure_ok]
  · have hu := h.underflows [] c hc hne
    simp only [List.nil_append, List.length_nil, Nat.cast_zero] at hu
    simp only [decodeWith, hu, error_bind]

theorem roundTrips_iff {α : Type} {encode : Except Exc Bytes} {p : Read α} {bs : Bytes} {a : α} {fits : Prop}
    (hencode : ∀ b, encode = .ok b ↔ fits ∧ b = bs) (hparses : fits → Parses .bufferUnderflow p bs a) :
    RoundTrips encode (decodeWith p) a ↔ fits := by
  constructor
  · rintro ⟨b, hb, -⟩
    exact ((hencode b).mp hb).1
  · intro hfits
    rw [(hencode bs).mpr ⟨hfits, rfl⟩]
    exact roundTrips_of_parses (hparses hfits)

theorem group_messages_roundTrip :
    (∀ (version : Int) (subscriptions : List String) (userData : Option Bytes),
      RoundTrips (encodeJoinGroupProtocolMetadata version subscriptions userData) decodeJoinGroupProtocolMetadata
        ⟨version, subscriptions, userData⟩ ↔
      Fmt.h.Fits version ∧ subscriptions.length < 2 ^ 31 ∧ (∀ t ∈ subscriptions, Short (utf8 t)) ∧ FieldFits userData) ∧
    ∀ (assignments : TopicPartitions) (userData : Option Bytes),
      RoundTrips (encodeSyncGroupMemberAssignment 0 assignments userData) decodeSyncGroupMemberAssignment
        ⟨0, assignments, userData⟩ ↔
      assignments.entries.length < 2 ^ 31 ∧ (∀ e ∈ assignments.entries, Writable e) ∧ FieldFits userData := by
  refine ⟨fun version subscriptions userData => ?_, fun assignments userData => ?_⟩
  · exact roundTrips_iff (encodeMetadata_ok_iff version subscriptions userData) fun h =>
      parses_metadata h.1 h.2.1 h.2.2.1 h.2.2.2
  · exact roundTrips_iff (encodeAssignment_ok_iff assignments userData) fun h => parses_assignment h.1 h.2.1 h.2.2

/-- The number of topics has to fit its field. -/
theorem tooManySubscriptions_not_encoded :
    Fmt.h.Fits 0 ∧ (∀ t ∈ List.replicate (2 ^ 31) "t", Short (utf8 t)) ∧
      ¬ RoundTrips (encodeJoinGroupProtocolMetadata 0
      (List.replicate (2 ^ 31) "t") none) decodeJoinGroupProtocolMetadata
        ⟨0, List.replicate (2 ^ 31) "t", none⟩ := by
  refine ⟨by decide, fun t ht => ?_, ?_⟩
  · rw [List.eq_of_mem_replicate ht, Short]
    decide
  · rintro ⟨b, hb, -⟩
    have hlen := ((encodeMetadata_ok_iff _ _ _ _).mp hb).1.2.1
    rw [List.length_replicate] at hlen
    exact absurd hlen (lt_irrefl _)

end Afkak
