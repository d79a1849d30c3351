import Mathlib.Data.Prod.Lex
import ShardTelemetry.Error

/-!
# Addresses of records

A record is addressed by its signal, its partition and its offset there.  Addresses are ordered as
tuples.
-/

namespace ShardTelemetry

/-- The number of a signal, which its order follows. -/
def TelemetrySignal.number : TelemetrySignal → Nat
  | .logs => 1
  | .traces => 2
  | .metrics => 3

theorem TelemetrySignal.number_injective : Function.Injective TelemetrySignal.number := by
  intro left right eq
  cases left <;> cases right <;> first | rfl | cases eq

/-- Stable address of one record in the ordered append log. -/
structure TelemetryRecordRef where
  signal : TelemetrySignal
  topicPartition : TopicPartition
  offset : Nat
  deriving DecidableEq

namespace TelemetryRecordRef

/-- The tuple that the order of addresses compares. -/
def key (ref : TelemetryRecordRef) : Nat ×ₗ Nat ×ₗ Nat ×ₗ Nat :=
  toLex (ref.signal.number, toLex (ref.topicPartition.topicId,
    toLex (ref.topicPartition.partitionId, ref.offset)))

theorem key_injective : Function.Injective key := by
  rintro ⟨signal, ⟨topicId, partitionId⟩, offset⟩ ⟨signal', ⟨topicId', partitionId'⟩, offset'⟩ eq
  obtain ⟨signals, eq⟩ := Prod.mk.inj eq
  obtain ⟨rfl, eq⟩ := Prod.mk.inj eq
  obtain ⟨rfl, rfl⟩ := Prod.mk.inj eq
  have same : signal = signal' := TelemetrySignal.number_injective signals
  rw [same]

instance : LinearOrder TelemetryRecordRef := LinearOrder.lift' key key_injective

end TelemetryRecordRef

/-- The order of partitions: by topic, then by number. -/
def TopicPartition.key (partition : TopicPartition) : Nat ×ₗ Nat :=
  toLex (partition.topicId, partition.partitionId)

end ShardTelemetry
