import ShardTelemetry.Error
import ShardTelemetry.Lib.Bytes

/-!
# What the binary formats share

The contract of zstd that the codecs rely on, how failures of libraries become errors of a codec,
and lengths of four bytes.
-/

namespace ShardTelemetry

open Bytes

/-- A zstd compressor, and a decompressor into a buffer of bounded capacity. -/
structure Zstd where
  compress : List UInt8 → Except String (List UInt8)
  decompress : List UInt8 → Nat → Except String (List UInt8)
  lossless : ∀ raw bytes capacity, compress raw = .ok bytes → raw.length ≤ capacity →
    decompress bytes capacity = .ok raw

/-- A compressor that keeps the bytes as they are. -/
def Zstd.stored : Zstd := ⟨.ok, fun bytes _ => .ok bytes, by rintro raw _ _ ⟨⟩ _; rfl⟩

/-- A failure of a library, as an error of the codec. -/
def compressing {α : Type} : Except String α → TelemetryResult α
  | .ok value => .ok value
  | .error reason => .error (.compressionFailed reason)

/-- A failure of a library, as an error with a text of its own. -/
def decoding {α : Type} (error : TelemetryError) : Except String α → TelemetryResult α
  | .ok value => .ok value
  | .error _ => .error error

/-- An error of a decoder. -/
def invalid (reason : String) : TelemetryError := .invalidBlockEncoding reason

/-- `u32::try_from` of a length, in its four bytes. -/
def lengthBytes (length : Nat) : TelemetryResult (List UInt8) :=
  if length < 2 ^ 32 then .ok (toLE 4 length) else .error .recordTooLarge

variable {α : Type}

theorem compressing_eq_ok : compressing res = .ok a ↔ res = .ok a := by
  cases res <;> simp [compressing]

theorem decoding_eq_ok : decoding error res = .ok a ↔ res = .ok a := by
  cases res <;> simp [decoding]

theorem lengthBytes_eq_ok : lengthBytes length = .ok bytes ↔
    length < 2 ^ 32 ∧ bytes = toLE 4 length := by
  unfold lengthBytes
  by_cases fits : length < 2 ^ 32
  · rw [if_pos fits, Except.ok.injEq]
    exact ⟨fun eq => ⟨fits, eq.symm⟩, fun h => h.2.symm⟩
  · rw [if_neg fits]
    exact ⟨nofun, fun h => absurd h.1 fits⟩

end ShardTelemetry
