import GolangMQ.Bench.Config
import GolangMQ.ToMathlib.BigEndian

/-! # The message header

Every body starts with the sequence number and the send time of its message, both big-endian in eight bytes.
-/

namespace GolangMQ.Bench

/-- `encodeHeader` writes into `body`; it panics on a shorter one. -/
def encodeHeader (body : List UInt8) (seq : UInt64) (sendNanos : Int64) : Option (List UInt8) :=
  if body.length < headerLen then none
  else some (bigEndian 8 seq.toNat ++ bigEndian 8 sendNanos.toUInt64.toNat ++ body.drop headerLen)

def decodeHeader (body : List UInt8) : UInt64 × Int64 :=
  if body.length < headerLen then (0, 0)
  else
    (UInt64.ofNat (ofBigEndian (body.take 8)), (UInt64.ofNat (ofBigEndian ((body.drop 8).take 8))).toInt64)

variable {body : List UInt8} {seq : UInt64} {sendNanos : Int64}

/-- The header overwrites what it covers and nothing else. -/
private theorem encodeHeader_eq_some {encoded : List UInt8} (written : encodeHeader body seq sendNanos = some encoded) :
    headerLen ≤ body.length ∧
      encoded = bigEndian 8 seq.toNat ++ bigEndian 8 sendNanos.toUInt64.toNat ++ body.drop headerLen := by
  unfold encodeHeader at written
  split_ifs at written with short
  cases written
  exact ⟨Nat.le_of_not_lt short, rfl⟩

private theorem length_encodeHeader {encoded : List UInt8} (written : encodeHeader body seq sendNanos = some encoded) :
    encoded.length = body.length := by
  obtain ⟨long, rfl⟩ := encodeHeader_eq_some written
  simp only [headerLen, List.length_append, length_bigEndian, List.length_drop] at long ⊢
  omega

private theorem ofNat_ofBigEndian (value : UInt64) : UInt64.ofNat (ofBigEndian (bigEndian 8 value.toNat)) = value := by
  have fits : value.toNat < 256 ^ 8 := value.toNat_lt
  rw [ofBigEndian_bigEndian, Nat.mod_eq_of_lt fits, UInt64.ofNat_toNat]

/-- Decoding gives back every sequence number and every send time. -/
theorem decodeHeader_encodeHeader {encoded : List UInt8} (written : encodeHeader body seq sendNanos = some encoded) :
    decodeHeader encoded = (seq, sendNanos) := by
  have same := length_encodeHeader written
  obtain ⟨long, rfl⟩ := encodeHeader_eq_some written
  have enough := Nat.not_lt.2 (long.trans same.ge)
  have first : (bigEndian 8 seq.toNat ++ bigEndian 8 sendNanos.toUInt64.toNat ++ body.drop headerLen).take 8 =
      bigEndian 8 seq.toNat := by
    rw [List.append_assoc, List.take_left' (length_bigEndian _ _)]
  have second : ((bigEndian 8 seq.toNat ++ bigEndian 8 sendNanos.toUInt64.toNat ++ body.drop headerLen).drop 8).take 8 =
      bigEndian 8 sendNanos.toUInt64.toNat := by
    rw [List.append_assoc, List.drop_left' (length_bigEndian _ _), List.take_left' (length_bigEndian _ _)]
  rw [decodeHeader, if_neg enough, first, second, ofNat_ofBigEndian, ofNat_ofBigEndian, Int64.toInt64_toUInt64]

end GolangMQ.Bench
