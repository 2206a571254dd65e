import Raftiq.Encoding.BigEndian
import Raftiq.Encoding.Framing
import Raftiq.Types

namespace Raftiq

open Framing

def maxRecordPayloadSize : ℕ := 16 * 2 ^ 20

/-- A record as it stands in the file, before its payload is looked at. -/
structure RawRecord where
  recordType : UInt8
  payload : Bytes
  small : payload.length ≤ maxRecordPayloadSize
deriving DecidableEq

inductive RecordFault where
  | payloadTooLarge (size : ℕ)
  | checksum (stored expected : ℕ)
deriving DecidableEq, Repr

namespace RawRecord

/-- Type byte, payload length and payload: what the checksum covers. -/
def headerAndPayload (recordType : UInt8) (payload : Bytes) : Bytes :=
  recordType :: (bigEndianBytes 4 payload.length ++ payload)

/-- The checksum is CRC-32 in the source; here it may be any function of the bytes. -/
def bytes (crc : Bytes → UInt32) (record : RawRecord) : Bytes :=
  headerAndPayload record.recordType record.payload ++
    bigEndianBytes 4 (crc (headerAndPayload record.recordType record.payload)).toNat

end RawRecord

/-- CRC-32 of `hash/crc32`, bit by bit. -/
def checksumIEEE (bytes : Bytes) : UInt32 :=
  bytes.foldl (fun crc byte => shift 8 (crc ^^^ byte.toUInt32)) 0xffffffff ^^^ 0xffffffff
where
  shift : ℕ → UInt32 → UInt32
    | 0, crc => crc
    | bits + 1, crc => shift bits (if crc &&& 1 = 1 then (crc >>> 1) ^^^ 0xedb88320 else crc >>> 1)

example : checksumIEEE [0x31, 0x32, 0x33, 0x34, 0x35, 0x36, 0x37, 0x38, 0x39] = 0xcbf43926 := by decide +kernel

/-- An end of the input before the type byte is `io.EOF`, one after it is
`io.ErrUnexpectedEOF`. -/
def decodeRecord (crc : Bytes → UInt32) : Bytes → Reading UInt8 RawRecord RecordFault
  | [] => .ended
  | recordType :: reader =>
      match readBigEndian 4 reader with
      | none => .torn
      | some (payloadLength, reader) =>
          if large : payloadLength > maxRecordPayloadSize then .invalid (.payloadTooLarge payloadLength)
          else if reader.length < payloadLength then .torn
          else
            match readBigEndian 4 (reader.drop payloadLength) with
            | none => .torn
            | some (storedChecksum, rest) =>
                let payload := reader.take payloadLength
                let expectedChecksum := (crc (RawRecord.headerAndPayload recordType payload)).toNat
                if storedChecksum ≠ expectedChecksum then
                  .invalid (.checksum storedChecksum expectedChecksum)
                else
                  .frame {
                    recordType := recordType
                    payload := payload
                    small := (List.length_take_le _ _).trans (not_lt.mp large) } rest

variable (crc : Bytes → UInt32) (record : RawRecord)

theorem RawRecord.bytes_length : (record.bytes crc).length = record.payload.length + 9 := by
  simp only [bytes, headerAndPayload, List.length_append, List.length_cons, bigEndianBytes_length]
  omega

theorem RawRecord.length_lt : record.payload.length < 256 ^ 4 := by
  have small := record.small
  unfold maxRecordPayloadSize at small
  omega

theorem decodeRecord_bytes (rest : Bytes) :
    decodeRecord crc (record.bytes crc ++ rest) = .frame record rest := by
  have shape : record.bytes crc ++ rest = record.recordType :: (bigEndianBytes 4 record.payload.length ++
      (record.payload ++ (bigEndianBytes 4
        (crc (RawRecord.headerAndPayload record.recordType record.payload)).toNat ++ rest))) := by
    simp [RawRecord.bytes, RawRecord.headerAndPayload]
  have checksum : (crc (RawRecord.headerAndPayload record.recordType record.payload)).toNat < 256 ^ 4 :=
    UInt32.toNat_lt _
  rw [shape, decodeRecord, readBigEndian_of_lt record.length_lt]
  dsimp only
  rw [dif_neg (not_lt.mpr record.small), if_neg (by simp), List.drop_left, readBigEndian_of_lt checksum]
  simp only [List.take_left, ne_eq, not_true_eq_false, if_false]

/-- A record that is cut short is taken for a torn tail wherever the cut falls. -/
theorem decodeRecord_cut (cut : ℕ) (positive : 0 < cut) (below : cut < (record.bytes crc).length) :
    decodeRecord crc ((record.bytes crc).take cut) = .torn := by
  rw [record.bytes_length] at below
  obtain ⟨n, rfl⟩ : ∃ n, cut = n + 1 := ⟨cut - 1, by omega⟩
  have shape : (record.bytes crc).take (n + 1) = record.recordType ::
      (bigEndianBytes 4 record.payload.length ++ (record.payload ++ bigEndianBytes 4
        (crc (RawRecord.headerAndPayload record.recordType record.payload)).toNat)).take n := by
    simp [RawRecord.bytes, RawRecord.headerAndPayload]
  rw [shape, decodeRecord, List.take_append, bigEndianBytes_length]
  rcases Nat.lt_or_ge n 4 with inLength | pastLength
  · rw [readBigEndian_short]
    simp only [List.length_append, List.length_take, bigEndianBytes_length]
    omega
  · rw [List.take_of_length_le (by simpa using pastLength), readBigEndian_of_lt record.length_lt]
    dsimp only
    rw [dif_neg (not_lt.mpr record.small)]
    rcases Nat.lt_or_ge (n - 4) record.payload.length with inPayload | pastPayload
    · rw [if_pos]
      simp only [List.length_take, List.length_append]
      omega
    · rw [if_neg, List.take_append, List.take_of_length_le pastPayload, List.drop_left,
        readBigEndian_short]
      · simp only [List.length_take, bigEndianBytes_length]
        omega
      · simp only [List.length_take, List.length_append, bigEndianBytes_length]
        omega

theorem decodeRecord_shorter {bytes rest : Bytes} {record : RawRecord}
    (decoded : decodeRecord crc bytes = .frame record rest) : rest.length < bytes.length := by
  cases bytes with
  | nil => cases decoded
  | cons recordType reader =>
      rw [decodeRecord] at decoded
      cases header : readBigEndian 4 reader with
      | none => simp [header] at decoded
      | some header' =>
          obtain ⟨payloadLength, reader'⟩ := header'
          simp only [header] at decoded
          split at decoded
          · cases decoded
          · split at decoded
            · cases decoded
            · split at decoded
              · cases decoded
              · rename_i footer
                split at decoded
                · cases decoded
                · cases decoded
                  have first := readBigEndian_shorter header
                  have last := readBigEndian_shorter footer
                  rw [List.length_drop] at last
                  rw [List.length_cons]
                  omega

/-- The format of the write-ahead log. -/
def recordFormat : Format UInt8 RawRecord RecordFault where
  encode := RawRecord.bytes crc
  read := decodeRecord crc
  read_nil := rfl
  read_encode := decodeRecord_bytes crc
  read_cut := decodeRecord_cut crc
  read_shorter := fun _ _ _ => decodeRecord_shorter crc

end Raftiq
