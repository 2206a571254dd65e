import Raftiq.Storage.Mirror

namespace Raftiq

open Framing

variable {crc : Bytes → UInt32} {json : SnapshotJSON}

theorem applyRecord_ok {contents result : Contents} {raw : RawRecord} :
    applyRecord json contents raw = .ok result ↔
      ∃ record, raw.decode json = .ok record ∧ record.validateRecovered contents = .ok () ∧
        record.effect contents = result := by
  unfold applyRecord
  cases decoded : raw.decode json with
  | error error => simp
  | ok record =>
      cases validated : record.validateRecovered contents with
      | error error => simp [validated]
      | ok passed => simp [validated]

theorem recover_cons {contents result : Contents} {record : Record} {rest : List Record} :
    recover contents (record :: rest) = .ok result ↔
      record.validateRecovered contents = .ok () ∧ recover (record.effect contents) rest = .ok result := by
  rw [recover]
  cases record.validateRecovered contents with
  | error error => simp
  | ok passed => simp

/-- Applying the records of a file is decoding them all and replaying what they say. -/
theorem applyAll_applyRecord {contents result : Contents} {raws : List RawRecord} :
    applyAll (applyRecord json) contents raws = .ok result ↔
      ∃ records : List Record, raws.map (RawRecord.decode json) = records.map .ok ∧
        recover contents records = .ok result := by
  induction raws generalizing contents with
  | nil =>
      constructor
      · intro applied
        cases applied
        exact ⟨[], rfl, rfl⟩
      · rintro ⟨records, decoded, recovered⟩
        rw [List.map_nil, eq_comm, List.map_eq_nil_iff] at decoded
        rw [decoded] at recovered
        cases recovered
        rfl
  | cons raw rest ih =>
      rw [applyAll]
      constructor
      · intro applied
        cases first : applyRecord json contents raw with
        | error error => simp [first] at applied
        | ok next =>
            rw [first] at applied
            obtain ⟨record, decoded, validated, rfl⟩ := applyRecord_ok.mp first
            obtain ⟨records, following, recovered⟩ := ih.mp applied
            refine ⟨record :: records, ?_, recover_cons.mpr ⟨validated, recovered⟩⟩
            rw [List.map_cons, decoded, following, List.map_cons]
      · rintro ⟨records, decoded, recovered⟩
        cases records with
        | nil => cases decoded
        | cons record records =>
            rw [List.map_cons, List.map_cons, List.cons.injEq] at decoded
            obtain ⟨validated, recovered⟩ := recover_cons.mp recovered
            rw [applyRecord_ok.mpr ⟨record, decoded.1, validated, rfl⟩]
            exact ih.mpr ⟨records, decoded.2, recovered⟩

theorem decodeAll_encoded (trips : json.RoundTrips) {file records : List Record} {raws : List RawRecord}
    (encoded : file.map (Record.encode json) = raws.map .ok) (representable : ∀ record ∈ file, record.Representable) :
    raws.map (RawRecord.decode json) = records.map .ok ↔ (∀ record ∈ file, record.Decodable) ∧ records = file := by
  induction file generalizing raws records with
  | nil =>
      rw [List.map_nil, eq_comm, List.map_eq_nil_iff] at encoded
      rw [encoded, List.map_nil, eq_comm, List.map_eq_nil_iff]
      simp
  | cons record rest ih =>
      cases raws with
      | nil => cases encoded
      | cons raw raws =>
          rw [List.map_cons, List.map_cons, List.cons.injEq] at encoded
          obtain ⟨representableFirst, representable⟩ := List.forall_mem_cons.mp representable
          have first := Record.decode_encoded trips encoded.1 representableFirst
          cases records with
          | nil => simp
          | cons decoded records =>
              rw [List.map_cons, List.map_cons, List.cons.injEq, first, ih encoded.2 representable,
                List.forall_mem_cons, List.cons.injEq]
              tauto

theorem truncateFile_of_le {size : ℕ} {bytes : Bytes} (inside : size ≤ bytes.length) :
    truncateFile size bytes = bytes.take size := by
  rw [truncateFile, Nat.sub_eq_zero_of_le inside, List.replicate_zero, List.append_nil]

namespace DiskWAL

/-- Recovery reads to the end of the file. -/
theorem openWAL_ne_exhausted (bytes : Bytes) : openWAL crc json bytes ≠ .error .exhausted := by
  intro failed
  unfold openWAL at failed
  split at failed
  · rename_i error scanned
    cases failed
    exact scan_ne_exhausted _ (Nat.lt_succ_self _) 0 Contents.empty scanned
  · cases failed

/-- Opening a file of whole records. -/
theorem openWAL_encodeAll (raws : List RawRecord) :
    openWAL crc json (encodeAll (recordFormat crc) raws) =
      match applyAll (applyRecord json) Contents.empty raws with
      | .error refusal => .error (.refused refusal)
      | .ok contents =>
          .ok {
            contents := contents
            bytes := encodeAll (recordFormat crc) raws
            offset := some (encodeAll (recordFormat crc) raws).length } := by
  rw [openWAL, scan_whole]
  cases applyAll (applyRecord json) Contents.empty raws with
  | error refusal => rfl
  | ok contents => rfl

theorem openWAL_encoded (trips : json.RoundTrips) {file : List Record} {bytes : Bytes}
    (encodes : Encodes crc json file bytes) (representable : ∀ record ∈ file, record.Representable)
    (opened : DiskWAL) :
    openWAL crc json bytes = .ok opened ↔ (∀ record ∈ file, record.Decodable) ∧
      recover Contents.empty file = .ok opened.contents ∧ opened.bytes = bytes ∧
      opened.offset = some bytes.length := by
  obtain ⟨raws, encoded, rfl⟩ := encodes
  have applied : ∀ contents, applyAll (applyRecord json) Contents.empty raws = .ok contents ↔
      (∀ record ∈ file, record.Decodable) ∧ recover Contents.empty file = .ok contents := by
    intro contents
    rw [applyAll_applyRecord]
    simp only [decodeAll_encoded trips encoded representable]
    constructor
    · rintro ⟨records, ⟨decodable, rfl⟩, recovered⟩
      exact ⟨decodable, recovered⟩
    · rintro ⟨decodable, recovered⟩
      exact ⟨file, ⟨decodable, rfl⟩, recovered⟩
  rw [openWAL_encodeAll]
  constructor
  · intro succeeded
    split at succeeded
    · cases succeeded
    · rename_i contents found
      cases succeeded
      obtain ⟨decodable, recovered⟩ := (applied contents).mp found
      exact ⟨decodable, recovered, rfl, rfl⟩
  · rintro ⟨decodable, recovered, sameBytes, sameOffset⟩
    rw [(applied opened.contents).mpr ⟨decodable, recovered⟩]
    cases opened
    cases sameBytes
    cases sameOffset
    rfl

end DiskWAL

end Raftiq
