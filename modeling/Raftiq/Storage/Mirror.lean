import Raftiq.Storage.Disk
import Raftiq.Storage.RoundTrip

namespace Raftiq

open Framing

/-- The record that a call appends if the storage object accepts it. -/
def WriteCall.record (contents : Contents) : WriteCall → Option Record
  | .saveState state => some (.state state)
  | .appendEntries entries =>
      if entries ≠ [] ∧ validateEntries entries = .ok () ∧ validateAppend contents.entries entries = .ok () then
        some (.entries entries)
      else none
  | .replaceSuffix start entries =>
      if validateReplaceSuffix contents.snapshot start entries = .ok () then some (.replaceSuffix start entries)
      else none
  | .saveSnapshot snapshot => some (.snapshot snapshot)
  | .compact _ => none

namespace DiskWAL

variable {crc : Bytes → UInt32} {json : SnapshotJSON} {disk : DiskWAL} {offset : ℕ} {call : WriteCall}

theorem ensureOpen_some (opened : disk.offset = some offset) (rest : ℕ → Returned) :
    disk.ensureOpen rest = rest offset := by
  rw [ensureOpen, opened]

theorem ensureOpen_none (closed : disk.offset = none) (rest : ℕ → Returned) :
    disk.ensureOpen rest = disk.fails .closed := by
  rw [ensureOpen, closed]

theorem checked_ok {validation : Except StorageError Unit} (passed : validation = .ok ()) (rest : Returned) :
    disk.checked validation rest = rest := by
  cases passed
  rfl

theorem checked_disk {validation : Except StorageError Unit} {rest : Returned}
    (same : validation = .ok () → rest.disk = disk) : (disk.checked validation rest).disk = disk := by
  cases validation with
  | error error => rfl
  | ok passed => exact same rfl

theorem perform_closed (closed : disk.offset = none) (fault : FileFault) :
    disk.perform crc json call fault = disk.fails .closed := by
  cases call <;> exact ensureOpen_none closed _

theorem perform_record {record : Record} (opened : disk.offset = some offset)
    (writes : call.record disk.contents = some record) (fault : FileFault) :
    disk.perform crc json call fault = disk.writeRecord crc json offset record fault := by
  cases call with
  | saveState state =>
      cases writes
      exact ensureOpen_some opened _
  | appendEntries entries =>
      simp only [WriteCall.record, ne_eq, Option.ite_none_right_eq_some, Option.some.injEq] at writes
      obtain ⟨⟨some, valid, follows⟩, rfl⟩ := writes
      rw [perform, appendEntries, ensureOpen_some opened, if_neg some, checked_ok valid, checked_ok follows]
  | replaceSuffix start entries =>
      simp only [WriteCall.record, Option.ite_none_right_eq_some, Option.some.injEq] at writes
      obtain ⟨valid, rfl⟩ := writes
      rw [perform, replaceSuffix, ensureOpen_some opened, checked_ok valid]
  | saveSnapshot snapshot =>
      cases writes
      exact ensureOpen_some opened _
  | compact snapshot => cases writes

/-- A call that appends no record and is not a compaction leaves everything as it is. -/
theorem perform_idle (idle : call.record disk.contents = none) (other : ∀ snapshot, call ≠ .compact snapshot)
    (fault : FileFault) : (disk.perform crc json call fault).disk = disk := by
  cases opened : disk.offset with
  | none =>
      rw [perform_closed opened]
      rfl
  | some offset =>
      cases call with
      | saveState state => cases idle
      | appendEntries entries =>
          rw [perform, appendEntries, ensureOpen_some opened]
          split
          · rfl
          · rename_i some
            refine checked_disk fun valid => checked_disk fun follows => ?_
            rw [WriteCall.record, if_pos ⟨some, valid, follows⟩] at idle
            cases idle
      | replaceSuffix start entries =>
          rw [perform, replaceSuffix, ensureOpen_some opened]
          refine checked_disk fun valid => ?_
          rw [WriteCall.record, if_pos valid] at idle
          cases idle
      | saveSnapshot snapshot => cases idle
      | compact snapshot => exact absurd rfl (other snapshot)

/-- A compaction stops before it touches the file, or it replaces the file. -/
theorem compact_cases (snapshot : Snapshot) (fault : FileFault) :
    (∃ error, (∀ failed, error ≠ .file failed) ∧ disk.compact crc json snapshot fault = disk.fails error) ∨
      ∃ bytes, disk.offset ≠ none ∧ validateCompact disk.contents.snapshot snapshot = .ok () ∧
        encodeCompacted crc json disk.contents.state snapshot
          (disk.contents.entries.filter (snapshot.lastIncludedIndex < ·.index)) = .ok bytes ∧
        disk.compact crc json snapshot fault =
          disk.replaceFile bytes {
            state := disk.contents.state
            entries := disk.contents.entries.filter (snapshot.lastIncludedIndex < ·.index)
            snapshot := some snapshot } fault := by
  cases opened : disk.offset with
  | none =>
      rw [compact, ensureOpen_none opened]
      exact Or.inl ⟨_, fun _ => WALError.noConfusion, rfl⟩
  | some offset =>
      rw [compact, ensureOpen_some opened]
      cases valid : validateCompact disk.contents.snapshot snapshot with
      | error error => exact Or.inl ⟨_, fun _ => WALError.noConfusion, rfl⟩
      | ok passed =>
          rw [checked_ok rfl]
          dsimp only
          cases encoded : encodeCompacted crc json disk.contents.state snapshot
              (disk.contents.entries.filter (snapshot.lastIncludedIndex < ·.index)) with
          | error error => exact Or.inl ⟨_, fun _ => WALError.noConfusion, rfl⟩
          | ok bytes => exact Or.inr ⟨bytes, Option.some_ne_none offset, rfl, rfl, rfl⟩

theorem writeRecord_error {record : Record} {error : EncodeError} (encoded : record.encode json = .error error)
    (fault : FileFault) : disk.writeRecord crc json offset record fault = disk.fails (.encode error) := by
  rw [writeRecord, encoded]

theorem writeRecord_works {record : Record} {raw : RawRecord} (encoded : record.encode json = .ok raw) :
    disk.writeRecord crc json offset record .none = {
      disk := {
        contents := record.effect disk.contents
        bytes := disk.bytes ++ raw.bytes crc
        offset := some (disk.bytes ++ raw.bytes crc).length }
      error := none } := by
  rw [writeRecord, encoded]
  rfl

theorem writeRecord_write {record : Record} {raw : RawRecord} (encoded : record.encode json = .ok raw)
    (written : ℕ) :
    (disk.writeRecord crc json offset record (.write written)).disk = {
      contents := disk.contents
      bytes := truncateFile offset (disk.bytes ++ (raw.bytes crc).take written)
      offset := some (truncateFile offset (disk.bytes ++ (raw.bytes crc).take written)).length } := by
  rw [writeRecord, encoded]
  rfl

end DiskWAL

/-! The storage object of records that a storage object of bytes stands for. -/

def WALStorage.perform (wal : WALStorage) : WriteCall → Except StorageError WALStorage
  | .saveState state => wal.saveState state
  | .appendEntries entries => wal.appendEntries entries
  | .replaceSuffix start entries => wal.replaceSuffix start entries
  | .saveSnapshot snapshot => wal.saveSnapshot snapshot
  | .compact snapshot => wal.compact snapshot

theorem WALStorage.perform_record {wal : WALStorage} {call : WriteCall} {record : Record}
    (writes : call.record wal.contents = some record) : wal.perform call = .ok (wal.appendRecord record) := by
  cases call with
  | saveState state =>
      cases writes
      rfl
  | appendEntries entries =>
      simp only [WriteCall.record, ne_eq, Option.ite_none_right_eq_some, Option.some.injEq] at writes
      obtain ⟨⟨some, valid, follows⟩, rfl⟩ := writes
      simp only [perform, appendEntries, if_neg some, valid, follows]
  | replaceSuffix start entries =>
      simp only [WriteCall.record, Option.ite_none_right_eq_some, Option.some.injEq] at writes
      obtain ⟨valid, rfl⟩ := writes
      simp only [perform, replaceSuffix, valid]
  | saveSnapshot snapshot =>
      cases writes
      rfl
  | compact snapshot => cases writes

/-- The bytes are the encodings of the records, one after the other. -/
def Encodes (crc : Bytes → UInt32) (json : SnapshotJSON) (file : List Record) (bytes : Bytes) : Prop :=
  ∃ raws : List RawRecord, file.map (Record.encode json) = raws.map .ok ∧
    bytes = encodeAll (recordFormat crc) raws

section Encodes

variable {crc : Bytes → UInt32} {json : SnapshotJSON} {file : List Record} {bytes : Bytes}

theorem Encodes.nil : Encodes crc json [] [] :=
  ⟨[], rfl, rfl⟩

theorem Encodes.append {more : List Record} {moreBytes : Bytes} (encodes : Encodes crc json file bytes)
    (following : Encodes crc json more moreBytes) : Encodes crc json (file ++ more) (bytes ++ moreBytes) := by
  obtain ⟨raws, encoded, rfl⟩ := encodes
  obtain ⟨moreRaws, moreEncoded, rfl⟩ := following
  exact ⟨raws ++ moreRaws, by rw [List.map_append, encoded, moreEncoded, List.map_append],
    (encodeAll_append _ _ _).symm⟩

theorem Encodes.single {record : Record} {raw : RawRecord} (encoded : record.encode json = .ok raw) :
    Encodes crc json [record] (raw.bytes crc) :=
  ⟨[raw], by rw [List.map_singleton, encoded, List.map_singleton],
    by simp [recordFormat]⟩

end Encodes

structure Mirrors (crc : Bytes → UInt32) (json : SnapshotJSON) (disk : DiskWAL) (wal : WALStorage) : Prop where
  isOpen : disk.offset ≠ none
  contents : disk.contents = wal.contents
  bytes : Encodes crc json wal.file disk.bytes

namespace Mirrors

variable {crc : Bytes → UInt32} {json : SnapshotJSON} {disk : DiskWAL} {wal : WALStorage}

theorem append {record : Record} {raw : RawRecord} (mirrors : Mirrors crc json disk wal)
    (encoded : record.encode json = .ok raw) :
    Mirrors crc json {
        contents := record.effect disk.contents
        bytes := disk.bytes ++ raw.bytes crc
        offset := some (disk.bytes ++ raw.bytes crc).length }
      (wal.appendRecord record) where
  isOpen := Option.some_ne_none _
  contents := congrArg record.effect mirrors.contents
  bytes := mirrors.bytes.append (Encodes.single encoded)

end Mirrors

theorem encodeCompacted_encodes {crc : Bytes → UInt32} {json : SnapshotJSON} {state : PersistentState}
    {snapshot : Snapshot} {entries : List LogEntry} {bytes : Bytes}
    (encoded : DiskWAL.encodeCompacted crc json state snapshot entries = .ok bytes) :
    Encodes crc json (WALStorage.compactedFile state snapshot entries) bytes := by
  simp only [DiskWAL.encodeCompacted] at encoded
  obtain ⟨stateRecord, first, encoded⟩ := bind_eq_ok encoded
  obtain ⟨snapshotRecord, second, encoded⟩ := bind_eq_ok encoded
  obtain ⟨entriesRecord, third, encoded⟩ := bind_eq_ok encoded
  cases encoded
  refine ⟨_, ?_, rfl⟩
  unfold WALStorage.compactedFile
  split
  · simp [first, second]
  · simp [first, second, third]

theorem WALStorage.compact_valid {wal : WALStorage} {snapshot : Snapshot}
    (valid : DiskWAL.validateCompact wal.contents.snapshot snapshot = .ok ()) :
    ∃ next, wal.compact snapshot = .ok next ∧
      next.contents = {
        state := wal.contents.state
        entries := wal.contents.entries.filter (snapshot.lastIncludedIndex < ·.index)
        snapshot := some snapshot } ∧
      next.file = compactedFile wal.contents.state snapshot
        (wal.contents.entries.filter (snapshot.lastIncludedIndex < ·.index)) := by
  unfold DiskWAL.validateCompact at valid
  unfold compact
  split at valid
  · cases valid
  · rename_i positive
    rw [if_neg positive]
    cases stored : wal.contents.snapshot with
    | none => simp [stored] at valid
    | some saved =>
        simp only [stored] at valid
        split at valid
        · cases valid
        · rename_i index
          split at valid
          · cases valid
          · rename_i term
            simp only [if_neg index, if_neg term]
            exact ⟨_, rfl, rfl, rfl⟩

/-- Without a failure of the file system, the object of bytes does what the object of records does,
unless a record cannot be encoded. -/
theorem Mirrors.perform {crc : Bytes → UInt32} {json : SnapshotJSON} {disk : DiskWAL} {wal : WALStorage}
    (mirrors : Mirrors crc json disk wal) (call : WriteCall) :
    (disk.perform crc json call .none).disk = disk ∨
      ∃ next, wal.perform call = .ok next ∧ Mirrors crc json (disk.perform crc json call .none).disk next := by
  obtain ⟨offset, opened⟩ := Option.ne_none_iff_exists'.mp mirrors.isOpen
  cases writes : call.record disk.contents with
  | some record =>
      rw [DiskWAL.perform_record opened writes]
      cases encoded : record.encode json with
      | error error =>
          rw [DiskWAL.writeRecord_error encoded]
          exact Or.inl rfl
      | ok raw =>
          rw [mirrors.contents] at writes
          rw [DiskWAL.writeRecord_works encoded]
          exact Or.inr ⟨_, WALStorage.perform_record writes, mirrors.append encoded⟩
  | none =>
      by_cases compacts : ∃ snapshot, call = .compact snapshot
      · obtain ⟨snapshot, rfl⟩ := compacts
        rw [DiskWAL.perform]
        rcases @DiskWAL.compact_cases crc json disk snapshot .none with ⟨_, _, same⟩ | ⟨bytes, _, valid, encoded, step⟩
        · exact Or.inl (same ▸ rfl)
        · rw [mirrors.contents] at valid encoded
          obtain ⟨next, compacted, contents, file⟩ := WALStorage.compact_valid valid
          refine Or.inr ⟨next, compacted, ?_⟩
          rw [step]
          refine ⟨Option.some_ne_none 0, ?_, ?_⟩
          · rw [contents, ← mirrors.contents]
            rfl
          · rw [file]
            exact encodeCompacted_encodes encoded
      · rw [not_exists] at compacts
        exact Or.inl (DiskWAL.perform_idle writes compacts .none)

end Raftiq
