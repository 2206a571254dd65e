import Raftiq.Simulation
import Raftiq.WriteAheadLog

namespace Raftiq

open Framing

/-! The file of a write-ahead log through the crashes of its process, and the records that it stands for. -/

/-- A process with its storage object, or the file that a crash has left.  The first `durable` bytes of the
file are on stable storage. -/
inductive DiskLife where
  | running (disk : DiskWAL) (durable : ℕ)
  | crashed (bytes : Bytes) (durable : ℕ)
deriving DecidableEq

/-- What a process does, and the crashes between its calls and during them.  A crash spares a part of the file
that holds all that is durable. -/
inductive DiskAction where
  | call (call : WriteCall)
  | failingCall (call : WriteCall) (written : ℕ)
  | sync
  | crash (kept : ℕ)
  | crashWriting (call : WriteCall) (written kept : ℕ)
  | crashCompacting (snapshot : Snapshot)
  | start
deriving DecidableEq

namespace DiskLife

variable (crc : Bytes → UInt32) (json : SnapshotJSON)

/-- The new file of a compaction is synced as a whole. -/
def durableAfter (durable : ℕ) (call : WriteCall) (returned : DiskWAL.Returned) : ℕ :=
  match call, returned.error with
  | .compact _, none => returned.disk.bytes.length
  | _, _ => durable

/-- A crash during a write is a failing write that nobody rolls back; a crash during a compaction comes when the
new file is in place.  Opening a file makes no more of it durable. -/
def step : DiskLife → DiskAction → Option DiskLife
  | .running disk durable, .call call =>
      let returned := disk.perform crc json call .none
      some (.running returned.disk (durableAfter durable call returned))
  | .running disk durable, .failingCall call written =>
      some (.running (disk.perform crc json call (.write written)).disk durable)
  | .running disk _, .sync => some (.running disk disk.bytes.length)
  | .running disk durable, .crash kept => some (.crashed (disk.bytes.take (max durable kept)) durable)
  | .running disk durable, .crashWriting call written kept =>
      let bytes := (disk.perform crc json call (.writeTruncate written)).disk.bytes
      some (.crashed (bytes.take (max durable kept)) durable)
  | .running disk _, .crashCompacting snapshot =>
      let returned := disk.perform crc json (.compact snapshot) .reopen
      if returned.error = some (.file .reopen) then
        some (.crashed returned.disk.bytes returned.disk.bytes.length)
      else none
  | .crashed bytes durable, .start =>
      match DiskWAL.openWAL crc json bytes with
      | .ok disk => some (.running disk durable)
      | .error _ => none
  | _, _ => none

end DiskLife

/-- The same in terms of records. -/
inductive RecordLife where
  | running (wal : WALStorage)
  | crashed (wal : WALStorage)

inductive RecordAction where
  | call (call : WriteCall)
  | sync
  | crash
  | restart (keep : ℕ)

def RecordLife.step : RecordLife → RecordAction → Option RecordLife
  | .running wal, .call call =>
      match wal.perform call with
      | .ok next => some (.running next)
      | .error _ => some (.running wal)
  | .running wal, .sync => some (.running wal.sync)
  | .running wal, .crash => some (.crashed wal)
  | .crashed wal, .restart keep =>
      match wal.reopen keep with
      | .ok reopened => some (.running reopened)
      | .error _ => none
  | _, _ => none

/-- A call is refused, appends a record or replaces the file. -/
theorem DiskWAL.perform_cases {crc : Bytes → UInt32} {json : SnapshotJSON} {disk : DiskWAL} (call : WriteCall)
    (fault : FileFault) :
    ((disk.perform crc json call fault).disk = disk ∧ ∀ snapshot, call = .compact snapshot →
        ∃ error, (∀ failed, error ≠ .file failed) ∧ (disk.perform crc json call fault).error = some error) ∨
      (∃ offset record raw, disk.offset = some offset ∧ call.record disk.contents = some record ∧
        record.encode json = .ok raw ∧
        disk.perform crc json call fault = disk.writeRecord crc json offset record fault) ∨
      ∃ snapshot bytes, call = .compact snapshot ∧ validateCompact disk.contents.snapshot snapshot = .ok () ∧
        encodeCompacted crc json disk.contents.state snapshot
          (disk.contents.entries.filter (snapshot.lastIncludedIndex < ·.index)) = .ok bytes ∧
        disk.perform crc json call fault = disk.replaceFile bytes {
          state := disk.contents.state
          entries := disk.contents.entries.filter (snapshot.lastIncludedIndex < ·.index)
          snapshot := some snapshot } fault := by
  cases opened : disk.offset with
  | none =>
      rw [perform_closed opened]
      exact Or.inl ⟨rfl, fun _ _ => ⟨_, fun _ => WALError.noConfusion, rfl⟩⟩
  | some offset =>
      cases writes : call.record disk.contents with
      | some record =>
          rw [perform_record opened writes]
          cases encoded : record.encode json with
          | error error =>
              rw [writeRecord_error encoded]
              exact Or.inl ⟨rfl, fun _ _ => ⟨_, fun _ => WALError.noConfusion, rfl⟩⟩
          | ok raw => exact Or.inr (Or.inl ⟨offset, record, raw, rfl, rfl, encoded, rfl⟩)
      | none =>
          by_cases compacts : ∃ snapshot, call = .compact snapshot
          · obtain ⟨snapshot, rfl⟩ := compacts
            rcases @compact_cases crc json disk snapshot fault with
              ⟨error, other, refused⟩ | ⟨bytes, _, valid, encoded, replaced⟩
            · rw [perform, refused]
              exact Or.inl ⟨rfl, fun _ _ => ⟨error, other, rfl⟩⟩
            · exact Or.inr (Or.inr ⟨snapshot, bytes, rfl, valid, encoded, replaced⟩)
          · rw [not_exists] at compacts
            exact Or.inl ⟨perform_idle writes compacts fault, fun snapshot asks => absurd asks (compacts snapshot)⟩

section Cuts

variable {crc : Bytes → UInt32} {json : SnapshotJSON} {file : List Record} {bytes : Bytes}

theorem Encodes.take (encodes : Encodes crc json file bytes) (n : ℕ) :
    ∃ front, Encodes crc json (file.take n) front ∧ front <+: bytes := by
  obtain ⟨raws, encoded, rfl⟩ := encodes
  refine ⟨_, ⟨raws.take n, by rw [List.map_take, encoded, List.map_take], rfl⟩, ?_⟩
  conv_rhs => rw [← List.take_append_drop n raws, encodeAll_append]
  exact List.prefix_append _ _

theorem Encodes.unique {other : Bytes} (encodes : Encodes crc json file bytes)
    (encodesToo : Encodes crc json file other) : bytes = other := by
  obtain ⟨raws, encoded, rfl⟩ := encodes
  obtain ⟨others, encodedToo, rfl⟩ := encodesToo
  have same := List.map_injective_iff.mpr (fun _ _ => Except.ok.inj) (encoded.symm.trans encodedToo)
  rw [same]

/-- The rest of a record at the end of a file is dropped. -/
theorem openWAL_torn (raws : List RawRecord) (raw : RawRecord) {cut : ℕ} (positive : 0 < cut)
    (short : cut < (raw.bytes crc).length) :
    DiskWAL.openWAL crc json (encodeAll (recordFormat crc) raws ++ (raw.bytes crc).take cut) =
      DiskWAL.openWAL crc json (encodeAll (recordFormat crc) raws) := by
  have enough := length_le_encodeAll (recordFormat crc) raws
  obtain ⟨extra, fuel⟩ : ∃ extra, (encodeAll (recordFormat crc) raws ++ (raw.bytes crc).take cut).length + 1 =
      raws.length + (extra + 1) := by
    refine ⟨(encodeAll (recordFormat crc) raws ++ (raw.bytes crc).take cut).length - raws.length, ?_⟩
    rw [List.length_append]
    omega
  rw [DiskWAL.openWAL_encodeAll, DiskWAL.openWAL, fuel, scan_encodeAll]
  cases applyAll (applyRecord json) Contents.empty raws with
  | error refusal => rfl
  | ok contents =>
      have torn : (recordFormat crc).read ((raw.bytes crc).take cut) = .torn :=
        (recordFormat crc).read_cut raw cut positive short
      simp only [scan, torn, Nat.zero_add, if_true]
      rw [DiskWAL.truncateFile_append]

/-- A file that a crash has cut is opened as the whole records it begins with. -/
theorem openWAL_cut (encodes : Encodes crc json file bytes) {k : ℕ} (inside : k ≤ bytes.length) :
    ∃ n front, Encodes crc json (file.take n) front ∧ front.length ≤ k ∧
      (n < file.length → ∀ next, Encodes crc json (file.take (n + 1)) next → k < next.length) ∧
      DiskWAL.openWAL crc json (bytes.take k) = DiskWAL.openWAL crc json front := by
  obtain ⟨raws, encoded, rfl⟩ := encodes
  obtain ⟨n, _, fits, beyond, cut⟩ := take_encodeAll (recordFormat crc) raws k inside
  have front : ∀ m, Encodes crc json (file.take m) (encodeAll (recordFormat crc) (raws.take m)) :=
    fun m => ⟨raws.take m, by rw [List.map_take, encoded, List.map_take], rfl⟩
  have lengths : file.length = raws.length := by
    simpa only [List.length_map] using congrArg List.length encoded
  refine ⟨n, _, front n, fits, fun more next encodesNext => ?_, ?_⟩
  · rw [encodesNext.unique (front (n + 1))]
    exact beyond (lengths ▸ more)
  · rcases cut with whole | ⟨frame, cut, positive, short, _, torn⟩
    · rw [whole]
    · rw [torn]
      exact openWAL_torn _ frame positive short

end Cuts

namespace DiskLife

variable {crc : Bytes → UInt32} {json : SnapshotJSON} {disk : DiskWAL} {wal : WALStorage} {durable : ℕ}

/-- The durable bytes of the file are those of the synced records. -/
structure Durable (crc : Bytes → UInt32) (json : SnapshotJSON) (wal : WALStorage) (bytes : Bytes) (durable : ℕ) :
    Prop where
  inside : durable ≤ bytes.length
  encodes : Encodes crc json (wal.file.take wal.synced) (bytes.take durable)

/-- The records that a file stands for.  A running object holds what they say; a crash leaves a part of their
encoding that has all durable bytes. -/
inductive Shows (crc : Bytes → UInt32) (json : SnapshotJSON) : DiskLife → RecordLife → Prop where
  | running {disk : DiskWAL} {durable : ℕ} {wal : WALStorage} (mirrors : Mirrors crc json disk wal)
      (representable : wal.Representable) (synced : Durable crc json wal disk.bytes durable) :
      Shows crc json (.running disk durable) (.running wal)
  | crashed {bytes : Bytes} {durable k : ℕ} {wal : WALStorage} (encodes : Encodes crc json wal.file bytes)
      (representable : wal.Representable) (synced : Durable crc json wal bytes durable) (spared : durable ≤ k) :
      Shows crc json (.crashed (bytes.take k) durable) (.crashed wal)

/-- The runs at hand: what is written fits Go's types, and a write does not fail while the file's offset is
behind its end, as it is after a compaction. -/
def Sane : DiskLife → DiskAction → Prop
  | _, .call call | _, .crashWriting call _ _ => call.Representable
  | _, .crashCompacting snapshot => snapshot.Representable
  | .running disk _, .failingCall _ _ => disk.offset = some disk.bytes.length
  | _, _ => True

/-- After a `Sync` all records are durable. -/
theorem durable_all {bytes : Bytes} (encodes : Encodes crc json wal.file bytes)
    (synced : wal.synced = wal.file.length) : Durable crc json wal bytes bytes.length := by
  refine ⟨le_rfl, ?_⟩
  rw [synced, List.take_length, List.take_length]
  exact encodes

/-- A failed write is rolled back. -/
theorem failed_write_placed (placed : disk.offset = some disk.bytes.length) (call : WriteCall) (written : ℕ) :
    (disk.perform crc json call (.write written)).disk = disk := by
  rcases @DiskWAL.perform_cases crc json disk call (.write written) with same |
    ⟨offset, record, raw, opened, _, encoded, performed⟩ | ⟨snapshot, bytes, _, _, _, performed⟩
  · exact same.1
  · cases placed.symm.trans opened
    rw [performed, DiskWAL.writeRecord_write encoded, DiskWAL.truncateFile_append, ← placed]
  · rw [performed]
    rfl

theorem openWAL_shows (trips : json.RoundTrips) {bytes : Bytes} {k : ℕ}
    (encodes : Encodes crc json wal.file bytes) (representable : wal.Representable)
    (synced : Durable crc json wal bytes durable) (spared : durable ≤ k) :
    ∃ keep, ∀ opened, DiskWAL.openWAL crc json (bytes.take k) = .ok opened ↔
      (∀ record ∈ wal.file.take (max wal.synced keep), record.Decodable) ∧
        recover Contents.empty (wal.file.take (max wal.synced keep)) = .ok opened.contents ∧
        Encodes crc json (wal.file.take (max wal.synced keep)) opened.bytes ∧
        opened.offset = some opened.bytes.length := by
  obtain ⟨n, front, encodesFront, fits, beyond, same⟩ := openWAL_cut encodes (Nat.min_le_right k bytes.length)
  have reaches : wal.synced ≤ n := by
    by_contra before
    have more := beyond (by have bound := wal.synced_le; omega)
    obtain ⟨next, encodesNext, inside⟩ := encodes.take (n + 1)
    obtain ⟨nextToo, encodesNextToo, insideToo⟩ := synced.encodes.take (n + 1)
    rw [List.take_take, Nat.min_eq_left (by omega)] at encodesNextToo
    have beyondNext := more next encodesNext
    have lengths := insideToo.length_le
    rw [encodesNextToo.unique encodesNext, List.length_take] at lengths
    have bound := inside.length_le
    omega
  refine ⟨n, fun opened => ?_⟩
  rw [List.take_eq_take_min, same, max_eq_right reaches, DiskWAL.openWAL_encoded trips encodesFront
    fun record member => representable.file record (List.mem_of_mem_take member)]
  constructor
  · rintro ⟨decodable, recovered, sameBytes, offset⟩
    exact ⟨decodable, recovered, sameBytes ▸ encodesFront, sameBytes ▸ offset⟩
  · rintro ⟨decodable, recovered, encodesOpened, offset⟩
    have sameBytes := encodesOpened.unique encodesFront
    exact ⟨decodable, recovered, sameBytes, sameBytes ▸ offset⟩

/-- The durable bytes are among those of the records that are read back. -/
theorem Durable.reopened {bytes opened : Bytes} (synced : Durable crc json wal bytes durable) {keep : ℕ}
    (encodesOpened : Encodes crc json (wal.file.take (max wal.synced keep)) opened) {reopened : WALStorage}
    (reopens : wal.reopen keep = .ok reopened) : Durable crc json reopened opened durable := by
  obtain ⟨file, count⟩ := WALStorage.reopen_ok reopens
  obtain ⟨front, encodesFront, inside⟩ := encodesOpened.take wal.synced
  rw [List.take_take, Nat.min_eq_left (le_max_left _ _)] at encodesFront
  cases encodesFront.unique synced.encodes
  have length : (bytes.take durable).length = durable := by
    rw [List.length_take, Nat.min_eq_left synced.inside]
  refine ⟨length ▸ inside.length_le, ?_⟩
  have taken : opened.take durable = bytes.take durable := by
    rw [List.prefix_iff_eq_take, length] at inside
    exact inside.symm
  rw [file, count, List.take_take, Nat.min_eq_left (le_max_left _ _), taken]
  exact synced.encodes

/-- A crash at some byte of the file. -/
theorem shows_crash (mirrors : Mirrors crc json disk wal) (representable : wal.Representable)
    (synced : Durable crc json wal disk.bytes durable) (kept : ℕ) :
    Shows crc json (.crashed (disk.bytes.take (max durable kept)) durable) (.crashed wal) :=
  .crashed mirrors.bytes representable synced (le_max_left _ _)

theorem Durable.append {record : Record} {bytes : Bytes} (synced : Durable crc json wal bytes durable)
    (added : Bytes) : Durable crc json (wal.appendRecord record) (bytes ++ added) durable := by
  refine ⟨?_, ?_⟩
  · rw [List.length_append]
    exact synced.inside.trans (Nat.le_add_right _ _)
  · change Encodes crc json ((wal.file ++ [record]).take wal.synced) _
    rw [List.take_append_of_le_length wal.synced_le, List.take_append_of_le_length synced.inside]
    exact synced.encodes

/-- Only a compaction that succeeds makes more of the file durable by itself. -/
theorem durableAfter_eq {call : WriteCall} {returned : DiskWAL.Returned}
    (refused : ∀ snapshot, call = .compact snapshot → returned.error ≠ none) :
    durableAfter durable call returned = durable := by
  unfold durableAfter
  split
  · rename_i snapshot succeeded
    exact absurd succeeded (refused snapshot rfl)
  · rfl

/-- The file of a compaction is the one of the records. -/
theorem compacted {snapshot : Snapshot} {bytes : Bytes} (mirrors : Mirrors crc json disk wal)
    (valid : DiskWAL.validateCompact disk.contents.snapshot snapshot = .ok ())
    (encoded : DiskWAL.encodeCompacted crc json disk.contents.state snapshot
      (disk.contents.entries.filter (snapshot.lastIncludedIndex < ·.index)) = .ok bytes) :
    ∃ next, wal.perform (.compact snapshot) = .ok next ∧ Encodes crc json next.file bytes ∧
      next.synced = next.file.length ∧ next.contents = {
        state := disk.contents.state
        entries := disk.contents.entries.filter (snapshot.lastIncludedIndex < ·.index)
        snapshot := some snapshot } := by
  rw [mirrors.contents] at valid encoded ⊢
  obtain ⟨next, compacted, contents, file⟩ := WALStorage.compact_valid valid
  exact ⟨next, compacted, file ▸ encodeCompacted_encodes encoded, (WALStorage.compact_ok compacted).2.2.2.1,
    contents⟩

theorem recover_of_reopen {keep : ℕ} {reopened : WALStorage} (reopens : wal.reopen keep = .ok reopened) :
    recover Contents.empty (wal.file.take (max wal.synced keep)) = .ok reopened.contents := by
  unfold WALStorage.reopen WALStorage.openWAL at reopens
  split at reopens
  · cases reopens
  · rename_i accepted
    cases reopens
    exact accepted

theorem reopen_of_recover {keep : ℕ} {contents : Contents}
    (recovered : recover Contents.empty (wal.file.take (max wal.synced keep)) = .ok contents) :
    ∃ reopened, wal.reopen keep = .ok reopened ∧ reopened.contents = contents := by
  unfold WALStorage.reopen WALStorage.openWAL
  split
  · rename_i error failed
    cases recovered.symm.trans failed
  · rename_i result accepted
    cases recovered.symm.trans accepted
    exact ⟨_, rfl, rfl⟩

theorem moves_call {call : WriteCall} {next : WALStorage} (performed : wal.perform call = .ok next) :
    Reaches RecordLife.step (fun _ _ => True) (.running wal) (.running next) :=
  .step (.call call) .start trivial (by rw [RecordLife.step, performed])

theorem moves_crash : Reaches RecordLife.step (fun _ _ => True) (.running wal) (.crashed wal) :=
  .step .crash .start trivial rfl

theorem simulates_call (mirrors : Mirrors crc json disk wal) (representable : wal.Representable)
    (synced : Durable crc json wal disk.bytes durable) {call : WriteCall} (argument : call.Representable) :
    ∃ next, Reaches RecordLife.step (fun _ _ => True) (.running wal) next ∧
      Shows crc json (.running (disk.perform crc json call .none).disk
        (durableAfter durable call (disk.perform crc json call .none))) next := by
  rcases @DiskWAL.perform_cases crc json disk call .none with ⟨same, refused⟩ |
    ⟨offset, record, raw, opened, writes, encoded, performed⟩ | ⟨snapshot, bytes, rfl, valid, encoded, performed⟩
  · rw [same, durableAfter_eq]
    · exact ⟨_, .start, .running mirrors representable synced⟩
    · intro snapshot asks succeeded
      obtain ⟨error, _, failed⟩ := refused snapshot asks
      cases failed.symm.trans succeeded
  · rw [mirrors.contents] at writes
    have appends := WALStorage.perform_record writes
    rw [durableAfter_eq, performed, DiskWAL.writeRecord_works encoded]
    · exact ⟨_, moves_call appends, .running (mirrors.append encoded)
        (WALStorage.perform_representable representable argument appends) (synced.append _)⟩
    · rintro snapshot rfl
      cases writes
  · obtain ⟨next, compacts, encodes, all, contents⟩ := compacted mirrors valid encoded
    rw [performed]
    exact ⟨_, moves_call compacts, .running ⟨Option.some_ne_none 0, contents.symm, encodes⟩
      (WALStorage.perform_representable representable argument compacts) (durable_all encodes all)⟩

/-- A crash while a record is written leaves a part of it. -/
theorem simulates_crashWriting (mirrors : Mirrors crc json disk wal) (representable : wal.Representable)
    (synced : Durable crc json wal disk.bytes durable) {call : WriteCall} (argument : call.Representable)
    (written kept : ℕ) :
    ∃ next, Reaches RecordLife.step (fun _ _ => True) (.running wal) next ∧
      Shows crc json (.crashed ((disk.perform crc json call (.writeTruncate written)).disk.bytes.take
        (max durable kept)) durable) next := by
  rcases @DiskWAL.perform_cases crc json disk call (.writeTruncate written) with same |
    ⟨offset, record, raw, opened, writes, encoded, performed⟩ | ⟨snapshot, bytes, rfl, valid, encoded, performed⟩
  · rw [same.1]
    exact ⟨_, moves_crash, shows_crash mirrors representable synced kept⟩
  · rw [mirrors.contents] at writes
    have appends := WALStorage.perform_record writes
    have bytes : (disk.perform crc json call (.writeTruncate written)).disk.bytes =
        disk.bytes ++ (raw.bytes crc).take written := by
      rw [performed, DiskWAL.writeRecord, encoded]
      rfl
    have cut : disk.bytes ++ (raw.bytes crc).take written =
        (disk.bytes ++ raw.bytes crc).take (disk.bytes.length + written) := by
      rw [List.take_append, List.take_of_length_le (Nat.le_add_right _ _), Nat.add_sub_cancel_left]
    rw [bytes, cut, List.take_take]
    refine ⟨_, (moves_call appends).trans moves_crash, .crashed (mirrors.append encoded).bytes
      (WALStorage.perform_representable representable argument appends) (synced.append _) ?_⟩
    exact le_min (le_max_left _ _) (synced.inside.trans (Nat.le_add_right _ _))
  · rw [performed]
    exact ⟨_, moves_crash, shows_crash mirrors representable synced kept⟩

/-- A crash once the new file is in place. -/
theorem simulates_crashCompacting (mirrors : Mirrors crc json disk wal) (representable : wal.Representable)
    {snapshot : Snapshot} (argument : snapshot.Representable)
    (replaced : (disk.perform crc json (.compact snapshot) .reopen).error = some (.file .reopen)) :
    ∃ next, Reaches RecordLife.step (fun _ _ => True) (.running wal) next ∧
      Shows crc json (.crashed (disk.perform crc json (.compact snapshot) .reopen).disk.bytes
        (disk.perform crc json (.compact snapshot) .reopen).disk.bytes.length) next := by
  rcases @DiskWAL.perform_cases crc json disk (.compact snapshot) .reopen with ⟨_, refused⟩ |
    ⟨offset, record, raw, opened, writes, encoded, performed⟩ | ⟨other, bytes, asks, valid, encoded, performed⟩
  · obtain ⟨error, differs, failed⟩ := refused snapshot rfl
    exact absurd (Option.some.inj (failed.symm.trans replaced)) (differs .reopen)
  · cases writes
  · cases asks
    obtain ⟨next, compacts, encodes, all, _⟩ := compacted mirrors valid encoded
    have whole : (disk.perform crc json (.compact snapshot) .reopen).disk.bytes = bytes := by
      rw [performed]
      rfl
    rw [whole]
    have shows := Shows.crashed (k := bytes.length) encodes
      (WALStorage.compact_representable representable argument compacts) (durable_all encodes all) le_rfl
    rw [List.take_length] at shows
    exact ⟨_, (moves_call compacts).trans moves_crash, shows⟩

theorem replay_representable {contents : Contents} {file : List Record} (representable : contents.Representable)
    (records : ∀ record ∈ file, record.Representable) : (replay contents file).Representable := by
  induction file generalizing contents with
  | nil => exact representable
  | cons record rest ih =>
      obtain ⟨first, records⟩ := List.forall_mem_cons.mp records
      exact ih (representable.effect first) records

theorem simulates (trips : json.RoundTrips) :
    Simulates (step crc json) Sane RecordLife.step (Shows crc json) := by
  intro before action after shown shows sane stepped
  cases shows with
  | @running disk durable wal mirrors representable synced =>
      cases action with
      | call call =>
          cases stepped
          exact simulates_call mirrors representable synced sane
      | failingCall call written =>
          cases stepped
          rw [failed_write_placed sane]
          exact ⟨_, .start, .running mirrors representable synced⟩
      | sync =>
          cases stepped
          exact ⟨.running wal.sync, .step .sync .start trivial rfl, .running
            ⟨mirrors.isOpen, mirrors.contents, mirrors.bytes⟩ ⟨representable.contents, representable.file⟩
            (durable_all mirrors.bytes rfl)⟩
      | crash kept =>
          cases stepped
          exact ⟨_, moves_crash, shows_crash mirrors representable synced kept⟩
      | crashWriting call written kept =>
          cases stepped
          exact simulates_crashWriting mirrors representable synced sane written kept
      | crashCompacting snapshot =>
          simp only [step, Option.ite_none_right_eq_some, Option.some.injEq] at stepped
          obtain ⟨replaced, rfl⟩ := stepped
          exact simulates_crashCompacting mirrors representable sane replaced
      | start => cases stepped
  | @crashed bytes durable k wal encodes representable synced spared =>
      cases action with
      | start =>
          simp only [step] at stepped
          split at stepped
          · rename_i opened succeeded
            cases stepped
            obtain ⟨keep, opens⟩ := openWAL_shows trips encodes representable synced spared
            obtain ⟨_, recovered, encodesOpened, offset⟩ := (opens opened).mp succeeded
            obtain ⟨reopened, reopens, contents⟩ := reopen_of_recover recovered
            have file := (WALStorage.reopen_ok reopens).1
            have mirrors : Mirrors crc json opened reopened :=
              ⟨offset ▸ Option.some_ne_none _, contents.symm, file ▸ encodesOpened⟩
            refine ⟨.running reopened, .step (.restart keep) .start trivial ?_, .running mirrors ?_
              (synced.reopened encodesOpened reopens)⟩
            · rw [RecordLife.step, reopens]
            · have records : ∀ record ∈ reopened.file, record.Representable := by
                rw [file]
                exact fun record member => representable.file record (List.mem_of_mem_take member)
              exact ⟨reopened.replays ▸ replay_representable Contents.empty_representable records, records⟩
          · cases stepped
      | call | failingCall | sync | crash | crashWriting | crashCompacting => cases stepped

/-- What is found in a file that a crash has left: the records that it has spared, and all synced ones. -/
def OpensAs (crc : Bytes → UInt32) (json : SnapshotJSON) (bytes : Bytes) (wal : WALStorage) : Prop :=
  ∃ keep, ∀ contents, (∃ opened, DiskWAL.openWAL crc json bytes = .ok opened ∧ opened.contents = contents) ↔
    (∀ record ∈ wal.file.take (max wal.synced keep), record.Decodable) ∧
      ∃ reopened, wal.reopen keep = .ok reopened ∧ reopened.contents = contents

theorem opensAs_of_shows (trips : json.RoundTrips) {bytes : Bytes}
    (shows : Shows crc json (.crashed bytes durable) (.crashed wal)) : OpensAs crc json bytes wal := by
  cases shows with
  | crashed encodes representable synced spared =>
      obtain ⟨keep, opens⟩ := openWAL_shows trips encodes representable synced spared
      refine ⟨keep, fun contents => ⟨?_, ?_⟩⟩
      · rintro ⟨opened, succeeded, rfl⟩
        obtain ⟨decodable, recovered, _, _⟩ := (opens opened).mp succeeded
        exact ⟨decodable, reopen_of_recover recovered⟩
      · rintro ⟨decodable, reopened, reopens, rfl⟩
        obtain ⟨front, encodesFront, _⟩ := encodes.take (max _ keep)
        exact ⟨⟨reopened.contents, front, some front.length⟩,
          (opens _).mpr ⟨decodable, recover_of_reopen reopens, encodesFront, rfl⟩, rfl⟩

/-- The file after a vote and an entry, and what there is of a second entry. -/
def wholeRecords : DiskWAL :=
  DiskWAL.openEmpty.performCalls checksumIEEE fixedWidth [.saveState DiskWAL.votedA, .appendEntries [⟨1, 1, [7]⟩]]

def tornRecord : Bytes :=
  (wholeRecords.perform checksumIEEE fixedWidth (.appendEntries [⟨2, 1, [8]⟩]) (.writeTruncate 20)).disk.bytes

def interruptedLife : List DiskAction :=
  [.start, .call (.saveState DiskWAL.votedA), .sync, .call (.appendEntries [⟨1, 1, [7]⟩]),
    .crashWriting (.appendEntries [⟨2, 1, [8]⟩]) 20 200]

theorem interruptedLife_sane (life : DiskLife) (action : DiskAction) (member : action ∈ interruptedLife) :
    life.Sane action := by
  simp only [interruptedLife, List.mem_cons, List.not_mem_nil, or_false] at member
  rcases member with rfl | rfl | rfl | rfl | rfl <;>
    simp [Sane, WriteCall.Representable, PersistentState.Representable, LogEntry.Representable,
      Membership.Representable, Configuration.Representable, IsByteString, DiskWAL.votedA]

end DiskLife

end Raftiq
