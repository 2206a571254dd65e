import Raftiq.Storage.Recovery
import Raftiq.Storage.Survivors

namespace Raftiq

open Framing

/-- An encoding of snapshots that can be read back. -/
def fixedWidth : SnapshotJSON where
  marshal snapshot :=
    bigEndianBytes 8 snapshot.lastIncludedIndex ++ (bigEndianBytes 8 snapshot.lastIncludedTerm ++ snapshot.data)
  unmarshal bytes := do
    let (index, rest) ← readBigEndian 8 bytes
    let (term, data) ← readBigEndian 8 rest
    some { lastIncludedIndex := index, lastIncludedTerm := term, data := data }

theorem fixedWidth_roundTrips : fixedWidth.RoundTrips := by
  rintro ⟨index, term, data⟩ ⟨smallIndex, smallTerm⟩
  simp only [fixedWidth]
  rw [readBigEndian_of_lt (smallIndex.trans_eq (by norm_num))]
  simp only [bind, Option.bind]
  rw [readBigEndian_of_lt (smallTerm.trans_eq (by norm_num))]

namespace DiskWAL

variable {crc : Bytes → UInt32} {json : SnapshotJSON} {disk : DiskWAL}

/-! Failed writes. -/

/-- The call gets as far as writing a record to the open file. -/
def Appends (json : SnapshotJSON) (disk : DiskWAL) (call : WriteCall) : Prop :=
  disk.offset ≠ none ∧ ∃ record raw, call.record disk.contents = some record ∧ record.encode json = .ok raw

/-- A compaction has opened the file, and no record has been written since. -/
def Reopened (disk : DiskWAL) : Prop :=
  disk.offset = some 0 ∧ disk.bytes ≠ []

/-- The places the offset can be at. -/
def Placed (disk : DiskWAL) : Prop :=
  disk.offset = none ∨ disk.offset = some 0 ∨ disk.offset = some disk.bytes.length

theorem appendRecord_placed (placed : disk.Placed) (offset : ℕ) (record : Bytes) (fault : FileFault) :
    (disk.appendRecord offset record fault).disk.Placed := by
  cases fault with
  | seek => exact placed
  | writeTruncate written => exact Or.inl rfl
  | writeSeek written => exact Or.inl rfl
  | none | write | tempFile | close | rename | reopen => exact Or.inr (Or.inr rfl)

theorem writeRecord_placed (placed : disk.Placed) (offset : ℕ) (record : Record) (fault : FileFault) :
    (disk.writeRecord crc json offset record fault).disk.Placed := by
  unfold writeRecord
  split
  · exact placed
  · rename_i raw encoded
    have appended := appendRecord_placed placed offset (raw.bytes crc) fault
    dsimp only
    split
    · exact appended
    · exact appended

theorem replaceFile_placed (placed : disk.Placed) (bytes : Bytes) (contents : Contents) (fault : FileFault) :
    (disk.replaceFile bytes contents fault).disk.Placed := by
  cases fault with
  | seek | write | writeTruncate | writeSeek | tempFile => exact placed
  | close => exact Or.inl rfl
  | reopen => exact Or.inl rfl
  | none => exact Or.inr (Or.inl rfl)
  | rename reopened =>
      cases reopened with
      | false => exact Or.inl rfl
      | true => exact Or.inr (Or.inl rfl)

theorem perform_placed (placed : disk.Placed) (call : WriteCall) (fault : FileFault) :
    (disk.perform crc json call fault).disk.Placed := by
  cases opened : disk.offset with
  | none =>
      rw [perform_closed opened]
      exact placed
  | some offset =>
      cases writes : call.record disk.contents with
      | some record =>
          rw [perform_record opened writes]
          exact writeRecord_placed placed offset record fault
      | none =>
          by_cases compacts : ∃ snapshot, call = .compact snapshot
          · obtain ⟨snapshot, rfl⟩ := compacts
            rw [perform]
            rcases @compact_cases crc json disk snapshot fault with ⟨_, _, same⟩ | ⟨bytes, _, _, _, step⟩
            · rw [same]
              exact placed
            · rw [step]
              exact replaceFile_placed placed _ _ fault
          · rw [perform_idle writes (not_exists.mp compacts)]
            exact placed

theorem Reachable.placed (reachable : Reachable crc json disk) : disk.Placed := by
  induction reachable with
  | opened opened =>
      unfold openWAL at opened
      split at opened
      · cases opened
      · cases opened
        exact Or.inr (Or.inr rfl)
  | called before call fault ih => exact perform_placed ih call fault

theorem truncateFile_append (bytes tail : Bytes) : truncateFile bytes.length (bytes ++ tail) = bytes := by
  rw [truncateFile_of_le (by simp), List.take_left]

theorem truncateFile_zero (bytes : Bytes) : truncateFile 0 bytes = [] := by
  rw [truncateFile_of_le (Nat.zero_le _), List.take_zero]

theorem perform_write_idle {call : WriteCall} (idle : ¬ disk.Appends json call) (written : ℕ) :
    (disk.perform crc json call (.write written)).disk = disk := by
  cases opened : disk.offset with
  | none =>
      rw [perform_closed opened]
      rfl
  | some offset =>
      cases writes : call.record disk.contents with
      | none =>
          by_cases compacts : ∃ snapshot, call = .compact snapshot
          · obtain ⟨snapshot, rfl⟩ := compacts
            rw [perform]
            rcases @compact_cases crc json disk snapshot (.write written) with ⟨_, _, same⟩ | ⟨bytes, _, _, _, step⟩
            · rw [same]
              rfl
            · rw [step]
              rfl
          · exact perform_idle writes (not_exists.mp compacts) _
      | some record =>
          cases encoded : record.encode json with
          | error error =>
              rw [perform_record opened writes, writeRecord_error encoded]
              rfl
          | ok raw => exact absurd ⟨opened ▸ Option.some_ne_none offset, record, raw, writes, encoded⟩ idle

/-- A call whose write fails leaves the file and the object alone, except right after a compaction. -/
theorem failed_write_changes_nothing (reachable : Reachable crc json disk) (call : WriteCall) (written : ℕ) :
    ((disk.perform crc json call (.write written)).disk.bytes = disk.bytes ∧
        (disk.perform crc json call (.write written)).disk.contents = disk.contents) ↔
      ¬ (disk.Appends json call ∧ disk.Reopened) := by
  by_cases appends : disk.Appends json call
  · have ⟨isOpen, record, raw, writes, encoded⟩ := appends
    obtain ⟨offset, opened⟩ := Option.ne_none_iff_exists'.mp isOpen
    rw [perform_record opened writes, writeRecord_write encoded]
    rcases reachable.placed with closed | start | atEnd
    · exact absurd closed isOpen
    · cases opened.symm.trans start
      rw [truncateFile_zero]
      simp only [Reopened, opened, appends, true_and, and_true, not_not, ne_eq]
      exact eq_comm
    · cases opened.symm.trans atEnd
      rw [truncateFile_append]
      refine ⟨fun _ both => ?_, fun _ => ⟨rfl, rfl⟩⟩
      have zero := opened.symm.trans both.2.1
      exact both.2.2 (List.length_eq_zero_iff.mp (Option.some.inj zero))
  · rw [perform_write_idle appends]
    exact ⟨fun _ both => appends both.1, fun _ => ⟨rfl, rfl⟩⟩

/-- A sequence of calls, each with what the file system does to it. -/
def performAll (crc : Bytes → UInt32) (json : SnapshotJSON) (disk : DiskWAL)
    (calls : List (WriteCall × FileFault)) : DiskWAL :=
  calls.foldl (fun disk call => (disk.perform crc json call.1 call.2).disk) disk

theorem Reachable.performAll (reachable : Reachable crc json disk) (calls : List (WriteCall × FileFault)) :
    Reachable crc json (disk.performAll crc json calls) := by
  induction calls generalizing disk with
  | nil => exact reachable
  | cons call rest ih => exact ih (reachable.called call.1 call.2)

def openEmpty : DiskWAL where
  contents := Contents.empty
  bytes := []
  offset := some 0

theorem openWAL_nil : openWAL crc json [] = .ok openEmpty :=
  rfl

theorem openEmpty_reachable : Reachable crc json openEmpty :=
  .opened openWAL_nil

/-- A vote in term 1, and a snapshot up to index 1. -/
def votedA : PersistentState :=
  { currentTerm := 1, votedFor := "A", membership := { current := { voters := ["A"] }, joint := none } }

def firstSnapshot : Snapshot :=
  { lastIncludedIndex := 1, lastIncludedTerm := 1, data := [7] }

/-- After a partial write that is rolled back, the object goes on as before. -/
theorem failed_write_after_vote :
    ((openEmpty.performAll checksumIEEE fixedWidth [(.saveState votedA, .none)]).perform checksumIEEE fixedWidth
        (.saveSnapshot firstSnapshot) (.write 5)).disk.bytes =
      (openEmpty.performAll checksumIEEE fixedWidth [(.saveState votedA, .none)]).bytes :=
  ((failed_write_changes_nothing (openEmpty_reachable.performAll [(.saveState votedA, .none)])
    (.saveSnapshot firstSnapshot) 5).mpr fun both => absurd both.2.1 (by decide +kernel)).1

/-- The calls of a process that compacts its log. -/
def compacting : List (WriteCall × FileFault) :=
  [(.saveState votedA, .none), (.saveSnapshot firstSnapshot, .none), (.compact firstSnapshot, .none)]

/-- The first write after a compaction fails, and its rollback empties the file: what a later
`OpenWAL` finds has no vote, no term and no snapshot. -/
theorem failed_write_empties_compacted_log :
    ∃ disk, Reachable checksumIEEE fixedWidth disk ∧ disk.contents.state = votedA ∧
      openWAL checksumIEEE fixedWidth disk.bytes =
        .ok { contents := disk.contents, bytes := disk.bytes, offset := some disk.bytes.length } ∧
      (disk.perform checksumIEEE fixedWidth (.saveState votedA) (.write 0)).disk.bytes = [] ∧
      openWAL checksumIEEE fixedWidth
        (disk.perform checksumIEEE fixedWidth (.saveState votedA) (.write 0)).disk.bytes = .ok openEmpty :=
  ⟨openEmpty.performAll checksumIEEE fixedWidth compacting, openEmpty_reachable.performAll compacting,
    by decide +kernel, by decide +kernel, by decide +kernel, by decide +kernel⟩

/-! Crashes that cut the file. -/

/-- Any cut of a file that can be opened leaves a file that can be opened, with the records that
are whole; opening it again changes nothing. -/
theorem cut_file_recovers {raws : List RawRecord} {full : DiskWAL}
    (recovers : openWAL crc json (encodeAll (recordFormat crc) raws) = .ok full) {k : ℕ}
    (inside : k ≤ (encodeAll (recordFormat crc) raws).length) :
    ∃ whole ≤ raws.length, (encodeAll (recordFormat crc) (raws.take whole)).length ≤ k ∧
      (whole < raws.length → k < (encodeAll (recordFormat crc) (raws.take (whole + 1))).length) ∧
      ∃ records : List Record, (raws.take whole).map (RawRecord.decode json) = records.map .ok ∧
        ∃ recovered : DiskWAL, recovered.contents = replay Contents.empty records ∧
          recovered.bytes = encodeAll (recordFormat crc) (raws.take whole) ∧
          openWAL crc json ((encodeAll (recordFormat crc) raws).take k) = .ok recovered ∧
          openWAL crc json recovered.bytes = .ok recovered := by
  rw [openWAL_encodeAll] at recovers
  cases applied : applyAll (applyRecord json) Contents.empty raws with
  | error refusal => simp [applied] at recovers
  | ok contents =>
      obtain ⟨whole, within, fits, next, front, reached, frontApplied, scanned⟩ :=
        scan_take (recordFormat crc) applied inside
      obtain ⟨records, decoded, recovered⟩ := applyAll_applyRecord.mp frontApplied
      refine ⟨whole, within, fits, next, records, decoded, {
        contents := reached
        bytes := encodeAll (recordFormat crc) (raws.take whole)
        offset := some (encodeAll (recordFormat crc) (raws.take whole)).length },
        recover_replay recovered, rfl, ?_, by rw [openWAL_encodeAll, frontApplied]⟩
      have length : ((encodeAll (recordFormat crc) raws).take k).length = k := by
        rw [List.length_take, Nat.min_eq_left inside]
      have kept : (if decide ((encodeAll (recordFormat crc) (raws.take whole)).length < k) then
          truncateFile (encodeAll (recordFormat crc) (raws.take whole)).length
            ((encodeAll (recordFormat crc) raws).take k)
          else (encodeAll (recordFormat crc) raws).take k) =
          encodeAll (recordFormat crc) (raws.take whole) := by
        split
        · rw [truncateFile_of_le (fits.trans_eq length.symm), List.take_take, Nat.min_eq_left fits, front]
        · rename_i untorn
          have same : k = (encodeAll (recordFormat crc) (raws.take whole)).length := by
            rw [decide_eq_true_eq] at untorn
            omega
          rw [same, front]
      rw [openWAL, length, scanned]
      dsimp only
      rw [kept]

/-- The records of `votedA` and `firstSnapshot` as they stand in a file. -/
def twoRecords : List RawRecord :=
  [(Record.state votedA).encode fixedWidth, (Record.snapshot firstSnapshot).encode fixedWidth].filterMap
    Except.toOption

theorem cut_in_second_record :
    ∃ recovered, openWAL checksumIEEE fixedWidth ((encodeAll (recordFormat checksumIEEE) twoRecords).take 60) =
        .ok recovered ∧
      openWAL checksumIEEE fixedWidth recovered.bytes = .ok recovered := by
  have recovers : openWAL checksumIEEE fixedWidth (encodeAll (recordFormat checksumIEEE) twoRecords) = .ok {
      contents := { state := votedA, entries := [], snapshot := some firstSnapshot }
      bytes := encodeAll (recordFormat checksumIEEE) twoRecords
      offset := some (encodeAll (recordFormat checksumIEEE) twoRecords).length } := by
    decide +kernel
  obtain ⟨whole, _, _, _, records, _, recovered, _, _, first, again⟩ :=
    @cut_file_recovers checksumIEEE fixedWidth twoRecords _ recovers 60 (by decide +kernel)
  exact ⟨recovered, first, again⟩

/-! The object in memory and the one that is read back. -/

end DiskWAL

def WriteCall.Representable : WriteCall → Prop
  | .saveState state => state.Representable
  | .appendEntries entries => ∀ entry ∈ entries, entry.Representable
  | .replaceSuffix start entries => start < 2 ^ 64 ∧ ∀ entry ∈ entries, entry.Representable
  | .saveSnapshot snapshot | .compact snapshot => snapshot.Representable

def Contents.Representable (contents : Contents) : Prop :=
  contents.state.Representable ∧ ∀ entry ∈ contents.entries, entry.Representable

theorem Contents.empty_representable : Contents.empty.Representable := by
  refine ⟨⟨by decide, fun _ member => ?_, fun _ member => ?_, fun _ joint => ?_⟩, fun _ member => ?_⟩
  · cases member
  · cases member
  · cases joint
  · cases member

theorem Contents.Representable.effect {contents : Contents} (representable : contents.Representable)
    {record : Record} (written : record.Representable) : (record.effect contents).Representable := by
  obtain ⟨state, entries⟩ := representable
  cases record with
  | state saved => exact ⟨written, entries⟩
  | snapshot saved => exact ⟨state, entries⟩
  | entries added =>
      refine ⟨state, fun entry member => ?_⟩
      rcases List.mem_append.mp member with old | new
      · exact entries entry old
      · exact written entry new
  | replaceSuffix start added =>
      refine ⟨state, fun entry member => ?_⟩
      rcases List.mem_append.mp member with old | new
      · exact entries entry ((List.takeWhile_sublist _).subset old)
      · exact written.2 entry new

namespace WALStorage

/-- Everything in the object and in its file fits Go's types. -/
structure Representable (wal : WALStorage) : Prop where
  contents : wal.contents.Representable
  file : ∀ record ∈ wal.file, record.Representable

theorem openEmpty_representable : openEmpty.Representable where
  contents := Contents.empty_representable
  file _ member := nomatch member

theorem compact_representable {wal next : WALStorage} {snapshot : Snapshot} (representable : wal.Representable)
    (argument : snapshot.Representable) (compacted : wal.compact snapshot = .ok next) : next.Representable := by
  have kept : ∀ entry ∈ wal.contents.entries.filter (snapshot.lastIncludedIndex < ·.index),
      entry.Representable :=
    fun entry member => representable.contents.2 entry (List.mem_of_mem_filter member)
  obtain ⟨state, entries, _⟩ := compact_ok compacted
  constructor
  · unfold Contents.Representable
    rw [state, entries]
    exact ⟨representable.contents.1, kept⟩
  · rw [compact_file compacted]
    exact forall_mem_compactedFile representable.contents.1 argument kept

theorem appendRecord_representable {wal : WALStorage} {record : Record} (representable : wal.Representable)
    (argument : record.Representable) : (wal.appendRecord record).Representable where
  contents := representable.contents.effect argument
  file other member := by
    rcases List.mem_append.mp member with old | new
    · exact representable.file other old
    · cases List.mem_singleton.mp new
      exact argument

theorem perform_representable {wal next : WALStorage} {call : WriteCall} (representable : wal.Representable)
    (argument : call.Representable) (performed : wal.perform call = .ok next) : next.Representable := by
  cases call with
  | saveState state =>
      cases performed
      exact appendRecord_representable representable argument
  | appendEntries entries =>
      simp only [perform, appendEntries] at performed
      split at performed
      · cases performed
        exact representable
      · split at performed
        · cases performed
        · split at performed
          · cases performed
          · cases performed
            exact appendRecord_representable representable argument
  | replaceSuffix start entries =>
      simp only [perform, replaceSuffix] at performed
      split at performed
      · cases performed
      · cases performed
        exact appendRecord_representable representable argument
  | saveSnapshot snapshot =>
      cases performed
      exact appendRecord_representable representable argument
  | compact snapshot => exact compact_representable representable argument performed

end WALStorage

namespace DiskWAL

variable {crc : Bytes → UInt32} {json : SnapshotJSON} {disk : DiskWAL}

/-- The calls succeed or are refused; the file system does not fail. -/
def performCalls (crc : Bytes → UInt32) (json : SnapshotJSON) (disk : DiskWAL) (calls : List WriteCall) : DiskWAL :=
  disk.performAll crc json (calls.map (·, .none))

theorem performCalls_mirrors {wal : WALStorage} (mirrors : Mirrors crc json disk wal)
    (representable : wal.Representable) {calls : List WriteCall}
    (arguments : ∀ call ∈ calls, call.Representable) :
    ∃ final, Mirrors crc json (disk.performCalls crc json calls) final ∧ final.Representable := by
  induction calls generalizing disk wal with
  | nil => exact ⟨wal, mirrors, representable⟩
  | cons call rest ih =>
      obtain ⟨first, arguments⟩ := List.forall_mem_cons.mp arguments
      have step : disk.performCalls crc json (call :: rest) =
          (disk.perform crc json call .none).disk.performCalls crc json rest := rfl
      rw [step]
      rcases mirrors.perform call with same | ⟨next, performed, following⟩
      · rw [same]
        exact ih mirrors representable arguments
      · exact ih following (WALStorage.perform_representable representable first performed) arguments

theorem openEmpty_mirrors : Mirrors crc json openEmpty WALStorage.openEmpty where
  isOpen := Option.some_ne_none 0
  contents := rfl
  bytes := Encodes.nil

/-- What is read back from the file of a storage object is what the object holds in memory. -/
theorem reopened_equals_live (trips : json.RoundTrips) {start : DiskWAL} (fresh : openWAL crc json [] = .ok start)
    {calls : List WriteCall} (arguments : ∀ call ∈ calls, call.Representable) {reopened : DiskWAL}
    (succeeded : openWAL crc json (start.performCalls crc json calls).bytes = .ok reopened) :
    reopened.loadState = (start.performCalls crc json calls).loadState ∧
      reopened.loadEntries = (start.performCalls crc json calls).loadEntries ∧
      reopened.loadSnapshot = (start.performCalls crc json calls).loadSnapshot := by
  cases openWAL_nil.symm.trans fresh
  obtain ⟨wal, mirrors, representable⟩ :=
    performCalls_mirrors (@openEmpty_mirrors crc json) WALStorage.openEmpty_representable arguments
  obtain ⟨_, recovered, _, offset⟩ := (openWAL_encoded trips mirrors.bytes representable.file reopened).mp succeeded
  have same : reopened.contents = (openEmpty.performCalls crc json calls).contents := by
    rw [recover_replay recovered, wal.replays, mirrors.contents]
  have isOpen : reopened.offset ≠ none := offset ▸ Option.some_ne_none _
  refine ⟨?_, ?_, ?_⟩
  · rw [loadState, if_neg isOpen, loadState, if_neg mirrors.isOpen, same]
  · rw [loadEntries, if_neg isOpen, loadEntries, if_neg mirrors.isOpen, same]
  · rw [loadSnapshot, if_neg isOpen, loadSnapshot, if_neg mirrors.isOpen, same]

/-- Entries are replaced, a snapshot is saved and the log is compacted. -/
def mixedCalls : List WriteCall :=
  [.saveState votedA, .appendEntries [{ index := 1, term := 1, data := [] }, { index := 2, term := 1, data := [3] }],
    .replaceSuffix 2 [{ index := 2, term := 2, data := [4] }], .appendEntries [{ index := 9, term := 2, data := [] }],
    .saveSnapshot firstSnapshot, .compact firstSnapshot]

theorem reopened_after_mixed_calls :
    ∃ reopened, openWAL checksumIEEE fixedWidth (openEmpty.performCalls checksumIEEE fixedWidth mixedCalls).bytes =
        .ok reopened ∧
      reopened.loadEntries = .ok [{ index := 2, term := 2, data := [4] }] := by
  have succeeded : openWAL checksumIEEE fixedWidth
      (openEmpty.performCalls checksumIEEE fixedWidth mixedCalls).bytes = .ok {
        contents := {
          state := votedA, entries := [{ index := 2, term := 2, data := [4] }], snapshot := some firstSnapshot }
        bytes := (openEmpty.performCalls checksumIEEE fixedWidth mixedCalls).bytes
        offset := some (openEmpty.performCalls checksumIEEE fixedWidth mixedCalls).bytes.length } := by
    decide +kernel
  have arguments : ∀ call ∈ mixedCalls, call.Representable := by
    simp [mixedCalls, WriteCall.Representable, PersistentState.Representable, LogEntry.Representable,
      Snapshot.Representable, Membership.Representable, Configuration.Representable, IsByteString, votedA,
      firstSnapshot]
  refine ⟨_, succeeded, ?_⟩
  rw [(reopened_equals_live fixedWidth_roundTrips openWAL_nil arguments succeeded).2.1]
  decide +kernel

end DiskWAL

end Raftiq
