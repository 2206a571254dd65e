import Raftiq.Raft.Bootstrap
import Raftiq.Raft.StoredLog
import Raftiq.Storage.Openable

namespace Raftiq

/-- A record is written and synced, or it is not written at all: it may be too large, and a crash
may strike after it. -/
def Fault.Completes (fault : Fault) : Prop :=
  fault = .none ∨ fault = .writeFails ∨ fault = .crash

instance : DecidablePred Fault.Completes :=
  fun fault => inferInstanceAs (Decidable (fault = .none ∨ fault = .writeFails ∨ fault = .crash))

namespace WALStorage

variable {wal : WALStorage} {fault : Fault}

theorem writeSync_completes {write : WALStorage → Except StorageError WALStorage} (completes : fault.Completes) :
    (∃ error, wal.writeSync write fault = .failed error wal) ∨ ∃ written, write wal = .ok written ∧
      (wal.writeSync write fault = .ok written.sync ∨ wal.writeSync write fault = .crashed written) := by
  unfold writeSync
  cases accepted : write wal with
  | error error => exact Or.inl ⟨error, rfl⟩
  | ok written =>
      rcases completes with rfl | rfl | rfl
      · exact Or.inr ⟨written, rfl, Or.inl rfl⟩
      · exact Or.inl ⟨.write, rfl⟩
      · exact Or.inr ⟨written, rfl, Or.inr rfl⟩

theorem compactDurably_cases (wal : WALStorage) (snapshot : Snapshot) (fault : Fault) :
    (∃ error, wal.compactDurably snapshot fault = .failed error wal) ∨
      wal.compactDurably snapshot fault = .crashed wal ∨
      ∃ compacted, wal.compact snapshot = .ok compacted ∧ wal.compactDurably snapshot fault = .ok compacted := by
  unfold compactDurably
  cases accepted : wal.compact snapshot with
  | error error => exact Or.inl ⟨error, rfl⟩
  | ok compacted =>
      cases fault with
      | none => exact Or.inr (Or.inr ⟨compacted, rfl, rfl⟩)
      | crash => exact Or.inr (Or.inl rfl)
      | writeFails | syncFails | diskFull => exact Or.inl ⟨.write, rfl⟩

end WALStorage

/-- The stored entries stand in a row that reaches from the log's boundary to its end. -/
def Log.CoveredBy (log : Log) (stored : List LogEntry) : Prop :=
  ∃ base, Numbered base stored ∧
    (log.entries ≠ [] → base ≤ log.lastIncludedIndex ∧ log.lastIndex ≤ base + stored.length)

namespace Log.CoveredBy

variable {log : Log} {stored new : List LogEntry} {first : LogEntry} {rest : List LogEntry}

/-- A log with entries is covered by entries. -/
theorem stored_ne_nil (covered : log.CoveredBy stored) (some : log.entries ≠ []) : stored ≠ [] := by
  obtain ⟨base, _, covers⟩ := covered
  obtain ⟨low, high⟩ := covers some
  rintro rfl
  have length := List.length_pos_iff.mpr some
  rw [log.lastIndex_eq, List.length_nil] at high
  omega

/-- Where the stored entries end up when more are appended. -/
theorem appended (covered : log.CoveredBy stored) (valid : validateEntries (first :: rest) = .ok ())
    (fits : validateAppend stored (first :: rest) = .ok ()) :
    ∃ base, Numbered base (stored ++ first :: rest) ∧ first.index = base + stored.length + 1 ∧
      (log.entries ≠ [] → base ≤ log.lastIncludedIndex ∧ log.lastIndex ≤ base + stored.length) := by
  have numbered := Numbered.of_validates valid
  have positive := (validateEntries_cons.mp valid).1
  cases ends : stored.getLast? with
  | none =>
      have none := List.getLast?_eq_none_iff.mp ends
      subst none
      refine ⟨first.index - 1, numbered, ?_, fun some => absurd rfl (covered.stored_ne_nil some)⟩
      rw [List.length_nil]
      omega
  | some last =>
      obtain ⟨base, row, covers⟩ := covered
      rw [validateAppend_cons ends, row.getLast?_index ends] at fits
      refine ⟨base, Numbered.append_iff.mpr ⟨row, ?_⟩, fits, covers⟩
      rwa [fits, Nat.add_sub_cancel] at numbered

/-- The storage takes entries that the log refuses. -/
theorem grow_stored (covered : log.CoveredBy stored) (valid : validateEntries (first :: rest) = .ok ())
    (fits : validateAppend stored (first :: rest) = .ok ()) : log.CoveredBy (stored ++ first :: rest) := by
  obtain ⟨base, row, _, covers⟩ := covered.appended valid fits
  refine ⟨base, row, fun some => ?_⟩
  obtain ⟨low, high⟩ := covers some
  rw [List.length_append]
  exact ⟨low, high.trans (by omega)⟩

/-- Log and storage take the same entries. -/
theorem grow (covered : log.CoveredBy stored) (valid : validateEntries (first :: rest) = .ok ())
    (fits : validateAppend stored (first :: rest) = .ok ()) (next : first.index = log.lastIndex + 1)
    {grown : Log} (boundary : grown.lastIncludedIndex = log.lastIncludedIndex)
    (entries : grown.entries = log.entries ++ first :: rest) : grown.CoveredBy (stored ++ first :: rest) := by
  obtain ⟨base, row, index, covers⟩ := covered.appended valid fits
  refine ⟨base, row, fun _ => ?_⟩
  have last := log.lastIndex_eq
  rw [grown.lastIndex_eq, boundary, entries, List.length_append, List.length_append]
  by_cases none : log.entries = []
  · rw [none, List.length_nil] at last ⊢
    omega
  · obtain ⟨low, high⟩ := covers none
    omega

theorem numbered_kept {base start : ℕ} (row : Numbered base stored) (low : base < start)
    (high : start ≤ base + stored.length) :
    Numbered base (stored.takeWhile (·.index < start)) ∧
      (stored.takeWhile (·.index < start)).length = start - 1 - base := by
  rw [row.takeWhile_index]
  refine ⟨row.take _, ?_⟩
  rw [List.length_take]
  omega

/-- Replacing a suffix that begins inside the log leaves the stored entries in a row. -/
theorem replaced (covered : log.CoveredBy stored) {start : ℕ} {existing : LogEntry}
    (held : log.get start = some existing) (above : log.lastIncludedIndex < start)
    (valid : validateEntries (first :: rest) = .ok ()) (index : first.index = start) :
    ∃ base, base ≤ log.lastIncludedIndex ∧ Numbered base (replaceSuffixCopy stored start (first :: rest)) ∧
      base + (replaceSuffixCopy stored start (first :: rest)).length = start - 1 + (first :: rest).length := by
  have reached := Log.get_le_lastIndex held
  have some : log.entries ≠ [] := by
    intro none
    rw [log.lastIndex_eq, none, List.length_nil] at reached
    omega
  obtain ⟨base, row, covers⟩ := covered
  obtain ⟨low, high⟩ := covers some
  obtain ⟨kept, length⟩ := numbered_kept row (low.trans_lt above) (reached.trans high)
  have numbered := Numbered.of_validates valid
  rw [index] at numbered
  refine ⟨base, low, Numbered.append_iff.mpr ⟨kept, ?_⟩, ?_⟩
  · rw [length]
    have start' : base + (start - 1 - base) = start - 1 := by omega
    rwa [start']
  · rw [replaceSuffixCopy, List.length_append, length]
    omega

/-- A log without entries needs nothing but a row. -/
theorem of_nil {base : ℕ} (none : log.entries = []) (row : Numbered base stored) : log.CoveredBy stored :=
  ⟨base, row, fun some => absurd none some⟩

theorem numbered_drop {base : ℕ} (row : Numbered base stored) (n : ℕ) :
    ∃ start, Numbered start (stored.drop n) := by
  rcases Nat.le_total n stored.length with short | long
  · exact ⟨base + n, row.drop n short⟩
  · rw [List.drop_of_length_le long]
    exact ⟨0, trivial⟩

/-- Compaction on both sides; a snapshot that does not fit leaves the log without entries. -/
theorem compacted (covered : log.CoveredBy stored) {after : Log} {index : ℕ}
    (ahead : log.lastIncludedIndex ≤ index) (same : after.lastIncludedIndex = index)
    (entries : after.entries = log.entries.filter (index < ·.index) ∨ after.entries = []) :
    after.CoveredBy (stored.filter (index < ·.index)) := by
  obtain ⟨base, row, covers⟩ := covered
  rw [row.filter_index]
  by_cases none : after.entries = []
  · obtain ⟨start, dropped⟩ := numbered_drop row (index - base)
    exact of_nil none dropped
  · have kept := entries.resolve_right none
    rw [log.numbered.filter_index] at kept
    have length := congrArg List.length kept
    have positive := List.length_pos_iff.mpr none
    rw [List.length_drop] at length
    have some : log.entries ≠ [] := by
      intro empty
      rw [empty, List.length_nil] at length
      omega
    obtain ⟨low, high⟩ := covers some
    rw [log.lastIndex_eq] at high
    refine ⟨base + (index - base), row.drop _ (by omega), fun _ => ?_⟩
    rw [after.lastIndex_eq, same, length, List.length_drop]
    omega

end Log.CoveredBy

/-- The snapshot is not older than the stored one. -/
def WALStorage.Advances (wal : WALStorage) (snapshot : Snapshot) : Prop :=
  ∀ stored, wal.contents.snapshot = some stored → stored.lastIncludedIndex ≤ snapshot.lastIncludedIndex ∧
    (stored.lastIncludedIndex = snapshot.lastIncludedIndex →
      stored.lastIncludedTerm = snapshot.lastIncludedTerm)

instance (wal : WALStorage) (snapshot : Snapshot) : Decidable (wal.Advances snapshot) :=
  inferInstanceAs (Decidable (∀ stored ∈ wal.contents.snapshot,
    stored.lastIncludedIndex ≤ snapshot.lastIncludedIndex ∧
      (stored.lastIncludedIndex = snapshot.lastIncludedIndex →
        stored.lastIncludedTerm = snapshot.lastIncludedTerm)))

theorem WALStorage.Openable.saveSnapshot {wal : WALStorage} {snapshot : Snapshot} (openable : wal.Openable)
    (positive : 0 < snapshot.lastIncludedIndex) (advances : wal.Advances snapshot) :
    (wal.appendRecord (.snapshot snapshot)).Openable := by
  refine openable.appendRecord trivial ?_
  change validateRecoveredSnapshot wal.contents.snapshot snapshot = .ok ()
  unfold validateRecoveredSnapshot
  rw [if_neg (Nat.ne_of_gt positive)]
  cases stored : wal.contents.snapshot with
  | none => rfl
  | some current =>
      obtain ⟨index, term⟩ := advances current stored
      dsimp only
      rw [if_neg (not_lt.mpr index), if_neg]
      rintro ⟨same, other⟩
      exact other (term same.symm).symm

namespace RaftNode

/-- The storage can be opened again, and it stays so with what the node may write next. -/
structure Reopens (node : RaftNode) : Prop where
  openable : node.storage.Openable
  membership : node.persistent.membership.Decodable
  covered : node.log.CoveredBy node.storage.contents.entries
  above : node.log.lastIncludedIndex ≤ node.storage.contents.loadSnapshot.lastIncludedIndex

variable {node after : RaftNode} {fault termFault : Fault}

theorem MaySave.decodable {state : PersistentState} (may : node.MaySave state)
    (membership : node.persistent.membership.Decodable) : state.membership.Decodable := by
  rcases may with same | ⟨entry, next⟩
  · exact same ▸ membership
  · exact nextMembership_decodable next

theorem SavesStates.reopens (saves : node.SavesStates after) (reopens : node.Reopens) : after.Reopens := by
  induction saves with
  | refl => exact reopens
  | frame _ storage log persistent ih =>
      constructor
      · exact storage ▸ ih.openable
      · exact persistent ▸ ih.membership
      · exact storage ▸ log ▸ ih.covered
      · exact storage ▸ log ▸ ih.above
  | @save middle after _ state may fault durable saved ih =>
      have decodable := may.decodable ih.membership
      have openable : (middle.storage.appendRecord (.state state)).Openable := ih.openable.appendRecord decodable rfl
      unfold persistState WALStorage.writeSync WALStorage.saveState at saved
      cases fault with
      | crash => cases saved
      | none =>
          rw [← (Outcome.done.inj saved).1]
          exact ⟨openable, decodable, ih.covered, ih.above⟩
      | writeFails =>
          rw [← (Outcome.done.inj saved).1]
          exact ih
      | syncFails | diskFull =>
          rw [← (Outcome.done.inj saved).1]
          exact ⟨openable, ih.membership, ih.covered, ih.above⟩

theorem SavesStatesLast.openable {wal : WALStorage} (last : node.SavesStatesLast wal) (reopens : node.Reopens) :
    wal.Openable := by
  obtain ⟨middle, state, saves, may, rfl⟩ := last
  have kept := saves.reopens reopens
  exact kept.openable.appendRecord (may.decodable kept.membership) rfl

end RaftNode

/-- However a section ends, the storage can be opened again. -/
def Outcome.Reopens {α : Type} (outcome : Outcome α) : Prop :=
  outcome.Ensures (fun after _ => after.Reopens) WALStorage.Openable

theorem Outcome.SavesStates.reopens {α : Type} {outcome : Outcome α} {node : RaftNode}
    (saves : outcome.SavesStates node) (reopens : node.Reopens) : outcome.Reopens :=
  saves.mono (fun _ _ saves => saves.reopens reopens) fun _ last => last.openable reopens

namespace RaftNode

variable {node after : RaftNode} {fault termFault : Fault}

/-- Entries that the storage accepts can be read back. -/
theorem Reopens.appendEntries {first : LogEntry} {rest : List LogEntry} (reopens : node.Reopens)
    (valid : validateEntries (first :: rest) = .ok ())
    (fits : validateAppend node.storage.contents.entries (first :: rest) = .ok ()) :
    (node.storage.appendRecord (.entries (first :: rest))).Openable := by
  refine reopens.openable.appendRecord valid ?_
  simp only [Record.validateRecovered, valid]
  exact fits

theorem propose_reopens (reopens : node.Reopens) (data : Bytes) (completes : fault.Completes) :
    (node.propose data fault).Reopens := by
  unfold propose
  split
  · exact reopens
  · dsimp only
    rcases node.storage.writeSync_completes completes with ⟨error, failed⟩ | ⟨written, accepted, which⟩
    · rw [failed]
      cases error with
      | diskFull => exact ⟨reopens.openable, reopens.membership, reopens.covered, reopens.above⟩
      | _ => exact reopens
    · obtain ⟨rfl, valid, fits⟩ := (WALStorage.appendEntries_iff (List.cons_ne_nil _ _)).mp accepted
      have openable := reopens.appendEntries valid fits
      rcases which with done | crashed
      · rw [done]
        rcases node.log.append_cases ⟨node.log.lastIndex + 1, node.persistent.currentTerm, data⟩ with
          ⟨log, appended, _, grown, boundary, _⟩ | ⟨other, _⟩
        · dsimp only
          rw [appended]
          refine ⟨openable, reopens.membership, ?_, ?_⟩
          · exact reopens.covered.grow valid fits rfl boundary grown
          · exact boundary.trans_le reopens.above
        · exact absurd rfl other
      · rw [crashed]
        exact openable

theorem publish_missing_reopens (reopens : node.Reopens) {first : LogEntry} {rest : List LogEntry}
    (valid : validateEntries (first :: rest) = .ok ())
    (fits : validateAppend node.storage.contents.entries (first :: rest) = .ok ()) :
    ({ node with storage := (node.storage.appendRecord (.entries (first :: rest))).sync }.publishEntries
      node.log (first :: rest)).Reopens := by
  have openable := reopens.appendEntries valid fits
  unfold publishEntries
  by_cases next : first.index = node.log.lastIndex + 1
  · have numbered : Numbered node.log.lastIndex (first :: rest) := by
      refine ⟨next, ?_⟩
      rw [← next]
      exact (validateEntries_cons.mp valid).2
    obtain ⟨grown, each, all, boundary⟩ := appendEach_numbered numbered
    rw [each]
    exact ⟨openable, reopens.membership, reopens.covered.grow valid fits next boundary all,
      boundary.trans_le reopens.above⟩
  · obtain ⟨error, refused⟩ := appendEach_refused node.log rest next
    rw [refused]
    exact ⟨openable, reopens.membership, reopens.covered.grow_stored valid fits, reopens.above⟩

/-- A conflict lies above the boundary, or the storage refuses to replace it. -/
theorem Reopens.above_boundary (reopens : node.Reopens) {start : ℕ} {entries : List LogEntry}
    (fits : validateReplaceSuffix node.storage.contents.snapshot start entries = .ok ()) :
    node.log.lastIncludedIndex < start := by
  obtain ⟨positive, uncovered, _⟩ := validateReplaceSuffix_iff.mp fits
  have above := reopens.above
  unfold Contents.loadSnapshot at above
  cases stored : node.storage.contents.snapshot with
  | none =>
      rw [stored] at above
      exact above.trans_lt positive
  | some snapshot =>
      rw [stored] at above
      exact above.trans_lt (uncovered snapshot stored)

theorem Reopens.replaceSuffix (reopens : node.Reopens) {start : ℕ} {first existing : LogEntry}
    {rest : List LogEntry} (index : first.index = start) (held : node.log.get start = some existing)
    (fits : validateReplaceSuffix node.storage.contents.snapshot start (first :: rest) = .ok ()) :
    (node.storage.appendRecord (.replaceSuffix start (first :: rest))).Openable := by
  obtain ⟨_, _, valid, _⟩ := validateReplaceSuffix_iff.mp fits
  obtain ⟨base, _, row, _⟩ := reopens.covered.replaced held (reopens.above_boundary fits) valid index
  refine reopens.openable.appendRecord trivial ?_
  simp only [Record.validateRecovered, fits]
  exact row.validates

theorem publish_conflict_reopens (reopens : node.Reopens) {start : ℕ} {first existing : LogEntry}
    {rest : List LogEntry} (index : first.index = start) (held : node.log.get start = some existing)
    (fits : validateReplaceSuffix node.storage.contents.snapshot start (first :: rest) = .ok ()) :
    ({ node with storage := (node.storage.appendRecord (.replaceSuffix start (first :: rest))).sync
      }.publishEntries (node.log.truncateFrom start) (first :: rest)).Reopens := by
  have above := reopens.above_boundary fits
  obtain ⟨_, _, valid, _⟩ := validateReplaceSuffix_iff.mp fits
  obtain ⟨_, same⟩ := node.log.truncateFrom_above above
  have numbered := numbered_of_conflict above held index valid
  obtain ⟨grown, each, all, boundary⟩ := appendEach_numbered numbered
  obtain ⟨base, low, row, reach⟩ := reopens.covered.replaced held above valid index
  have last : grown.lastIndex = start - 1 + (first :: rest).length := by
    have cut := numbered.1
    rw [index, (node.log.truncateFrom start).lastIndex_eq] at cut
    rw [grown.lastIndex_eq, boundary, all, List.length_append]
    omega
  unfold publishEntries
  rw [each]
  refine ⟨reopens.replaceSuffix index held fits, reopens.membership, ⟨base, row, fun _ => ⟨?_, ?_⟩⟩, ?_⟩
  · exact low.trans_eq (same.symm.trans boundary.symm)
  · exact (last.trans reach.symm).le
  · exact (boundary.trans same).trans_le reopens.above

theorem reconcile_reopens (reopens : node.Reopens) (entries : List LogEntry) (completes : fault.Completes) :
    (node.reconcileReplicatedEntriesLocked entries fault).Reopens := by
  unfold reconcileReplicatedEntriesLocked
  cases found : firstNew node.log entries with
  | nothing => exact reopens
  | missing new =>
      obtain ⟨first, rest, rfl, _⟩ := firstNew_missing found
      dsimp only
      rcases node.storage.writeSync_completes completes with ⟨error, failed⟩ | ⟨written, accepted, which⟩
      · rw [failed]
        exact reopens
      · obtain ⟨rfl, valid, fits⟩ := (WALStorage.appendEntries_iff (List.cons_ne_nil first rest)).mp accepted
        rcases which with done | crashed
        · rw [done]
          exact publish_missing_reopens reopens valid fits
        · rw [crashed]
          exact reopens.appendEntries valid fits
  | conflict start new =>
      obtain ⟨first, rest, existing, rfl, _, index, held, _⟩ := firstNew_conflict found
      dsimp only
      rcases node.storage.writeSync_completes completes with ⟨error, failed⟩ | ⟨written, accepted, which⟩
      · rw [failed]
        exact reopens
      · obtain ⟨rfl, fits⟩ := WALStorage.replaceSuffix_iff.mp accepted
        rcases which with done | crashed
        · rw [done]
          exact publish_conflict_reopens reopens index held fits
        · rw [crashed]
          exact reopens.replaceSuffix index held fits

theorem acceptEntries_reopens (reopens : node.Reopens) (args : AppendEntriesArgs) (completes : fault.Completes) :
    (node.acceptEntries args fault).Reopens := by
  unfold acceptEntries
  split
  · exact reopens
  · have follower : { node with role := .follower, leaderID := args.leaderID }.Reopens :=
      ⟨reopens.openable, reopens.membership, reopens.covered, reopens.above⟩
    refine (reconcile_reopens follower args.entries completes).andThen fun middle result kept => ?_
    cases result with
    | error error => exact kept
    | ok _ => exact ⟨kept.openable, kept.membership, kept.covered, kept.above⟩

theorem appendEntries_reopens (reopens : node.Reopens) (args : AppendEntriesArgs) (completes : fault.Completes) :
    (node.appendEntries args termFault fault).Reopens :=
  node.appendEntries_of_accept termFault fault (fun _ saves _ => saves.reopens reopens)
    (fun _ last => last.openable reopens)
    fun _ saves _ => acceptEntries_reopens (saves.reopens reopens) args completes

theorem createSnapshot_reopens (reopens : node.Reopens) {index : ℕ} {data : Bytes} {compactFault : Fault}
    (completes : fault.Completes)
    (advances : ∀ entry, node.validateSnapshotRequestLocked index = .ok entry →
      node.storage.Advances ⟨index, entry.term, data⟩) :
    (node.createSnapshot index data fault compactFault).Reopens := by
  unfold createSnapshot
  cases valid : node.validateSnapshotRequestLocked index with
  | error error => exact reopens
  | ok entry =>
      obtain ⟨_, _, positive, found⟩ := validateSnapshotRequestLocked_ok valid
      obtain ⟨log, compactedLog, kept, boundary⟩ :=
        @Log.compact_found node.log ⟨index, entry.term, data⟩ entry found rfl
      have ahead := Log.boundary_le_of_get found
      have openable := @WALStorage.Openable.saveSnapshot node.storage ⟨index, entry.term, data⟩
        reopens.openable positive (advances entry valid)
      dsimp only
      unfold persistAndCompactSnapshotLocked
      rcases node.storage.writeSync_completes completes with ⟨error, failed⟩ | ⟨written, accepted, which⟩
      · rw [failed]
        exact reopens
      · cases accepted
        rcases which with done | crashed
        · rw [done]
          dsimp only
          rcases WALStorage.compactDurably_cases
            (node.storage.appendRecord (.snapshot ⟨index, entry.term, data⟩)).sync ⟨index, entry.term, data⟩
            compactFault with ⟨error, failed⟩ | lost | ⟨wal, compacted, works⟩
          · rw [failed]
            exact ⟨openable, reopens.membership, reopens.covered, ahead⟩
          · rw [lost]
            exact openable
          · rw [works]
            dsimp only
            rw [compactedLog]
            obtain ⟨base, row, _⟩ := reopens.covered
            obtain ⟨_, entries, snapshot, _⟩ := WALStorage.compact_ok compacted
            refine ⟨openable.sync.compact row compacted, reopens.membership, ?_, ?_⟩
            · change log.CoveredBy wal.contents.entries
              rw [entries]
              exact reopens.covered.compacted ahead boundary (Or.inl kept)
            · change log.lastIncludedIndex ≤ (wal.contents.snapshot.getD _).lastIncludedIndex
              rw [snapshot]
              exact boundary.le
        · rw [crashed]
          exact openable

theorem persistInstall_reopens (reopens : node.Reopens) {args : InstallSnapshotArgs} (completes : fault.Completes)
    (advances : node.log.lastIncludedIndex < args.lastIncludedIndex → node.storage.Advances args.snapshot) :
    (node.persistInstall args fault).Reopens := by
  unfold persistInstall
  dsimp only
  split
  · exact ⟨reopens.openable, reopens.membership, reopens.covered, reopens.above⟩
  · rename_i ahead
    split
    · exact ⟨reopens.openable, reopens.membership, reopens.covered, reopens.above⟩
    · have further := not_le.mp ahead
      have openable := reopens.openable.saveSnapshot (Nat.zero_lt_of_lt further) (advances further)
      rcases node.storage.writeSync_completes completes with ⟨error, failed⟩ | ⟨written, accepted, which⟩
      · rw [failed]
        exact ⟨reopens.openable, reopens.membership, reopens.covered, reopens.above⟩
      · cases accepted
        rcases which with done | crashed
        · rw [done]
          exact ⟨openable, reopens.membership, reopens.covered, further.le⟩
        · rw [crashed]
          exact openable

theorem installSnapshot_reopens (reopens : node.Reopens) {args : InstallSnapshotArgs}
    (completes : fault.Completes)
    (advances : node.Enters termFault args.term → node.log.lastIncludedIndex < args.lastIncludedIndex →
      node.storage.Advances args.snapshot) :
    (node.installSnapshot args termFault fault).Reopens := by
  refine node.installSnapshot_of_persist termFault fault (fun _ _ saves => saves.reopens reopens)
    (fun _ last => last.openable reopens) fun middle saves enters => ?_
  obtain ⟨log, _, snapshot⟩ := saves.sameLog
  refine persistInstall_reopens (saves.reopens reopens) completes fun further => ?_
  rw [log] at further
  unfold WALStorage.Advances
  rw [snapshot]
  exact advances enters further

/-- The last section of `InstallSnapshot` compacts the storage to the snapshot that is stored. -/
theorem finishInstall_reopens (reopens : node.Reopens) (install : PendingInstall) :
    (node.finishInstall install fault).Reopens := by
  unfold finishInstall
  dsimp only
  rcases node.storage.compactDurably_cases install.args.snapshot fault with
    ⟨error, failed⟩ | lost | ⟨wal, compacted, works⟩
  · rw [failed]
    exact reopens
  · rw [lost]
    exact reopens.openable
  · obtain ⟨base, row, _⟩ := reopens.covered
    obtain ⟨_, entries, snapshot, _, _, stored, found, index, _⟩ := WALStorage.compact_ok compacted
    have openable := reopens.openable.compact row compacted
    have loaded : wal.contents.loadSnapshot = install.args.snapshot := by
      simp only [Contents.loadSnapshot, snapshot, Option.getD_some]
    have ahead : node.log.lastIncludedIndex ≤ install.args.snapshot.lastIncludedIndex := by
      have above := reopens.above
      simpa only [Contents.loadSnapshot, found, Option.getD_some, index] using above
    have bound : ∀ log : Log, log.lastIncludedIndex = install.args.snapshot.lastIncludedIndex →
        log.lastIncludedIndex ≤ wal.contents.loadSnapshot.lastIncludedIndex := by
      intro log boundary
      rw [loaded]
      exact boundary.le
    have covers : ∀ log : Log, log.lastIncludedIndex = install.args.snapshot.lastIncludedIndex →
        (log.entries = node.log.entries.filter (install.args.snapshot.lastIncludedIndex < ·.index) ∨
          log.entries = []) → log.CoveredBy wal.contents.entries := by
      intro log boundary kept
      rw [entries]
      exact reopens.covered.compacted ahead boundary kept
    rw [works]
    dsimp only
    rcases Nat.lt_or_eq_of_le ahead with further | same
    · obtain ⟨log, restored, boundary, kept⟩ := Log.restoreSnapshot_ahead further
      rw [restored]
      exact ⟨openable, reopens.membership, covers log boundary kept, bound log boundary⟩
    · have unchanged := covers node.log same (Or.inl (by rw [← same, node.log.filter_boundary]))
      rcases Log.restoreSnapshot_boundary same.symm with restored | ⟨error, refused⟩
      · rw [restored]
        exact ⟨openable, reopens.membership, unchanged, bound _ same⟩
      · rw [refused]
        exact ⟨openable, reopens.membership, unchanged, bound _ same⟩

/-- The configuration that `BootstrapMembership` writes can be decoded if it is small enough. -/
def BootstrapsSmall (node : RaftNode) : Prop :=
  node.bootstrapVoters.length ≤ maxWALConfigurationVoters ∧
    ∀ voter ∈ node.bootstrapVoters, voter.length ≤ maxConfigurationNodeID

theorem foldl_addVoter_valid {ids voters : List NodeID} (nodup : voters.Nodup) (some : "" ∉ voters) :
    (ids.foldl addVoter voters).Nodup ∧ "" ∉ ids.foldl addVoter voters := by
  induction ids generalizing voters with
  | nil => exact ⟨nodup, some⟩
  | cons id rest ih =>
      rw [List.foldl_cons]
      unfold addVoter
      split
      · exact ih nodup some
      · rename_i nonempty
        split
        · exact ih nodup some
        · rename_i new
          refine ih (List.nodup_append.mpr ⟨nodup, List.nodup_singleton id, ?_⟩) ?_
          · rintro other member _ self rfl
            exact new (List.mem_singleton.mp self ▸ member)
          · rw [List.mem_append, List.mem_singleton]
            exact fun found => found.elim some fun same => nonempty same.symm

theorem bootstrap_decodable (small : node.BootstrapsSmall) :
    Membership.Decodable { current := { voters := node.bootstrapVoters }, joint := none } := by
  obtain ⟨nodup, some⟩ := @foldl_addVoter_valid (node.id :: node.peerIDs) [] List.nodup_nil (List.not_mem_nil)
  refine ⟨⟨small.1, fun voter member => ⟨fun empty => some (empty ▸ member), small.2 voter member⟩, nodup⟩, ?_⟩
  intro joint none
  cases none

theorem bootstrapMembership_reopens (reopens : node.Reopens) (fault : Fault)
    (small : node.Bootstraps → node.BootstrapsSmall) : (node.bootstrapMembership fault).Reopens := by
  by_cases writes : node.Bootstraps
  · exact (bootstrapMembership_writes writes fault).reopens
      ⟨reopens.openable, bootstrap_decodable (small writes), reopens.covered, reopens.above⟩
  · obtain ⟨result, idle⟩ := bootstrapMembership_idle writes fault
    rw [idle]
    exact reopens

end RaftNode

end Raftiq
