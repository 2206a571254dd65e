import Raftiq.CommitSafety
import Raftiq.Raft.Restart
import Raftiq.Raft.StoredLog

namespace Raftiq

/-- The storage accepts the first new entry because it is empty, and the log, which is
empty above another boundary, does not. -/
def RaftNode.FirstNew.Misplaced (log : Log) : FirstNew → Prop
  | .missing (first :: rest) => log.entries = [] ∧ validateEntries (first :: rest) = .ok () ∧
      first.index ≠ log.lastIndex + 1
  | _ => False

instance (log : Log) : DecidablePred (RaftNode.FirstNew.Misplaced log)
  | .missing (first :: rest) => inferInstanceAs (Decidable (log.entries = [] ∧
      validateEntries (first :: rest) = .ok () ∧ first.index ≠ log.lastIndex + 1))
  | .missing [] | .nothing | .conflict _ _ => .isFalse id

def Log.Misplaces (log : Log) (entries : List LogEntry) : Prop :=
  (RaftNode.firstNew log entries).Misplaced log

instance (log : Log) (entries : List LogEntry) : Decidable (log.Misplaces entries) :=
  inferInstanceAs (Decidable ((RaftNode.firstNew log entries).Misplaced log))

namespace RaftNode

variable {node after : RaftNode} {entries new : List LogEntry} {start : ℕ} {fault termFault : Fault}

/-- Publishing entries that follow the log, once the storage has them. -/
theorem publishEntries_stores (node : RaftNode) {saved : WALStorage} {log : Log}
    (same : log.lastIncludedIndex = node.log.lastIncludedIndex)
    (stored : saved.contents.entries = log.entries ++ new) (numbered : Numbered log.lastIndex new) :
    ({ node with storage := saved }.publishEntries log new).Ensures (fun after _ => after.StoresLog ∧
      after.storage = saved ∧ after.log.lastIncludedIndex = node.log.lastIncludedIndex)
      (fun _ => True) := by
  obtain ⟨grown, each, all, boundary⟩ := appendEach_numbered numbered
  unfold publishEntries
  rw [each]
  exact ⟨stored.trans all.symm, rfl, boundary.trans same⟩

theorem propose_works (stores : node.StoresLog) (data : Bytes) (works : fault.Works) :
    (node.propose data fault).Ensures (fun after _ => after.StoresLog ∧
      after.storage.contents.snapshot = node.storage.contents.snapshot ∧
      after.log.lastIncludedIndex = node.log.lastIncludedIndex) (fun _ => True) := by
  have takes := stores.takes_next node.persistent.currentTerm data
  unfold propose
  split
  · exact ⟨stores, rfl, rfl⟩
  · dsimp only
    rcases WALStorage.writeSync_works works takes with written | crashed
    · rw [written]
      rcases node.log.append_cases ⟨node.log.lastIndex + 1, node.persistent.currentTerm, data⟩ with
        ⟨log, appended, _, grown, boundary, _⟩ | ⟨other, _⟩
      · dsimp only
        rw [appended]
        refine ⟨?_, rfl, boundary⟩
        change node.storage.contents.entries ++ _ = log.entries
        rw [stores, grown]
      · exact absurd rfl other
    · rw [crashed]
      trivial

/-- New entries that the storage has taken go to the log as well, unless they are misplaced. -/
theorem publish_missing (stores : node.StoresLog) {first : LogEntry} {rest : List LogEntry}
    (validated : validateEntries (first :: rest) = .ok ())
    (fits : validateAppend node.storage.contents.entries (first :: rest) = .ok ()) :
    ({ node with storage := (node.storage.appendRecord (.entries (first :: rest))).sync }.publishEntries
      node.log (first :: rest)).Ensures
        (fun after _ => (after.StoresLog ↔ ¬ (node.log.entries = [] ∧
            validateEntries (first :: rest) = Except.ok () ∧ first.index ≠ node.log.lastIndex + 1)) ∧
          after.storage.contents.snapshot = node.storage.contents.snapshot ∧
          after.log.lastIncludedIndex = node.log.lastIncludedIndex) (fun _ => True) := by
  by_cases next : first.index = node.log.lastIndex + 1
  · have numbered : Numbered node.log.lastIndex (first :: rest) := by
      refine ⟨next, ?_⟩
      rw [← next]
      exact (validateEntries_cons.mp validated).2
    have stored : (node.storage.appendRecord (.entries (first :: rest))).sync.contents.entries =
        node.log.entries ++ first :: rest := congrArg (· ++ first :: rest) stores
    refine (node.publishEntries_stores rfl stored numbered).mono ?_ fun _ _ => trivial
    rintro after _ ⟨storesAfter, storage, boundary⟩
    refine ⟨⟨fun _ misplaced => misplaced.2.2 next, fun _ => storesAfter⟩, ?_, boundary⟩
    rw [storage]
    rfl
  · have none : node.log.entries = [] := by
      rw [stores] at fits
      cases ends : node.log.entries.getLast? with
      | none => exact List.getLast?_eq_none_iff.mp ends
      | some last =>
          rw [validateAppend_cons ends, node.log.numbered.getLast?_index ends, ← node.log.lastIndex_eq] at fits
          exact absurd fits next
    obtain ⟨error, refused⟩ := appendEach_refused node.log rest next
    unfold publishEntries
    rw [refused]
    exact ⟨⟨fun same => absurd same (stores.grown_ne (List.cons_ne_nil _ _)),
      absurd ⟨none, validated, next⟩⟩, rfl, rfl⟩

/-- A suffix that the storage has replaced is replaced in the log as well. -/
theorem publish_conflict (stores : node.StoresLog) {first existing : LogEntry} {rest : List LogEntry}
    (above : node.log.lastIncludedIndex ≤ node.storage.contents.loadSnapshot.lastIncludedIndex)
    (index : first.index = start) (held : node.log.get start = some existing)
    (fits : validateReplaceSuffix node.storage.contents.snapshot start (first :: rest) = .ok ()) :
    ({ node with storage := (node.storage.appendRecord (.replaceSuffix start (first :: rest))).sync
      }.publishEntries (node.log.truncateFrom start) (first :: rest)).Ensures
        (fun after _ => after.StoresLog ∧
          after.storage.contents.snapshot = node.storage.contents.snapshot ∧
          after.log.lastIncludedIndex = node.log.lastIncludedIndex) (fun _ => True) := by
  obtain ⟨positive, uncovered, validated, _⟩ := validateReplaceSuffix_iff.mp fits
  have beyond : node.log.lastIncludedIndex < start := by
    unfold Contents.loadSnapshot at above
    cases stored : node.storage.contents.snapshot with
    | none =>
        rw [stored] at above
        exact above.trans_lt positive
    | some snapshot =>
        rw [stored] at above
        exact above.trans_lt (uncovered snapshot stored)
  obtain ⟨kept, same⟩ := node.log.truncateFrom_above beyond
  have stored : (node.storage.appendRecord (.replaceSuffix start (first :: rest))).sync.contents.entries =
      (node.log.truncateFrom start).entries ++ first :: rest := by
    rw [kept]
    exact congrArg (replaceSuffixCopy · start (first :: rest)) stores
  refine (node.publishEntries_stores same stored
    (numbered_of_conflict beyond held index validated)).mono ?_ fun _ _ => trivial
  rintro after _ ⟨storesAfter, storage, boundary⟩
  refine ⟨storesAfter, ?_, boundary⟩
  rw [storage]
  rfl

theorem reconcile_works (stores : node.StoresLog) (entries : List LogEntry) (works : fault.Works)
    (above : node.log.lastIncludedIndex ≤ node.storage.contents.loadSnapshot.lastIncludedIndex) :
    (node.reconcileReplicatedEntriesLocked entries fault).Ensures
      (fun after _ => (after.StoresLog ↔ ¬ node.log.Misplaces entries) ∧
        after.storage.contents.snapshot = node.storage.contents.snapshot ∧
        after.log.lastIncludedIndex = node.log.lastIncludedIndex) (fun _ => True) := by
  unfold reconcileReplicatedEntriesLocked Log.Misplaces
  cases found : firstNew node.log entries with
  | nothing => exact ⟨⟨fun _ => not_false, fun _ => stores⟩, rfl, rfl⟩
  | missing new =>
      obtain ⟨first, rest, rfl, _⟩ := firstNew_missing found
      dsimp only
      rcases WALStorage.writeSync_works_iff
        (fun written => @WALStorage.appendEntries_iff node.storage _ written (List.cons_ne_nil first rest))
        works with ⟨⟨validated, fits⟩, written | crashed⟩ | ⟨refused, error, failed⟩
      · rw [written]
        exact publish_missing stores validated fits
      · rw [crashed]
        trivial
      · rw [failed]
        refine ⟨⟨fun _ misplaces => ?_, fun _ => stores⟩, rfl, rfl⟩
        obtain ⟨none, validated, _⟩ := misplaces
        rw [stores, none] at refused
        exact refused ⟨validated, validateAppend_nil _⟩
  | conflict start new =>
      obtain ⟨first, rest, existing, rfl, _, index, held, differ⟩ := firstNew_conflict found
      dsimp only
      rcases WALStorage.writeSync_works_iff
        (fun written => @WALStorage.replaceSuffix_iff node.storage (first :: rest) start written) works with
        ⟨fits, written | crashed⟩ | ⟨_, error, failed⟩
      · rw [written]
        exact (publish_conflict stores above index held fits).mono
          (fun _ _ kept => ⟨⟨fun _ => not_false, fun _ => kept.1⟩, kept.2⟩) fun _ _ => trivial
      · rw [crashed]
        trivial
      · rw [failed]
        exact ⟨⟨fun _ => not_false, fun _ => stores⟩, rfl, rfl⟩

theorem acceptEntries_works (stores : node.StoresLog) (args : AppendEntriesArgs) (works : fault.Works)
    (above : node.log.lastIncludedIndex ≤ node.storage.contents.loadSnapshot.lastIncludedIndex) :
    (node.acceptEntries args fault).Ensures
      (fun after _ => (after.StoresLog ↔ ¬ (node.matchesPrevious args ∧ node.log.Misplaces args.entries)) ∧
        after.storage.contents.snapshot = node.storage.contents.snapshot ∧
        after.log.lastIncludedIndex = node.log.lastIncludedIndex) (fun _ => True) := by
  unfold acceptEntries
  split
  · rename_i mismatch
    exact ⟨⟨fun _ => by simp [mismatch], fun _ => stores⟩, rfl, rfl⟩
  · rename_i agrees
    have reconciled := @reconcile_works { node with role := .follower, leaderID := args.leaderID }
      fault stores args.entries works above
    refine reconciled.andThen fun middle result kept => ?_
    rw [and_iff_right (not_not.mp agrees)]
    cases result with
    | error error => exact kept
    | ok _ => exact kept

theorem appendEntries_works (stores : node.StoresLog) (args : AppendEntriesArgs)
    (works : fault.Works)
    (above : node.log.lastIncludedIndex ≤ node.storage.contents.loadSnapshot.lastIncludedIndex) :
    (node.appendEntries args termFault fault).Ensures
      (fun after _ =>
        (after.StoresLog ↔ ¬ (node.Reconciles args termFault ∧ node.log.Misplaces args.entries)) ∧
        after.storage.contents.snapshot = node.storage.contents.snapshot ∧
        after.log.lastIncludedIndex = node.log.lastIncludedIndex) (fun _ => True) := by
  apply node.appendEntries_of_accept
  · intro after saves outside
    obtain ⟨log, _, snapshot⟩ := saves.sameLog
    refine ⟨⟨fun _ reconciles => outside reconciles.1.1, fun _ => saves.storesLog_iff.mpr stores⟩,
      snapshot, ?_⟩
    rw [log]
  · exact fun _ _ => trivial
  · intro middle saves enters
    obtain ⟨log, _, snapshot⟩ := saves.sameLog
    have aboveToo : middle.log.lastIncludedIndex ≤
        middle.storage.contents.loadSnapshot.lastIncludedIndex := by
      rw [log, Contents.loadSnapshot, snapshot]
      exact above
    refine (acceptEntries_works (saves.storesLog_iff.mpr stores) args works aboveToo).mono
      (fun last reply kept => ?_) fun _ lost => lost
    rw [log, snapshot] at kept
    simpa only [Reconciles, enters, matchesPrevious, log, true_and] using kept

/-- A snapshot compacts the log and the storage alike. -/
theorem createSnapshot_works (stores : node.StoresLog) (index : ℕ) (data : Bytes) {compactFault : Fault}
    (works : fault.Works) (worksToo : compactFault.Works) :
    (node.createSnapshot index data fault compactFault).Ensures
      (fun after _ => after = node ∨ after.StoresLog ∧
        after.storage.contents.loadSnapshot.lastIncludedIndex = after.log.lastIncludedIndex)
      (fun _ => True) := by
  unfold createSnapshot
  cases valid : node.validateSnapshotRequestLocked index with
  | error error => exact Or.inl rfl
  | ok entry =>
      obtain ⟨_, _, positive, found⟩ := validateSnapshotRequestLocked_ok valid
      obtain ⟨log, compactedLog, kept, boundary⟩ :=
        @Log.compact_found node.log ⟨index, entry.term, data⟩ entry found rfl
      let saved := (node.storage.appendRecord (.snapshot ⟨index, entry.term, data⟩)).sync
      obtain ⟨wal, compacted⟩ :=
        @WALStorage.compact_stored saved ⟨index, entry.term, data⟩ _ rfl rfl rfl positive
      obtain ⟨_, entries, snapshot, _⟩ := WALStorage.compact_ok compacted
      unfold persistAndCompactSnapshotLocked
      dsimp only
      rcases node.storage.saveSnapshot_works ⟨index, entry.term, data⟩ works with written | crashed
      · rw [written]
        dsimp only
        rcases WALStorage.compactDurably_accepted worksToo compacted with done | lost
        · rw [done]
          dsimp only
          rw [compactedLog]
          refine Or.inr ⟨?_, ?_⟩
          · change wal.contents.entries = log.entries
            rw [entries, kept]
            exact congrArg (List.filter (index < ·.index)) stores
          · change (wal.contents.snapshot.getD _).lastIncludedIndex = log.lastIncludedIndex
            rw [snapshot, boundary]
            rfl
        · rw [lost]
          trivial
      · rw [crashed]
        trivial

theorem persistInstall_works (args : InstallSnapshotArgs) (works : fault.Works) :
    (node.persistInstall args fault).Ensures
      (fun after result => after.log = node.log ∧
        after.storage.contents.entries = node.storage.contents.entries ∧
        match result with
        | .replied _ => after.storage.contents.snapshot = node.storage.contents.snapshot
        | .pending install => install.args = args ∧ after.storage.contents.snapshot = some args.snapshot ∧
            node.log.lastIncludedIndex < args.lastIncludedIndex) (fun _ => True) := by
  unfold persistInstall
  dsimp only
  split
  · exact ⟨rfl, rfl, rfl⟩
  · rename_i ahead
    split
    · exact ⟨rfl, rfl, rfl⟩
    · rcases node.storage.saveSnapshot_works args.snapshot works with written | crashed
      · rw [written]
        exact ⟨rfl, rfl, rfl, rfl, not_le.mp ahead⟩
      · rw [crashed]
        trivial

/-- The stored snapshot is the one that the log begins with, or one of those that are being
installed. -/
def SnapshotFrom (node : RaftNode) (installs : List PendingInstall) : Prop :=
  node.storage.contents.loadSnapshot.lastIncludedIndex = node.log.lastIncludedIndex ∨
    ∃ install ∈ installs,
      install.args.lastIncludedIndex = node.storage.contents.loadSnapshot.lastIncludedIndex ∧
      install.args.lastIncludedTerm = node.storage.contents.loadSnapshot.lastIncludedTerm

/-- A snapshot that replaces the log does not leave entries above its index in the storage. -/
def KeepsSuffix (node : RaftNode) (install : PendingInstall) : Prop :=
  install.args.lastIncludedIndex = node.storage.contents.loadSnapshot.lastIncludedIndex →
    install.args.lastIncludedTerm = node.storage.contents.loadSnapshot.lastIncludedTerm →
      node.log.lastIncludedIndex < install.args.lastIncludedIndex →
        node.log.boundaryMatches install.args.snapshot ∨
          node.log.lastIndex ≤ install.args.lastIncludedIndex

theorem restored_entries {log : Log} {snapshot : Snapshot}
    (ahead : log.lastIncludedIndex < snapshot.lastIncludedIndex) :
    ∃ after, log.restoreSnapshot snapshot = .ok after ∧
      after.lastIncludedIndex = snapshot.lastIncludedIndex ∧
      (log.entries.filter (snapshot.lastIncludedIndex < ·.index) = after.entries ↔
        (log.boundaryMatches snapshot ∨ log.lastIndex ≤ snapshot.lastIncludedIndex)) := by
  rw [Log.restoreSnapshot_ok ahead]
  refine ⟨_, rfl, ?_⟩
  split
  · rename_i agrees
    exact ⟨rfl, fun _ => Or.inl agrees, fun _ => rfl⟩
  · rename_i disagrees
    refine ⟨rfl, ?_⟩
    change log.entries.filter _ = [] ↔ _
    rw [log.numbered.filter_index, List.drop_eq_nil_iff, or_iff_right disagrees, log.lastIndex_eq]
    omega

/-- A compaction is refused only to a snapshot that is not the stored one. -/
theorem compact_refused {snapshot : Snapshot} {error : StorageError}
    (refused : node.storage.compact snapshot = .error error)
    (index : snapshot.lastIncludedIndex = node.storage.contents.loadSnapshot.lastIncludedIndex)
    (term : snapshot.lastIncludedTerm = node.storage.contents.loadSnapshot.lastIncludedTerm) :
    node.storage.contents.loadSnapshot.lastIncludedIndex = 0 := by
  unfold Contents.loadSnapshot at index term ⊢
  cases found : node.storage.contents.snapshot with
  | none => rfl
  | some stored =>
      rw [found] at index term
      rcases Nat.eq_zero_or_pos stored.lastIncludedIndex with zero | positive
      · exact zero
      · obtain ⟨compacted, accepted⟩ :=
          WALStorage.compact_stored found index.symm term.symm (index.symm ▸ positive)
        rw [refused] at accepted
        cases accepted

theorem finishInstall_refused {installs : List PendingInstall} {install : PendingInstall}
    {error : StorageError} (refused : node.storage.compact install.args.snapshot = .error error)
    (above : node.log.lastIncludedIndex ≤ node.storage.contents.loadSnapshot.lastIncludedIndex)
    (accounted : node.SnapshotFrom installs) :
    node.KeepsSuffix install ∧ node.SnapshotFrom (installs.erase install) := by
  constructor
  · intro index term ahead
    have zero := compact_refused refused index term
    omega
  · rcases accounted with same | ⟨other, member, index, term⟩
    · exact Or.inl same
    · by_cases self : other = install
      · subst self
        have zero := compact_refused refused index term
        exact Or.inl (by omega)
      · exact Or.inr ⟨other, (List.mem_erase_of_ne self).mpr member, index, term⟩

theorem finishInstall_works {installs : List PendingInstall} {install : PendingInstall}
    (stores : node.StoresLog) (works : fault.Works)
    (above : node.log.lastIncludedIndex ≤ node.storage.contents.loadSnapshot.lastIncludedIndex)
    (accounted : node.SnapshotFrom installs) :
    (node.finishInstall install fault).Ensures
      (fun after _ => (after.StoresLog ↔ node.KeepsSuffix install) ∧
        after.log.lastIncludedIndex ≤ after.storage.contents.loadSnapshot.lastIncludedIndex ∧
        after.SnapshotFrom (installs.erase install)) (fun _ => True) := by
  unfold finishInstall
  dsimp only
  cases accepted : node.storage.compact install.args.snapshot with
  | error error =>
      obtain ⟨keeps, others⟩ := finishInstall_refused accepted above accounted
      have failed : node.storage.compactDurably install.args.snapshot fault = .failed error node.storage := by
        simp only [WALStorage.compactDurably, accepted]
      rw [failed]
      exact ⟨⟨fun _ => keeps, fun _ => stores⟩, above, others⟩
  | ok wal =>
      obtain ⟨_, entries, snapshot, _, _, stored, found, index, term⟩ := WALStorage.compact_ok accepted
      have loaded : wal.contents.loadSnapshot = install.args.snapshot := by
        simp only [Contents.loadSnapshot, snapshot, Option.getD_some]
      have held : node.storage.contents.loadSnapshot = stored := by
        simp only [Contents.loadSnapshot, found, Option.getD_some]
      rw [stores] at entries
      rcases WALStorage.compactDurably_accepted works accepted with done | lost
      · rw [done]
        dsimp only
        rw [held, index] at above
        rcases Nat.lt_or_eq_of_le above with ahead | same
        · obtain ⟨log, restored, boundary, iff⟩ := restored_entries ahead
          rw [restored]
          refine ⟨?_, ?_, Or.inl ?_⟩
          · change wal.contents.entries = log.entries ↔ _
            rw [entries, iff, KeepsSuffix, held, index, term]
            exact ⟨fun kept _ _ _ => kept, fun kept => kept rfl rfl ahead⟩
          · change log.lastIncludedIndex ≤ wal.contents.loadSnapshot.lastIncludedIndex
            rw [loaded, boundary]
          · change wal.contents.loadSnapshot.lastIncludedIndex = log.lastIncludedIndex
            rw [loaded, boundary]
        · have kept : wal.contents.entries = node.log.entries := by
            rw [entries, ← same, node.log.filter_boundary]
          have keeps : node.KeepsSuffix install := fun _ _ ahead => absurd same (Nat.ne_of_lt ahead)
          have loadedIndex : wal.contents.loadSnapshot.lastIncludedIndex = node.log.lastIncludedIndex := by
            rw [loaded, same]
          rcases Log.restoreSnapshot_boundary same.symm with restored | ⟨error, failed⟩
          · rw [restored]
            exact ⟨⟨fun _ => keeps, fun _ => kept⟩, loadedIndex.ge, Or.inl loadedIndex⟩
          · rw [failed]
            exact ⟨⟨fun _ => keeps, fun _ => kept⟩, loadedIndex.ge, Or.inl loadedIndex⟩
      · rw [lost]
        trivial

end RaftNode

namespace Process

variable {process next : Process} {event : Event} {observations : List Observation}

/-- Log and storage hold the same, but for snapshots that are being installed. -/
structure Durable (process : Process) : Prop where
  stores : process.node.StoresLog
  above : process.node.log.lastIncludedIndex ≤
    process.node.storage.contents.loadSnapshot.lastIncludedIndex
  accounted : process.node.SnapshotFrom process.installs

/-- The three sections that can make the log and the storage differ. -/
def KeepsDurable (process : Process) : Event → Prop
  | .receiveAppendEntries args _ termFault _ =>
      ¬ (process.node.Reconciles args termFault ∧ process.node.log.Misplaces args.entries)
  | .restoreSnapshot install false => process.node.SnapshotFrom (process.installs.erase install)
  | .finishInstall install _ => process.node.KeepsSuffix install
  | _ => True

instance (process : Process) : DecidablePred process.KeepsDurable
  | .receiveAppendEntries args _ termFault _ => inferInstanceAs (Decidable
      (¬ (((process.node.persistent.currentTerm ≤ args.term ∧
          (process.node.persistent.currentTerm < args.term → termFault = .none)) ∧
        process.node.matchesPrevious args) ∧ process.node.log.Misplaces args.entries)))
  | .restoreSnapshot install false => inferInstanceAs (Decidable
      (process.node.storage.contents.loadSnapshot.lastIncludedIndex = process.node.log.lastIncludedIndex ∨
        ∃ other ∈ process.installs.erase install,
          other.args.lastIncludedIndex =
              process.node.storage.contents.loadSnapshot.lastIncludedIndex ∧
            other.args.lastIncludedTerm = process.node.storage.contents.loadSnapshot.lastIncludedTerm))
  | .finishInstall install _ => inferInstanceAs (Decidable
      (install.args.lastIncludedIndex = process.node.storage.contents.loadSnapshot.lastIncludedIndex →
        install.args.lastIncludedTerm = process.node.storage.contents.loadSnapshot.lastIncludedTerm →
          process.node.log.lastIncludedIndex < install.args.lastIncludedIndex →
            process.node.log.boundaryMatches install.args.snapshot ∨
              process.node.log.lastIndex ≤ install.args.lastIncludedIndex))
  | .restoreSnapshot _ true | .startElection _ | .requestVotes | .receiveRequestVote _ _ _
  | .receiveVoteReply _ _ _ | .tryBecomeLeader | .propose _ _ | .replicateTo _
  | .receiveAppendReply _ _ _ _ | .pickCommitted _ _ | .sendApplied | .markApplied
  | .createSnapshot _ _ _ _ | .sendInstallSnapshot _ | .receiveInstallSnapshot _ _ _
  | .receiveInstallReply _ _ _ _ | .beginRead _ | .probeRead _ _ | .receiveProbeResult _ _ _ _
  | .cancelRead _ => .isTrue trivial

theorem Durable.of_same (durable : process.Durable) (stores : next.node.StoresLog)
    (snapshot : next.node.storage.contents.snapshot = process.node.storage.contents.snapshot)
    (boundary : next.node.log.lastIncludedIndex = process.node.log.lastIncludedIndex)
    (installs : next.installs = process.installs) : next.Durable where
  stores := stores
  above := by
    rw [boundary, Contents.loadSnapshot, snapshot]
    exact durable.above
  accounted := by
    unfold RaftNode.SnapshotFrom Contents.loadSnapshot
    rw [boundary, snapshot, installs]
    exact durable.accounted

/-- Sections that write states leave log, snapshot and entries alone. -/
theorem Durable.of_saves (durable : process.Durable) (saves : process.node.SavesStates next.node)
    (installs : next.installs = process.installs) : next.Durable := by
  obtain ⟨log, _, snapshot⟩ := saves.sameLog
  exact durable.of_same (saves.storesLog_iff.mpr durable.stores) snapshot
    (congrArg Log.lastIncludedIndex log) installs

/-- What the first section of `InstallSnapshot` leaves. -/
theorem receiveInstall_durable {args : InstallSnapshotArgs} {termFault saveFault : Fault}
    (durable : process.Durable) (works : saveFault.Works)
    (settled : process.settleInstall args (process.node.installSnapshot args termFault saveFault) =
      .running next observations) : next.Durable := by
  have ensures : (process.node.installSnapshot args termFault saveFault).Ensures
      (fun after result => after.log = process.node.log ∧
        after.storage.contents.entries = process.node.storage.contents.entries ∧
        match result with
        | .replied _ => after.storage.contents.snapshot = process.node.storage.contents.snapshot
        | .pending install => install.args = args ∧ after.storage.contents.snapshot = some args.snapshot ∧
            process.node.log.lastIncludedIndex < args.lastIncludedIndex) (fun _ => True) := by
    apply process.node.installSnapshot_of_persist
    · exact fun after _ saves => saves.sameLog
    · exact fun _ _ => trivial
    · intro middle saves _
      obtain ⟨log, entries, snapshot⟩ := saves.sameLog
      rw [← log, ← entries, ← snapshot]
      exact RaftNode.persistInstall_works args works
  cases installed : process.node.installSnapshot args termFault saveFault with
  | crashed wal =>
      rw [installed] at settled
      cases settled
  | done node result =>
      rw [installed] at settled ensures
      cases result with
      | replied reply =>
          cases settled
          obtain ⟨log, entries, snapshot⟩ := ensures
          have stores : node.StoresLog := by
            unfold RaftNode.StoresLog
            rw [log, entries]
            exact durable.stores
          exact durable.of_same stores snapshot (congrArg Log.lastIncludedIndex log) rfl
      | pending install =>
          cases settled
          obtain ⟨log, entries, same, snapshot, ahead⟩ := ensures
          have loaded : node.storage.contents.loadSnapshot = args.snapshot := by
            simp only [Contents.loadSnapshot, snapshot, Option.getD_some]
          constructor
          · change node.storage.contents.entries = node.log.entries
            rw [log, entries]
            exact durable.stores
          · change node.log.lastIncludedIndex ≤ node.storage.contents.loadSnapshot.lastIncludedIndex
            rw [log, loaded]
            exact ahead.le
          · refine Or.inr ⟨install, List.mem_cons_self, ?_⟩
            change _ = node.storage.contents.loadSnapshot.lastIncludedIndex ∧
              _ = node.storage.contents.loadSnapshot.lastIncludedTerm
            rw [loaded, same]
            exact ⟨rfl, rfl⟩

theorem SnapshotFrom.restored {node : RaftNode} {installs : List PendingInstall} {install : PendingInstall}
    (accounted : node.SnapshotFrom installs) :
    node.SnapshotFrom ({ install with restored := true } :: installs.erase install) := by
  rcases accounted with same | ⟨other, member, matching⟩
  · exact Or.inl same
  · by_cases self : other = install
    · subst self
      exact Or.inr ⟨_, List.mem_cons_self, matching⟩
    · exact Or.inr ⟨other, List.mem_cons_of_mem _ ((List.mem_erase_of_ne self).mpr member), matching⟩

/-- One section keeps log and storage together if and only if it is not one of the three that
part them. -/
theorem step_durable_iff (durable : process.Durable) (works : event.NoStorageError)
    (stepped : process.step event = some (.running next observations)) :
    next.Durable ↔ process.KeepsDurable event := by
  have always : ∀ {event : Event}, next.Durable → process.KeepsDurable event →
      (next.Durable ↔ process.KeepsDurable event) := fun kept keeps => ⟨fun _ => keeps, fun _ => kept⟩
  cases event with
  | propose data fault =>
      obtain ⟨stores, snapshot, boundary⟩ := step_ensures stepped
        (RaftNode.propose_works durable.stores data (works fault (by simp [Event.faults]))).forget
      exact always (durable.of_same stores snapshot boundary (settle_calls (Option.some.inj stepped)).1)
        trivial
  | receiveAppendEntries args purpose termFault logFault =>
      obtain ⟨iff, snapshot, boundary⟩ := step_ensures stepped
        (RaftNode.appendEntries_works durable.stores args (works logFault (by simp [Event.faults]))
          durable.above).forget
      have installs := (settle_calls (Option.some.inj stepped)).1
      exact ⟨fun kept => iff.mp kept.stores, fun keeps => durable.of_same (iff.mpr keeps) snapshot boundary installs⟩
  | createSnapshot index data saveFault compactFault =>
      have installs := (settle_calls (Option.some.inj stepped)).1
      rcases step_ensures stepped (RaftNode.createSnapshot_works durable.stores index data
        (works saveFault (by simp [Event.faults])) (works compactFault (by simp [Event.faults]))).forget
        with same | ⟨stores, index⟩
      · exact always (durable.of_same (same ▸ durable.stores) (by rw [same]) (by rw [same]) installs) trivial
      · exact always ⟨stores, index.ge, Or.inl index⟩ trivial
  | receiveInstallSnapshot args termFault saveFault =>
      exact always (receiveInstall_durable durable (works saveFault (by simp [Event.faults]))
        (Option.some.inj stepped)) trivial
  | restoreSnapshot install succeeds =>
      simp only [step] at stepped
      split at stepped
      · cases succeeds with
        | true =>
            cases stepped
            exact always ⟨durable.stores, durable.above, SnapshotFrom.restored durable.accounted⟩ trivial
        | false =>
            cases stepped
            exact ⟨fun kept => kept.accounted, fun keeps => ⟨durable.stores, durable.above, keeps⟩⟩
      · cases stepped
  | finishInstall install fault =>
      obtain ⟨iff, above, accounted⟩ := step_ensures stepped (RaftNode.finishInstall_works durable.stores
        (works fault (by simp [Event.faults])) durable.above durable.accounted).forget
      simp only [step] at stepped
      split at stepped
      · have installs := (settle_calls (Option.some.inj stepped)).1
        exact ⟨fun kept => iff.mp kept.stores,
          fun keeps => ⟨iff.mpr keeps, above, installs.symm ▸ accounted⟩⟩
      · cases stepped
  | _ =>
      refine always (durable.of_saves (step_ensures stepped (process.effect_saves rfl)) ?_) trivial
      rcases (step_calls stepped).1 with same | ⟨_, _, _, other⟩ | ⟨_, _, other⟩ | ⟨_, _, other⟩
      · exact same
      · cases other
      · cases other
      · cases other

/-- A node that starts without a snapshot, or without entries, starts with both in agreement. -/
theorem start_durable {id : NodeID} {store : WALStorage} {node : RaftNode}
    (started : RaftNode.newRaftNodeWithStorage id store = .ok node)
    (clean : store.contents.loadSnapshot.lastIncludedIndex = 0 ∨ store.contents.entries = [])
    (peerIDs : List NodeID) (canRestore : Bool) :
    (start (node.configure peerIDs canRestore)).Durable := by
  unfold RaftNode.newRaftNodeWithStorage at started
  cases restored : RaftNode.restoreLog store.contents with
  | error error => simp [restored] at started
  | ok log =>
      rw [restored] at started
      cases started
      obtain ⟨boundary, which⟩ := RaftNode.restoreLog_entries restored
      refine ⟨?_, boundary.le, Or.inl boundary.symm⟩
      change store.contents.entries = log.entries
      rcases which with ⟨kept, _⟩ | ⟨none, positive, _⟩
      · rcases clean with zero | empty
        · rw [kept, zero, List.drop_zero]
        · rw [kept, empty, List.drop_nil]
      · rw [none]
        exact clean.resolve_left (Nat.ne_of_gt positive)

/-- In runs without the three sections that part them, the stored entries are those of the
log, and the stored snapshot is the log's boundary once no installation is in progress. -/
theorem durable_log {id : NodeID} {store : WALStorage} {node : RaftNode}
    (started : RaftNode.newRaftNodeWithStorage id store = .ok node)
    (clean : store.contents.loadSnapshot.lastIncludedIndex = 0 ∨ store.contents.entries = [])
    (peerIDs : List NodeID) (canRestore : Bool) {process : Process}
    (reached : Reaches advance (fun process event => event.NoStorageError ∧ process.KeepsDurable event)
      (start (node.configure peerIDs canRestore)) process) :
    process.node.storage.contents.entries = process.node.log.entries ∧
      (process.node.storage.contents.loadSnapshot.lastIncludedIndex = process.node.log.lastIncludedIndex ∨
        ∃ install ∈ process.installs, install.args.lastIncludedIndex =
          process.node.storage.contents.loadSnapshot.lastIncludedIndex) := by
  have durable : process.Durable := by
    refine reached.invariant Durable (start_durable started clean peerIDs canRestore) ?_
    rintro before event after kept ⟨works, keeps⟩ advanced
    obtain ⟨_, stepped⟩ := advance_running advanced
    exact (step_durable_iff kept works stepped).mpr keeps
  refine ⟨durable.stores, durable.accounted.imp_right ?_⟩
  rintro ⟨install, member, index, _⟩
  exact ⟨install, member, index⟩

/-- A follower applies two entries, compacts them and goes on with a third. -/
theorem durable_log_follower :
    ∃ process : Process, process.installs = [] ∧ process.node.log.entries = [⟨3, 1, [9]⟩] ∧
      process.node.log.lastIncludedIndex = 2 ∧
      process.node.storage.contents.entries = process.node.log.entries := by
  have run : ∃ node, RaftNode.newRaftNodeWithStorage "B" (Cluster.trio.bootstrapped "B") = .ok node ∧
      ∃ process, Reaches advance (fun process event => event.NoStorageError ∧ process.KeepsDurable event)
        (start (node.configure ["A", "C"] true)) process ∧
        process.installs = [] ∧ process.node.log.entries = [⟨3, 1, [9]⟩] ∧
          process.node.log.lastIncludedIndex = 2 :=
    ⟨_, rfl, Reaches.of_leadsTo
      (fun process event => decide (event.NoStorageError ∧ process.KeepsDurable event))
      (fun _ _ => of_decide_eq_true)
      [.receiveAppendEntries ⟨1, "A", 0, 0, [⟨1, 1, [7]⟩, ⟨2, 1, [8]⟩], 0⟩ .replication .none .none,
        .receiveAppendEntries ⟨1, "A", 2, 1, [], 2⟩ .replication .none .none,
        .pickCommitted .none .none, .sendApplied, .markApplied,
        .pickCommitted .none .none, .sendApplied, .markApplied,
        .createSnapshot 2 [5] .none .none,
        .receiveAppendEntries ⟨1, "A", 2, 1, [⟨3, 1, [9]⟩], 2⟩ .replication .none .none]
      (by decide +kernel)⟩
  obtain ⟨node, started, process, reached, none, entries, boundary⟩ := run
  exact ⟨process, none, entries, boundary, (durable_log started (Or.inl rfl) ["A", "C"] true reached).1⟩

end Process

namespace Cluster

/-- `A` commits two entries with `B`.  `B` applies and compacts them, and then receives the
call with entry 1 once more: its storage, which holds no entries, takes entry 1 again, and its
log, which begins at 2, does not. -/
theorem redelivery_parts_log_and_storage : ∃ (world : World) (process : Process),
    Reaches trio.step (fun _ action => action.regular) trio.initial world ∧
      world.host "B" = .up process ∧ process.installs = [] ∧ process.node.log.entries = [] ∧
      process.node.storage.contents.entries = [⟨1, 1, [7]⟩] := by
  have run : ∃ world, Reaches trio.step (fun _ action => action.regular) trio.initial world ∧
      (world.host "B").process.any (fun process => process.installs = [] ∧
        process.node.log.entries = [] ∧ process.node.storage.contents.entries = [⟨1, 1, [7]⟩]) :=
    Reaches.of_leadsTo (fun _ action => action.regular) (fun _ _ regular => regular)
      (commitOne ++
        ([.act "A" (.propose [8] .none), .act "A" (.replicateTo "B"),
          .act "B" (.receiveAppendEntries ⟨1, "A", 1, 1, [⟨2, 1, [8]⟩], 1⟩ .replication .none .none),
          .act "A" (.receiveAppendReply "B" ⟨1, "A", 1, 1, [⟨2, 1, [8]⟩], 1⟩ ⟨1, "B", true⟩ .none),
          .act "A" (.replicateTo "B"),
          .act "B" (.receiveAppendEntries ⟨1, "A", 2, 1, [], 2⟩ .replication .none .none),
          .act "B" (.pickCommitted .none .none), .act "B" .sendApplied, .act "B" .markApplied,
          .act "B" (.pickCommitted .none .none), .act "B" .sendApplied, .act "B" .markApplied,
          .act "B" (.createSnapshot 2 [5] .none .none),
          .act "B" (.receiveAppendEntries ⟨1, "A", 0, 0, [⟨1, 1, [7]⟩], 0⟩ .replication .none .none)] :
            List Action))
      (by decide +kernel)
  obtain ⟨world, reached, found⟩ := run
  obtain ⟨process, up, holds⟩ := (Option.any_eq_true _ _).mp found
  exact ⟨world, process, reached, Host.process_eq_some.mp up, of_decide_eq_true holds⟩

end Cluster

end Raftiq
