import Raftiq.Raft.LogView
import Raftiq.Raft.SavesStates
import Raftiq.Storage.Validate

namespace Raftiq

namespace Fault

/-- A storage call returns an error. -/
def Fails (fault : Fault) : Prop :=
  fault = .writeFails ∨ fault = .syncFails ∨ fault = .diskFull

/-- The record is written, and `Sync` returns an error. -/
def FailsSync (fault : Fault) : Prop :=
  fault = .syncFails ∨ fault = .diskFull

instance : DecidablePred Fails :=
  fun fault => inferInstanceAs (Decidable (fault = .writeFails ∨ fault = .syncFails ∨ fault = .diskFull))

instance : DecidablePred FailsSync :=
  fun fault => inferInstanceAs (Decidable (fault = .syncFails ∨ fault = .diskFull))

end Fault

namespace WALStorage

variable {wal : WALStorage} {entries : List LogEntry} {start : ℕ}

theorem appendEntries_iff {written : WALStorage} (some : entries ≠ []) :
    appendEntries entries wal = .ok written ↔ written = wal.appendRecord (.entries entries) ∧
      validateEntries entries = .ok () ∧ validateAppend wal.contents.entries entries = .ok () := by
  unfold appendEntries
  rw [if_neg some]
  cases validateEntries entries with
  | error error => simp
  | ok _ =>
      cases validateAppend wal.contents.entries entries with
      | error error => simp
      | ok _ => simp [eq_comm]

theorem replaceSuffix_iff {written : WALStorage} :
    replaceSuffix start entries wal = .ok written ↔
      written = wal.appendRecord (.replaceSuffix start entries) ∧
        validateReplaceSuffix wal.contents.snapshot start entries = .ok () := by
  unfold replaceSuffix
  cases validateReplaceSuffix wal.contents.snapshot start entries with
  | error error => simp
  | ok _ => simp [eq_comm]

/-- A write to a working storage fails only where the storage does not take the record. -/
theorem writeSync_works_iff {write : WALStorage → Except StorageError WALStorage} {record : Record}
    {fits : Prop} {fault : Fault}
    (accepts : ∀ written, write wal = .ok written ↔ written = wal.appendRecord record ∧ fits)
    (works : fault.Works) :
    fits ∧ (wal.writeSync write fault = .ok (wal.appendRecord record).sync ∨
        wal.writeSync write fault = .crashed (wal.appendRecord record)) ∨
      ¬ fits ∧ ∃ error, wal.writeSync write fault = .failed error wal := by
  cases accepted : write wal with
  | error error =>
      refine Or.inr ⟨fun takes => ?_, error, by simp only [writeSync, accepted]⟩
      rw [(accepts _).mpr ⟨rfl, takes⟩] at accepted
      cases accepted
  | ok written =>
      obtain ⟨rfl, takes⟩ := (accepts written).mp accepted
      exact Or.inl ⟨takes, writeSync_works works accepted⟩

/-- A failing write leaves its record behind if and only if it gets as far as `Sync`. -/
theorem writeSync_fails {write : WALStorage → Except StorageError WALStorage} {record : Record}
    {fits : Prop} {fault : Fault}
    (accepts : ∀ written, write wal = .ok written ↔ written = wal.appendRecord record ∧ fits)
    (fails : fault.Fails) :
    ∃ error left, wal.writeSync write fault = .failed error left ∧
      (left = wal.appendRecord record ∧ fits ∧ fault.FailsSync ∨
        left = wal ∧ ¬ (fits ∧ fault.FailsSync)) := by
  unfold writeSync
  cases accepted : write wal with
  | error error =>
      have refused : ¬ fits := by
        intro takes
        rw [(accepts _).mpr ⟨rfl, takes⟩] at accepted
        cases accepted
      exact ⟨error, wal, rfl, Or.inr ⟨rfl, fun both => refused both.1⟩⟩
  | ok written =>
      obtain ⟨same, takes⟩ := (accepts written).mp accepted
      rcases fails with rfl | rfl | rfl
      · exact ⟨.write, wal, rfl, Or.inr ⟨rfl, by simp [Fault.FailsSync]⟩⟩
      · exact ⟨.sync, written, rfl, Or.inl ⟨same, takes, Or.inl rfl⟩⟩
      · exact ⟨.diskFull, written, rfl, Or.inl ⟨same, takes, Or.inr rfl⟩⟩

end WALStorage

namespace RaftNode

/-- `LoadEntries` returns the entries of the log. -/
def StoresLog (node : RaftNode) : Prop :=
  node.storage.contents.entries = node.log.entries

instance (node : RaftNode) : Decidable node.StoresLog :=
  inferInstanceAs (Decidable (node.storage.contents.entries = node.log.entries))

/-- The first new entry, with all that follow, passes the storage's checks. -/
def TakesNew (node : RaftNode) (entries : List LogEntry) : Prop :=
  match firstNew node.log entries with
  | .nothing => False
  | .missing new =>
      validateEntries new = .ok () ∧ validateAppend node.storage.contents.entries new = .ok ()
  | .conflict start new => validateReplaceSuffix node.storage.contents.snapshot start new = .ok ()

/-- An `AppendEntries` call that gets as far as the entries. -/
def Reconciles (node : RaftNode) (args : AppendEntriesArgs) (termFault : Fault) : Prop :=
  node.Enters termFault args.term ∧ node.matchesPrevious args

variable {node after : RaftNode} {entries new : List LogEntry} {start : ℕ} {fault : Fault}

theorem SavesStates.sameLog (saves : node.SavesStates after) :
    after.log = node.log ∧ after.storage.contents.entries = node.storage.contents.entries ∧
      after.storage.contents.snapshot = node.storage.contents.snapshot := by
  induction saves with
  | refl => exact ⟨rfl, rfl, rfl⟩
  | frame _ storage log _ ih =>
      rw [storage, log]
      exact ih
  | save _ state _ fault durable saved ih =>
      obtain ⟨log, entries, snapshot⟩ := ih
      unfold persistState WALStorage.writeSync WALStorage.saveState at saved
      cases fault with
      | crash => cases saved
      | none | writeFails | syncFails | diskFull =>
          rw [← (Outcome.done.inj saved).1]
          exact ⟨log, entries, snapshot⟩

theorem SavesStates.storesLog_iff (saves : node.SavesStates after) : after.StoresLog ↔ node.StoresLog := by
  obtain ⟨log, entries, _⟩ := saves.sameLog
  unfold StoresLog
  rw [log, entries]

/-- The entries that the search for the first new one finds follow the log they are put on. -/
theorem numbered_of_conflict {log : Log} {existing first : LogEntry} {rest : List LogEntry}
    (above : log.lastIncludedIndex < start) (held : log.get start = some existing)
    (index : first.index = start) (validated : validateEntries (first :: rest) = .ok ()) :
    Numbered (log.truncateFrom start).lastIndex (first :: rest) := by
  have reached := Log.get_le_lastIndex held
  have cut : (log.truncateFrom start).lastIndex = start - 1 := by
    obtain ⟨kept, same⟩ := log.truncateFrom_above above
    rw [Log.lastIndex_eq] at reached ⊢
    rw [kept, same, log.numbered.takeWhile_index, List.length_take]
    omega
  rw [cut, ← index]
  exact .of_validates validated

/-- A suffix that differs in its first entry is not what the log holds. -/
theorem replaced_ne (log : Log) {first existing : LogEntry} (rest : List LogEntry)
    (index : first.index = start) (held : log.get start = some existing)
    (differ : existing.term ≠ first.term) :
    replaceSuffixCopy log.entries start (first :: rest) ≠ log.entries := by
  intro same
  unfold replaceSuffixCopy at same
  generalize log.entries.takeWhile (·.index < start) = front at same
  have positioned : log.entries[front.length]? = some first := by
    rw [← same]
    simp
  have numbered := log.numbered.getElem?_index positioned
  have above : log.lastIncludedIndex < start := by omega
  have located := log.numbered.find?_index start above
  rw [show start - log.lastIncludedIndex - 1 = front.length by omega, positioned] at located
  unfold Log.get at held
  rw [if_neg (by omega), located] at held
  exact differ (congrArg LogEntry.term (Option.some.inj held).symm)

theorem StoresLog.grown_ne (stores : node.StoresLog) {added : List LogEntry} (some : added ≠ []) :
    node.storage.contents.entries ++ added ≠ node.log.entries := by
  rw [stores]
  intro same
  exact some (List.append_right_eq_self.mp same)

/-- Entries that follow the log fit behind the stored ones. -/
theorem StoresLog.takes (stores : node.StoresLog) (numbered : Numbered node.log.lastIndex entries)
    (some : entries ≠ []) :
    WALStorage.appendEntries entries node.storage = .ok (node.storage.appendRecord (.entries entries)) := by
  rw [WALStorage.appendEntries_iff some, stores]
  refine ⟨rfl, numbered.validates, ?_⟩
  cases ends : node.log.entries.getLast? with
  | none => rw [List.getLast?_eq_none_iff.mp ends, validateAppend_nil]
  | some last =>
      obtain ⟨first, rest, rfl⟩ := List.exists_cons_of_ne_nil some
      rw [validateAppend_cons ends, node.log.numbered.getLast?_index ends, numbered.1, node.log.lastIndex_eq]

/-- The entry that `Propose` writes always fits behind the stored ones. -/
theorem StoresLog.takes_next (stores : node.StoresLog) (term : ℕ) (data : Bytes) :
    WALStorage.appendEntries [⟨node.log.lastIndex + 1, term, data⟩] node.storage =
      .ok (node.storage.appendRecord (.entries [⟨node.log.lastIndex + 1, term, data⟩])) :=
  stores.takes ⟨rfl, trivial⟩ (List.cons_ne_nil _ _)

theorem propose_fails (stores : node.StoresLog) (data : Bytes) (fails : fault.Fails) :
    (node.propose data fault).Ensures
      (fun after _ => after.StoresLog ↔ ¬ (node.role = .leader ∧ fault.FailsSync)) (fun _ => True) := by
  have takes := stores.takes_next node.persistent.currentTerm data
  unfold propose
  split
  · rename_i follower
    exact ⟨fun _ => by simp [follower], fun _ => stores⟩
  · rename_i leader
    have accepts : ∀ written, WALStorage.appendEntries
        [⟨node.log.lastIndex + 1, node.persistent.currentTerm, data⟩] node.storage = .ok written ↔
          written = node.storage.appendRecord
            (.entries [⟨node.log.lastIndex + 1, node.persistent.currentTerm, data⟩]) ∧ True := by
      intro written
      rw [takes, Except.ok.injEq, and_true, eq_comm]
    obtain ⟨error, left, failed, which⟩ := WALStorage.writeSync_fails accepts fails
    have iff : left.contents.entries = node.log.entries ↔
        ¬ (node.role = .leader ∧ fault.FailsSync) := by
      rcases which with ⟨rfl, _, unsynced⟩ | ⟨rfl, synced⟩
      · exact ⟨fun same => absurd same (stores.grown_ne (List.cons_ne_nil _ _)),
          fun kept => absurd ⟨not_not.mp leader, unsynced⟩ kept⟩
      · exact ⟨fun _ both => synced ⟨trivial, both.2⟩, fun _ => stores⟩
    dsimp only
    rw [failed]
    cases error with
    | diskFull => exact iff
    | _ => exact iff

theorem reconcile_fails (stores : node.StoresLog) (entries : List LogEntry) (fails : fault.Fails) :
    (node.reconcileReplicatedEntriesLocked entries fault).Ensures
      (fun after _ => after.StoresLog ↔ ¬ (node.TakesNew entries ∧ fault.FailsSync)) (fun _ => True) := by
  unfold reconcileReplicatedEntriesLocked TakesNew
  cases found : firstNew node.log entries with
  | nothing => exact ⟨fun _ => by simp, fun _ => stores⟩
  | missing new =>
      obtain ⟨first, rest, rfl, _⟩ := firstNew_missing found
      obtain ⟨error, left, failed, which⟩ := WALStorage.writeSync_fails
        (fun written => @WALStorage.appendEntries_iff node.storage _ written (List.cons_ne_nil first rest))
        fails
      dsimp only
      rw [failed]
      rcases which with ⟨rfl, takes⟩ | ⟨rfl, synced⟩
      · exact ⟨fun same => absurd same (stores.grown_ne (List.cons_ne_nil _ _)), absurd takes⟩
      · exact ⟨fun _ => synced, fun _ => stores⟩
  | conflict start new =>
      obtain ⟨first, rest, existing, rfl, _, index, held, differ⟩ := firstNew_conflict found
      obtain ⟨error, left, failed, which⟩ := WALStorage.writeSync_fails
        (fun written => @WALStorage.replaceSuffix_iff node.storage (first :: rest) start written) fails
      dsimp only
      rw [failed]
      rcases which with ⟨rfl, takes⟩ | ⟨rfl, synced⟩
      · refine ⟨fun same => absurd same ?_, absurd takes⟩
        change replaceSuffixCopy node.storage.contents.entries start (first :: rest) ≠ node.log.entries
        rw [stores]
        exact replaced_ne node.log rest index held differ
      · exact ⟨fun _ => synced, fun _ => stores⟩

theorem acceptEntries_fails (stores : node.StoresLog) (args : AppendEntriesArgs) (fails : fault.Fails) :
    (node.acceptEntries args fault).Ensures
      (fun after _ => after.StoresLog ↔
        ¬ (node.matchesPrevious args ∧ node.TakesNew args.entries ∧ fault.FailsSync)) (fun _ => True) := by
  unfold acceptEntries
  split
  · rename_i mismatch
    exact ⟨fun _ => by simp [mismatch], fun _ => stores⟩
  · rename_i agrees
    have reconciled := @reconcile_fails { node with role := .follower, leaderID := args.leaderID }
      fault stores args.entries fails
    refine reconciled.andThen fun middle result
      (iff : middle.StoresLog ↔ ¬ (node.TakesNew args.entries ∧ fault.FailsSync)) => ?_
    have kept : middle.StoresLog ↔
        ¬ (node.matchesPrevious args ∧ node.TakesNew args.entries ∧ fault.FailsSync) := by
      rw [iff, and_iff_right (not_not.mp agrees)]
    cases result with
    | error error => exact kept
    | ok _ => exact kept

theorem appendEntries_fails (stores : node.StoresLog) (args : AppendEntriesArgs) (termFault logFault : Fault)
    (fails : node.persistent.currentTerm < args.term ∧ termFault.Fails ∨ logFault.Fails) :
    (node.appendEntries args termFault logFault).Ensures
      (fun after _ => after.StoresLog ↔
        ¬ (node.Reconciles args termFault ∧ node.TakesNew args.entries ∧ logFault.FailsSync))
      (fun _ => True) := by
  apply node.appendEntries_of_accept
  · intro after saves outside
    exact ⟨fun _ reconciles => outside reconciles.1.1, fun _ => saves.storesLog_iff.mpr stores⟩
  · exact fun _ _ => trivial
  · intro middle saves enters
    have failsLater : logFault.Fails := by
      rcases fails with ⟨newer, failed⟩ | failed
      · simp [enters.2 newer, Fault.Fails] at failed
      · exact failed
    refine (acceptEntries_fails (saves.storesLog_iff.mpr stores) args failsLater).mono
      (fun last reply iff => ?_) fun _ lost => lost
    obtain ⟨log, entries, snapshot⟩ := saves.sameLog
    rw [iff]
    simp only [Reconciles, enters, matchesPrevious, TakesNew, log, entries, snapshot, true_and]

/-- Where a storage call fails, the log and the stored entries part if and only if a `Sync`
fails after the storage has taken new entries. -/
theorem failed_sync_splits_log (node : RaftNode) (stores : node.StoresLog) :
    (∀ data fault after result, fault.Fails → node.propose data fault = .done after result →
      (after.StoresLog ↔ ¬ (node.role = .leader ∧ fault.FailsSync))) ∧
    ∀ args termFault logFault after reply,
      (node.persistent.currentTerm < args.term ∧ termFault.Fails ∨ logFault.Fails) →
      node.appendEntries args termFault logFault = .done after reply →
      (after.StoresLog ↔
        ¬ (node.Reconciles args termFault ∧ node.TakesNew args.entries ∧ logFault.FailsSync)) := by
  constructor
  · intro data fault after result fails proposed
    have ensured := propose_fails stores data fails
    rwa [proposed] at ensured
  · intro args termFault logFault after reply fails appended
    have ensured := appendEntries_fails stores args termFault logFault fails
    rwa [appended] at ensured

/-- A leader whose write is refused by the disk has lost nothing. -/
theorem failed_write_keeps_log :
    ∃ (node after : RaftNode) (result : _), node.role = .leader ∧ node.propose [7] .writeFails = .done after result ∧
      after.StoresLog := by
  have leads : ∃ start, Cluster.trio.boot "A" (Cluster.trio.bootstrapped "A") = .ok start ∧
      ∃ process, Reaches Process.advance (fun _ _ => True) start process ∧
        process.node.role = .leader ∧ process.node.StoresLog ∧
          (process.advance (.propose [7] .writeFails)).isSome :=
    ⟨_, rfl, Reaches.of_leadsTo (fun _ _ => true) (fun _ _ _ => trivial)
      (Process.leadAndCommit [[1]]) (by decide +kernel)⟩
  obtain ⟨_, _, process, _, leader, stores, advances⟩ := leads
  obtain ⟨next, advanced⟩ := Option.isSome_iff_exists.mp advances
  obtain ⟨_, stepped⟩ := Process.advance_running advanced
  obtain ⟨result, proposed, _⟩ := Process.settle_running (Option.some.inj stepped)
  have kept := (failed_sync_splits_log process.node stores).1 [7] .writeFails _ result (Or.inl rfl) proposed
  exact ⟨process.node, next.node, result, leader, proposed, kept.mpr (by simp [Fault.FailsSync])⟩

/-- A leader holds the same entries in its log and in its storage.  It proposes a command,
the write succeeds and `Sync` fails: the storage has the entry and the log has not. -/
theorem unsynced_proposal_splits_log :
    ∃ start process next, Cluster.trio.boot "A" (Cluster.trio.bootstrapped "A") = .ok start ∧
      Reaches Process.advance (fun _ event => event.NoStorageError) start process ∧
      process.node.StoresLog ∧ process.advance (.propose [7] .syncFails) = some next ∧
      ¬ next.node.StoresLog := by
  have splits : ∃ start, Cluster.trio.boot "A" (Cluster.trio.bootstrapped "A") = .ok start ∧
      ∃ process, Reaches Process.advance (fun _ event => event.NoStorageError) start process ∧
        process.node.StoresLog ∧
          (process.advance (.propose [7] .syncFails)).any (fun next => ¬ next.node.StoresLog) :=
    ⟨_, rfl, Reaches.of_leadsTo (fun _ event => decide event.NoStorageError)
      (fun _ _ => of_decide_eq_true) (Process.leadAndCommit [[1]]) (by decide +kernel)⟩
  obtain ⟨start, booted, process, reached, stores, parted⟩ := splits
  obtain ⟨next, advanced, differs⟩ := (Option.any_eq_true _ _).mp parted
  exact ⟨start, process, next, booted, reached, stores, advanced, of_decide_eq_true differs⟩

end RaftNode

end Raftiq
