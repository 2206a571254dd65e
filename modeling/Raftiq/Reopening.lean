import Raftiq.DurableLog
import Raftiq.PublishedState
import Raftiq.Raft.Reopens
import Raftiq.WriteAheadLog

namespace Raftiq

namespace Outcome

/-- What a crash during a section leaves. -/
def lost {α : Type} : Outcome α → Option WALStorage
  | .done _ _ => none
  | .crashed wal => some wal

theorem Reopens.lost {α : Type} {outcome : Outcome α} {wal : WALStorage} (reopens : outcome.Reopens)
    (crashed : outcome.lost = some wal) : wal.Openable := by
  cases outcome with
  | done node result => cases crashed
  | crashed left =>
      cases crashed
      exact reopens

end Outcome

def Operation.faults : Operation → List Fault
  | .bootstrapMembership fault | .becomeFollower _ fault => [fault]
  | .act event => event.faults

/-- No storage call fails for a reason of the file system. -/
def Operation.Completes (operation : Operation) : Prop :=
  ∀ fault ∈ operation.faults, fault.Completes

instance : DecidablePred Operation.Completes :=
  fun operation => inferInstanceAs (Decidable (∀ fault ∈ operation.faults, fault.Completes))

instance (node : RaftNode) : Decidable node.BootstrapsSmall :=
  inferInstanceAs (Decidable (node.bootstrapVoters.length ≤ maxWALConfigurationVoters ∧
    ∀ voter ∈ node.bootstrapVoters, voter.length ≤ maxConfigurationNodeID))

namespace Process

/-- The first membership is within the limits of the decoder, and a snapshot that is saved is not
older than the stored one. -/
def KeepsOpenable (process : Process) : Operation → Prop
  | .bootstrapMembership _ => process.node.Bootstraps → process.node.BootstrapsSmall
  | .act (.createSnapshot index data _ _) =>
      ∀ entry ∈ (process.node.validateSnapshotRequestLocked index).toOption,
        process.node.storage.Advances { lastIncludedIndex := index, lastIncludedTerm := entry.term, data := data }
  | .act (.receiveInstallSnapshot args termFault _) =>
      process.node.Enters termFault args.term →
        process.node.log.lastIncludedIndex < args.lastIncludedIndex → process.node.storage.Advances args.snapshot
  | _ => True

/-- What a crash during an operation leaves. -/
def lost (process : Process) : Operation → Option WALStorage
  | .bootstrapMembership fault => (process.node.bootstrapMembership fault).lost
  | .becomeFollower term fault => (process.node.becomeFollowerLocked term fault).lost
  | .act event => (process.step event).bind fun result => result.outcome.lost

/-- The storage that the next process finds: the operations are over, or one of them is cut short
after a record has been written. -/
def Leaves (process : Process) (wal : WALStorage) : Prop :=
  wal = process.node.storage ∨ ∃ operation : Operation, operation.Completes ∧ process.KeepsOpenable operation ∧
    process.lost operation = some wal

variable {process next : Process} {operation : Operation}

theorem effect_reopens {event : Event} (reopens : process.node.Reopens) (completes : (Operation.act event).Completes)
    (keeps : process.KeepsOpenable (.act event)) : (process.effect event).Reopens := by
  cases event with
  | propose data fault =>
      exact Outcome.Ensures.forget (RaftNode.propose_reopens reopens data
        (completes fault (by simp [Operation.faults, Event.faults])))
  | receiveAppendEntries args purpose termFault logFault =>
      exact Outcome.Ensures.forget (RaftNode.appendEntries_reopens reopens args
        (completes logFault (by simp [Operation.faults, Event.faults])))
  | createSnapshot index data saveFault compactFault =>
      refine Outcome.Ensures.forget (RaftNode.createSnapshot_reopens reopens
        (completes saveFault (by simp [Operation.faults, Event.faults])) fun entry valid => ?_)
      exact keeps entry (by rw [valid]; rfl)
  | receiveInstallSnapshot args termFault saveFault =>
      exact Outcome.Ensures.forget (RaftNode.installSnapshot_reopens reopens
        (completes saveFault (by simp [Operation.faults, Event.faults])) keeps)
  | finishInstall install fault =>
      exact Outcome.Ensures.forget (RaftNode.finishInstall_reopens reopens install)
  | _ => exact (process.effect_saves rfl).reopens reopens

theorem operate_reopens (reopens : process.node.Reopens) (completes : operation.Completes)
    (keeps : process.KeepsOpenable operation) (operated : process.operate operation = some next) :
    next.node.Reopens := by
  cases operation with
  | bootstrapMembership fault =>
      exact advanceTo_ensures (RaftNode.bootstrapMembership_reopens reopens fault keeps) operated
  | becomeFollower term fault =>
      exact advanceTo_ensures ((process.node.enterTerm_saves fault term).reopens reopens) operated
  | act event =>
      obtain ⟨_, stepped⟩ := advance_running operated
      exact step_ensures stepped (effect_reopens reopens completes keeps)

theorem lost_openable {wal : WALStorage} (reopens : process.node.Reopens) (completes : operation.Completes)
    (keeps : process.KeepsOpenable operation) (lost : process.lost operation = some wal) : wal.Openable := by
  cases operation with
  | bootstrapMembership fault => exact (RaftNode.bootstrapMembership_reopens reopens fault keeps).lost lost
  | becomeFollower term fault =>
      exact ((process.node.enterTerm_saves fault term).reopens reopens).lost lost
  | act event =>
      obtain ⟨result, stepped, crashed⟩ := Option.bind_eq_some_iff.mp lost
      have kept := effect_reopens reopens completes keeps
      rw [step_effect stepped] at kept
      exact kept.lost crashed

theorem start_reopens {id : NodeID} {store : WALStorage} {node : RaftNode} (openable : store.Openable)
    (started : RaftNode.newRaftNodeWithStorage id store = .ok node) (peerIDs : List NodeID) (canRestore : Bool) :
    (node.configure peerIDs canRestore).Reopens := by
  unfold RaftNode.newRaftNodeWithStorage at started
  cases restored : RaftNode.restoreLog store.contents with
  | error error => simp [restored] at started
  | ok log =>
      rw [restored] at started
      cases started
      have row := RaftNode.restoreLog_ok_iff.mp ⟨log, restored⟩
      obtain ⟨boundary, which⟩ := RaftNode.restoreLog_entries restored
      refine ⟨openable, openable.membership, ⟨0, row, fun some => ⟨Nat.zero_le _, ?_⟩⟩, boundary.le⟩
      change log.lastIndex ≤ 0 + store.contents.entries.length
      change log.entries ≠ [] at some
      have kept : log.entries = store.contents.entries.drop store.contents.loadSnapshot.lastIncludedIndex := by
        rcases which with ⟨kept, _⟩ | ⟨none, _⟩
        · exact kept
        · exact absurd none some
      have positive := List.length_pos_iff.mpr some
      rw [log.lastIndex_eq, boundary]
      rw [kept, List.length_drop] at positive ⊢
      omega

/-- In runs that keep to the limits of the decoder and never save an older snapshot over a newer
one, the file can be opened again whenever the process ends. -/
theorem own_log_reopens {crc : Bytes → UInt32} {json : SnapshotJSON} (trips : json.RoundTrips) {id : NodeID}
    {store : WALStorage} {node : RaftNode} (openable : store.Openable)
    (started : RaftNode.newRaftNodeWithStorage id store = .ok node) (peerIDs : List NodeID) (canRestore : Bool)
    (reached : Reaches operate (fun process operation => operation.Completes ∧ process.KeepsOpenable operation)
      (start (node.configure peerIDs canRestore)) process)
    {wal : WALStorage} (leaves : process.Leaves wal) {bytes : Bytes} (encodes : Encodes crc json wal.file bytes)
    (representable : ∀ record ∈ wal.file, record.Representable) :
    ∃ opened, DiskWAL.openWAL crc json bytes = .ok opened := by
  have reopens : process.node.Reopens := by
    refine reached.invariant (fun process => process.node.Reopens)
      (start_reopens openable started peerIDs canRestore) ?_
    rintro before operation after kept ⟨completes, keeps⟩ operated
    exact operate_reopens kept completes keeps operated
  have left : wal.Openable := by
    rcases leaves with rfl | ⟨operation, completes, keeps, lost⟩
    · exact reopens.openable
    · exact lost_openable reopens completes keeps lost
  exact ⟨{ contents := wal.contents, bytes := bytes, offset := some bytes.length },
    (DiskWAL.openWAL_encoded trips encodes representable _).mpr ⟨left.1, left.recovers, rfl, rfl⟩⟩

instance (process : Process) : DecidablePred process.KeepsOpenable
  | .bootstrapMembership _ =>
      inferInstanceAs (Decidable (process.node.Bootstraps → process.node.BootstrapsSmall))
  | .act (.createSnapshot index data _ _) =>
      inferInstanceAs (Decidable (∀ entry ∈ (process.node.validateSnapshotRequestLocked index).toOption,
        process.node.storage.Advances ⟨index, entry.term, data⟩))
  | .act (.receiveInstallSnapshot args termFault _) =>
      inferInstanceAs (Decidable ((process.node.persistent.currentTerm ≤ args.term ∧
          (process.node.persistent.currentTerm < args.term → termFault = .none)) →
        process.node.log.lastIncludedIndex < args.lastIncludedIndex → process.node.storage.Advances args.snapshot))
  | .becomeFollower _ _ | .act (.startElection _) | .act .requestVotes | .act (.receiveRequestVote _ _ _)
  | .act (.receiveVoteReply _ _ _) | .act .tryBecomeLeader | .act (.propose _ _) | .act (.replicateTo _)
  | .act (.receiveAppendEntries _ _ _ _) | .act (.receiveAppendReply _ _ _ _) | .act (.pickCommitted _ _)
  | .act .sendApplied | .act .markApplied | .act (.sendInstallSnapshot _) | .act (.restoreSnapshot _ _)
  | .act (.finishInstall _ _) | .act (.receiveInstallReply _ _ _ _) | .act (.beginRead _)
  | .act (.probeRead _ _) | .act (.receiveProbeResult _ _ _ _) | .act (.cancelRead _) => .isTrue trivial

/-- A new node is bootstrapped and takes in a snapshot and an entry.  It crashes after the record
of a newer snapshot has been written. -/
theorem own_log_reopens_installing : ∃ (process : Process) (wal : WALStorage) (bytes : Bytes) (opened : DiskWAL),
    process.Leaves wal ∧ wal ≠ process.node.storage ∧ Encodes checksumIEEE fixedWidth wal.file bytes ∧
      DiskWAL.openWAL checksumIEEE fixedWidth bytes = .ok opened := by
  let crash : Operation := .act (.receiveInstallSnapshot ⟨1, "A", 4, 1, [6]⟩ .none .crash)
  let file : List Record :=
    [.state ⟨1, "", ⟨⟨["C", "A", "B"]⟩, none⟩⟩, .snapshot ⟨2, 1, [5]⟩, .entries [⟨3, 1, [9]⟩], .snapshot ⟨4, 1, [6]⟩]
  let raws := (file.map (Record.encode fixedWidth)).filterMap Except.toOption
  have run : ∃ node, RaftNode.newRaftNodeWithStorage "C" .openEmpty = .ok node ∧ ∃ process,
      Reaches operate (fun process operation => operation.Completes ∧ process.KeepsOpenable operation)
        (start (node.configure ["A", "B"] true)) process ∧
        process.KeepsOpenable crash ∧
        (process.lost crash).any fun wal => wal.file = file ∧ wal ≠ process.node.storage :=
    ⟨_, rfl, Reaches.of_leadsTo
      (fun process operation => decide (operation.Completes ∧ process.KeepsOpenable operation))
      (fun _ _ => of_decide_eq_true)
      [.bootstrapMembership .none,
        .act (.receiveInstallSnapshot ⟨1, "A", 2, 1, [5]⟩ .none .none),
        .act (.restoreSnapshot ⟨⟨1, "A", 2, 1, [5]⟩, 1, false⟩ true),
        .act (.finishInstall ⟨⟨1, "A", 2, 1, [5]⟩, 1, true⟩ .none),
        .act (.receiveAppendEntries ⟨1, "A", 2, 1, [⟨3, 1, [9]⟩], 2⟩ .replication .none .none)]
      (by decide +kernel)⟩
  obtain ⟨node, started, process, reached, keeps, found⟩ := run
  obtain ⟨wal, lost, holds⟩ := (Option.any_eq_true _ _).mp found
  obtain ⟨same, other⟩ := of_decide_eq_true holds
  have leaves : process.Leaves wal := Or.inr ⟨crash, by decide, keeps, lost⟩
  have encodes : Encodes checksumIEEE fixedWidth wal.file (Framing.encodeAll (recordFormat checksumIEEE) raws) :=
    ⟨raws, by rw [same]; decide +kernel, rfl⟩
  have representable : ∀ record ∈ wal.file, record.Representable := by
    rw [same]
    simp [file, Record.Representable, PersistentState.Representable, LogEntry.Representable,
      Snapshot.Representable, Membership.Representable, Configuration.Representable, IsByteString]
  obtain ⟨opened, works⟩ := own_log_reopens fixedWidth_roundTrips WALStorage.openEmpty_openable started
    ["A", "B"] true reached leaves encodes representable
  exact ⟨process, wal, _, opened, leaves, other, encodes, works⟩

end Process

namespace Cluster

/-- `A` takes two snapshots and sends them to `C`, which receives the newer one first.  While it is
being restored, the older one is saved after it: `C` cannot open its log any more. -/
theorem overtaken_snapshot_bricks_log : ∃ (world : World) (process : Process) (bytes : Bytes),
    Reaches trio.step (fun _ action => action.regular) trio.initial world ∧
      world.host "C" = .up process ∧ Encodes checksumIEEE fixedWidth process.node.storage.file bytes ∧
      DiskWAL.openWAL checksumIEEE fixedWidth bytes =
        .error (.refused (.validate (.snapshotBackwards 2 1))) := by
  let apply : List Action :=
    [.act "A" (.pickCommitted .none .none), .act "A" .sendApplied, .act "A" .markApplied]
  let file : List Record :=
    [.state ⟨0, "", ⟨⟨["A", "B", "C"]⟩, none⟩⟩, .state ⟨1, "", ⟨⟨["A", "B", "C"]⟩, none⟩⟩,
      .snapshot ⟨2, 1, [6]⟩, .snapshot ⟨1, 1, [5]⟩]
  have run : ∃ world, Reaches trio.step (fun _ action => action.regular) trio.initial world ∧
      (world.host "C").process.any (fun process => process.node.storage.file = file) :=
    Reaches.of_leadsTo (fun _ action => action.regular) (fun _ _ regular => regular)
      (commitOne ++ apply ++
        ([.act "A" (.createSnapshot 1 [5] .none .none), .act "A" (.sendInstallSnapshot "C"),
          .act "A" (.propose [8] .none), .act "A" (.replicateTo "B"),
          .act "B" (.receiveAppendEntries ⟨1, "A", 1, 1, [⟨2, 1, [8]⟩], 1⟩ .replication .none .none),
          .act "A" (.receiveAppendReply "B" ⟨1, "A", 1, 1, [⟨2, 1, [8]⟩], 1⟩ ⟨1, "B", true⟩ .none)] :
            List Action) ++
        apply ++
        ([.act "A" (.createSnapshot 2 [6] .none .none), .act "A" (.sendInstallSnapshot "C"),
          .act "C" (.receiveInstallSnapshot ⟨1, "A", 2, 1, [6]⟩ .none .none),
          .act "C" (.receiveInstallSnapshot ⟨1, "A", 1, 1, [5]⟩ .none .none)] : List Action))
      (by decide +kernel)
  obtain ⟨world, reached, found⟩ := run
  obtain ⟨process, up, holds⟩ := (Option.any_eq_true _ _).mp found
  have same := of_decide_eq_true holds
  let raws := (file.map (Record.encode fixedWidth)).filterMap Except.toOption
  refine ⟨world, process, Framing.encodeAll (recordFormat checksumIEEE) raws, reached, Host.process_eq_some.mp up,
    ⟨raws, ?_, rfl⟩, by decide +kernel⟩
  rw [same]
  decide +kernel

end Cluster

end Raftiq
