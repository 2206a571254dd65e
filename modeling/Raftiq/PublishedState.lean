import Raftiq.Raft.Bootstrap

namespace Raftiq

namespace WALStorage

/-- A state that has been saved and covered by a successful `Sync`. -/
def HasSynced (wal : WALStorage) (state : PersistentState) : Prop :=
  .state state ∈ wal.file.take wal.synced

/-- No synced record is lost. -/
def KeepsSynced (before after : WALStorage) : Prop :=
  ∀ record ∈ before.file.take before.synced, record ∈ after.file.take after.synced

variable {wal written : WALStorage}

theorem KeepsSynced.refl (wal : WALStorage) : wal.KeepsSynced wal :=
  fun _ member => member

theorem keepsSynced_appendRecord (wal : WALStorage) (record : Record) :
    wal.KeepsSynced (wal.appendRecord record) := by
  intro other member
  change other ∈ (wal.file ++ [record]).take wal.synced
  rw [List.take_append_of_le_length wal.synced_le]
  exact member

theorem KeepsSynced.sync (keeps : wal.KeepsSynced written) : wal.KeepsSynced written.sync := by
  intro record member
  change record ∈ written.file.take written.file.length
  rw [List.take_length]
  exact List.mem_of_mem_take (keeps record member)

theorem hasSynced_appended (wal : WALStorage) (state : PersistentState) :
    (wal.appendRecord (.state state)).sync.HasSynced state := by
  change Record.state state ∈ (wal.file ++ [Record.state state]).take (wal.file ++ [Record.state state]).length
  rw [List.take_length]
  exact List.mem_concat_self

/-- However a write ends, what was synced before it stays synced. -/
theorem writeSync_keepsSynced {write : WALStorage → Except StorageError WALStorage} {fault : Fault}
    (writes : ∀ written, write wal = .ok written → wal.KeepsSynced written) :
    (wal.writeSync write fault).Ensures wal.KeepsSynced wal.KeepsSynced fun _ => True := by
  unfold writeSync
  cases accepted : write wal with
  | error error => exact .refl wal
  | ok written =>
      cases fault with
      | none => exact (writes written accepted).sync
      | writeFails => exact .refl wal
      | syncFails => exact writes written accepted
      | diskFull => exact writes written accepted
      | crash => trivial

theorem appendEntries_keepsSynced (wal : WALStorage) (entries : List LogEntry) (fault : Fault) :
    (wal.writeSync (appendEntries entries) fault).Ensures wal.KeepsSynced wal.KeepsSynced
      fun _ => True := by
  apply writeSync_keepsSynced
  intro written accepted
  unfold appendEntries at accepted
  split at accepted
  · cases accepted
    exact .refl wal
  · split at accepted
    · cases accepted
    · split at accepted
      · cases accepted
      · cases accepted
        exact wal.keepsSynced_appendRecord _

theorem replaceSuffix_keepsSynced (wal : WALStorage) (start : ℕ) (entries : List LogEntry) (fault : Fault) :
    (wal.writeSync (replaceSuffix start entries) fault).Ensures wal.KeepsSynced wal.KeepsSynced
      fun _ => True := by
  apply writeSync_keepsSynced
  intro written accepted
  unfold replaceSuffix at accepted
  split at accepted
  · cases accepted
  · cases accepted
    exact wal.keepsSynced_appendRecord _

theorem saveSnapshot_keepsSynced (wal : WALStorage) (snapshot : Snapshot) (fault : Fault) :
    (wal.writeSync (saveSnapshot snapshot) fault).Ensures wal.KeepsSynced wal.KeepsSynced
      fun _ => True := by
  apply writeSync_keepsSynced
  intro written accepted
  cases accepted
  exact wal.keepsSynced_appendRecord _

end WALStorage

namespace RaftNode

variable (node : RaftNode) (fault termFault otherFault : Fault)

theorem publishEntries_keepsSynced {before : WALStorage} (keeps : before.KeepsSynced node.storage)
    (log : Log) (entries : List LogEntry) :
    (node.publishEntries log entries).Ensures (fun after _ => before.KeepsSynced after.storage)
      (fun _ => True) := by
  unfold publishEntries
  split
  · exact keeps
  · exact keeps

theorem reconcile_keepsSynced (entries : List LogEntry) :
    (node.reconcileReplicatedEntriesLocked entries fault).Ensures
      (fun after _ => node.storage.KeepsSynced after.storage) (fun _ => True) := by
  unfold reconcileReplicatedEntriesLocked
  cases firstNew node.log entries with
  | nothing => exact .refl node.storage
  | missing new =>
      have keeps := node.storage.appendEntries_keepsSynced new fault
      dsimp only
      cases written : node.storage.writeSync (WALStorage.appendEntries new) fault with
      | crashed wal => trivial
      | failed error wal =>
          rw [written] at keeps
          exact keeps
      | ok wal =>
          rw [written] at keeps
          exact publishEntries_keepsSynced { node with storage := wal } keeps node.log new
  | conflict start new =>
      have keeps := node.storage.replaceSuffix_keepsSynced start new fault
      dsimp only
      cases written : node.storage.writeSync (WALStorage.replaceSuffix start new) fault with
      | crashed wal => trivial
      | failed error wal =>
          rw [written] at keeps
          exact keeps
      | ok wal =>
          rw [written] at keeps
          exact publishEntries_keepsSynced { node with storage := wal } keeps (node.log.truncateFrom start) new

theorem acceptEntries_keepsSynced (args : AppendEntriesArgs) :
    (node.acceptEntries args fault).Ensures (fun after _ => node.storage.KeepsSynced after.storage)
      (fun _ => True) := by
  unfold acceptEntries
  split
  · exact .refl node.storage
  · have reconciled := { node with role := .follower, leaderID := args.leaderID }.reconcile_keepsSynced fault
      args.entries
    refine reconciled.andThen fun middle result kept => ?_
    cases result with
    | error error => exact kept
    | ok _ => exact kept

theorem persistInstall_keepsSynced (args : InstallSnapshotArgs) :
    (node.persistInstall args fault).Ensures (fun after _ => node.storage.KeepsSynced after.storage)
      (fun _ => True) := by
  have keeps := node.storage.saveSnapshot_keepsSynced args.snapshot fault
  unfold persistInstall
  dsimp only
  split
  · exact .refl node.storage
  · split
    · exact .refl node.storage
    · cases written : node.storage.writeSync (WALStorage.saveSnapshot args.snapshot) fault with
      | crashed wal => trivial
      | failed error wal =>
          rw [written] at keeps
          exact keeps
      | ok wal =>
          rw [written] at keeps
          exact keeps

/-- The published state is the old one, or one that has been saved and synced. -/
def Publishes (before after : RaftNode) : Prop :=
  after.persistent = before.persistent ∨ after.storage.HasSynced after.persistent

variable {node}

theorem SavesStates.publishes {after : RaftNode} (saves : node.SavesStates after) : node.Publishes after := by
  induction saves with
  | refl => exact Or.inl rfl
  | frame _ storage log persistent ih =>
      unfold Publishes
      rw [persistent, storage]
      exact ih
  | @save middle after _ state may fault durable saved ih =>
      unfold persistState WALStorage.writeSync WALStorage.saveState at saved
      cases fault with
      | crash => cases saved
      | none =>
          rw [← (Outcome.done.inj saved).1]
          exact Or.inr (middle.storage.hasSynced_appended state)
      | writeFails =>
          rw [← (Outcome.done.inj saved).1]
          exact ih
      | syncFails | diskFull =>
          rw [← (Outcome.done.inj saved).1]
          exact ih.imp_right (middle.storage.keepsSynced_appendRecord _ _)

theorem KeepsBallot.publishes {after : RaftNode} (kept : node.KeepsBallot after) : node.Publishes after :=
  Or.inl kept.persistent

theorem Publishes.of_keeps {middle after : RaftNode} (publishes : node.Publishes middle)
    (persistent : after.persistent = middle.persistent)
    (keeps : middle.storage.KeepsSynced after.storage) : node.Publishes after := by
  unfold Publishes
  rw [persistent]
  exact publishes.imp_right (keeps _)

end RaftNode

namespace Process

theorem effect_publishes (process : Process) (event : Event) :
    (process.effect event).Ensures (fun after _ => process.node.Publishes after) (fun _ => True) := by
  cases event with
  | propose data fault =>
      exact ((process.node.propose_ensures data fault).mono (fun _ _ => RaftNode.KeepsBallot.publishes)
        fun _ _ => trivial).forget
  | createSnapshot index data saveFault compactFault =>
      exact ((process.node.createSnapshot_ensures index data saveFault compactFault).mono
        (fun _ _ => RaftNode.KeepsBallot.publishes) fun _ _ => trivial).forget
  | finishInstall install fault =>
      exact ((process.node.finishInstall_ensures install fault).mono
        (fun _ _ => RaftNode.KeepsBallot.publishes) fun _ _ => trivial).forget
  | receiveAppendEntries args purpose termFault logFault =>
      refine Outcome.Ensures.forget (process.node.appendEntries_of_accept termFault logFault
        (fun after saves _ => saves.publishes) (fun _ _ => trivial) fun middle saves _ => ?_)
      exact ((middle.acceptEntries_ensures args logFault).and (middle.acceptEntries_keepsSynced logFault args)).mono
        (fun _ _ kept => saves.publishes.of_keeps kept.1.persistent kept.2) fun _ _ => trivial
  | receiveInstallSnapshot args termFault saveFault =>
      refine Outcome.Ensures.forget (process.node.installSnapshot_of_persist termFault saveFault
        (fun after _ saves => saves.publishes) (fun _ _ => trivial) fun middle saves _ => ?_)
      exact ((middle.persistInstall_ensures args saveFault).and
        (middle.persistInstall_keepsSynced saveFault args)).mono
          (fun _ _ kept => saves.publishes.of_keeps kept.1.persistent kept.2) fun _ _ => trivial
  | _ =>
      exact (process.effect_saves rfl).mono (fun _ _ saves => saves.publishes) fun _ _ => trivial

end Process

/-- What a node's owner and its peers make it do. -/
inductive Operation where
  | bootstrapMembership (fault : Fault)
  | becomeFollower (term : ℕ) (fault : Fault)
  | act (event : Event)
deriving DecidableEq

namespace Process

def advanceTo {α : Type} (process : Process) : Outcome α → Option Process
  | .done node _ => some (process.withNode node)
  | .crashed _ => none

def operate (process : Process) : Operation → Option Process
  | .bootstrapMembership fault => process.advanceTo (process.node.bootstrapMembership fault)
  | .becomeFollower term fault => process.advanceTo (process.node.becomeFollowerLocked term fault)
  | .act event => process.advance event

/-- The first membership is saved when it is published. -/
def SavesMembership (process : Process) : Operation → Prop
  | .bootstrapMembership fault => process.node.Bootstraps → fault = .none
  | _ => True

instance (process : Process) : DecidablePred process.SavesMembership
  | .bootstrapMembership fault => inferInstanceAs (Decidable (process.node.Bootstraps → fault = .none))
  | .becomeFollower _ _ | .act _ => .isTrue trivial

variable {process next start final : Process}

theorem advanceTo_ensures {α : Type} {outcome : Outcome α} {done : RaftNode → Prop}
    {crashed : WALStorage → Prop} (ensures : outcome.Ensures (fun node _ => done node) crashed)
    (advanced : process.advanceTo outcome = some next) : done next.node := by
  cases outcome with
  | crashed wal => cases advanced
  | done node result =>
      cases advanced
      exact ensures

theorem bootstrapMembership_publishes {node : RaftNode} :
    (node.bootstrapMembership .none).Ensures (fun after _ => node.Publishes after) (fun _ => True) := by
  unfold RaftNode.bootstrapMembership
  split
  · exact Or.inl rfl
  · split
    · exact Or.inl rfl
    · exact Or.inr (node.storage.hasSynced_appended _)

theorem operate_publishes {operation : Operation} (saves : process.SavesMembership operation)
    (operated : process.operate operation = some next) : process.node.Publishes next.node := by
  cases operation with
  | bootstrapMembership fault =>
      by_cases writes : process.node.Bootstraps
      · rw [saves writes] at operated
        exact advanceTo_ensures bootstrapMembership_publishes operated
      · obtain ⟨result, idle⟩ := RaftNode.bootstrapMembership_idle writes fault
        rw [operate, idle] at operated
        cases operated
        exact Or.inl rfl
  | becomeFollower term fault =>
      exact advanceTo_ensures ((process.node.enterTerm_saves fault term).mono
        (fun _ _ saved => saved.publishes) fun _ lost => lost) operated
  | act event =>
      obtain ⟨_, stepped⟩ := advance_running operated
      exact step_ensures stepped (process.effect_publishes event)

end Process

namespace RaftNode

end RaftNode

end Raftiq
