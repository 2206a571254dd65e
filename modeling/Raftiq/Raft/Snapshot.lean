import Raftiq.Raft.Replication

namespace Raftiq

inductive SnapshotError where
  | unapplied (index lastApplied : ℕ)
  | uncommitted (index commitIndex : ℕ)
  | atZero
  | missing (index : ℕ)
  | save (error : StorageError)
  | compactStorage (error : StorageError)
  | compactLog (error : LogError)
deriving DecidableEq, Repr

/-- An `InstallSnapshot` call that has persisted its snapshot and released the lock. -/
structure PendingInstall where
  args : InstallSnapshotArgs
  /-- The reply's term is read before the restore. -/
  replyTerm : ℕ
  restored : Bool
deriving DecidableEq

namespace InstallSnapshotArgs

def snapshot (args : InstallSnapshotArgs) : Snapshot where
  lastIncludedIndex := args.lastIncludedIndex
  lastIncludedTerm := args.lastIncludedTerm
  data := args.data

end InstallSnapshotArgs

namespace RaftNode

def validateSnapshotRequestLocked (node : RaftNode) (index : ℕ) : Except SnapshotError LogEntry :=
  if index > node.lastApplied then .error (.unapplied index node.lastApplied)
  else if index > node.commitIndex then .error (.uncommitted index node.commitIndex)
  else if index = 0 then .error .atZero
  else
    match node.log.get index with
    | none => .error (.missing index)
    | some entry => .ok entry

theorem validateSnapshotRequestLocked_ok {node : RaftNode} {index : ℕ} {entry : LogEntry}
    (accepted : node.validateSnapshotRequestLocked index = .ok entry) :
    index ≤ node.lastApplied ∧ index ≤ node.commitIndex ∧ 0 < index ∧ node.log.get index = some entry := by
  unfold validateSnapshotRequestLocked at accepted
  split at accepted
  · cases accepted
  · rename_i applied
    split at accepted
    · cases accepted
    · rename_i committed
      split at accepted
      · cases accepted
      · rename_i nonzero
        split at accepted
        · cases accepted
        · rename_i found
          cases accepted
          exact ⟨not_lt.mp applied, not_lt.mp committed, Nat.pos_of_ne_zero nonzero, found⟩

def persistAndCompactSnapshotLocked (node : RaftNode) (snapshot : Snapshot)
    (saveFault compactFault : Fault) : Outcome (Except SnapshotError Unit) :=
  match node.storage.writeSync (WALStorage.saveSnapshot snapshot) saveFault with
  | .crashed wal => .crashed wal
  | .failed error wal => .done { node with storage := wal } (.error (.save error))
  | .ok saved =>
      match saved.compactDurably snapshot compactFault with
      | .crashed wal => .crashed wal
      | .failed error wal => .done { node with storage := wal } (.error (.compactStorage error))
      | .ok wal =>
          match node.log.compact snapshot with
          | .error error => .done { node with storage := wal } (.error (.compactLog error))
          | .ok log => .done { node with storage := wal, log := log } (.ok ())

def createSnapshot (node : RaftNode) (index : ℕ) (data : Bytes) (saveFault compactFault : Fault) :
    Outcome (Except SnapshotError Unit) :=
  match node.validateSnapshotRequestLocked index with
  | .error error => .done node (.error error)
  | .ok entry =>
      node.persistAndCompactSnapshotLocked
        { lastIncludedIndex := index, lastIncludedTerm := entry.term, data := data }
        saveFault compactFault

def installReply (node : RaftNode) (success : Bool) : InstallSnapshotReply :=
  { term := node.persistent.currentTerm, followerID := node.id, success := success }

/-- How the first critical section of `InstallSnapshot` ends. -/
inductive InstallResult where
  | replied (reply : InstallSnapshotReply)
  | pending (install : PendingInstall)
deriving DecidableEq

/-- `InstallSnapshot` once the terms agree, up to the restore. -/
def persistInstall (node : RaftNode) (args : InstallSnapshotArgs) (fault : Fault) :
    Outcome InstallResult :=
  let node := { node with role := .follower, leaderID := args.leaderID }
  if args.lastIncludedIndex ≤ node.log.lastIncludedIndex then
    .done node (.replied (node.installReply true))
  else if ¬ node.canRestore then .done node (.replied (node.installReply false))
  else
    match node.storage.writeSync (WALStorage.saveSnapshot args.snapshot) fault with
    | .crashed wal => .crashed wal
    | .failed _ wal => .done { node with storage := wal } (.replied (node.installReply false))
    | .ok wal =>
        .done { node with storage := wal }
          (.pending { args := args, replyTerm := node.persistent.currentTerm, restored := false })

def installSnapshot (node : RaftNode) (args : InstallSnapshotArgs) (termFault saveFault : Fault) :
    Outcome InstallResult :=
  if args.term < node.persistent.currentTerm then .done node (.replied (node.installReply false))
  else if args.term > node.persistent.currentTerm then
    (node.enterTerm args.term termFault).andThen fun node durable =>
      if durable then node.persistInstall args saveFault
      else .done node (.replied (node.installReply false))
  else node.persistInstall args saveFault

/-- The last critical section of `InstallSnapshot`, after a successful restore. -/
def finishInstall (node : RaftNode) (install : PendingInstall) (fault : Fault) :
    Outcome InstallSnapshotReply :=
  let reply : InstallSnapshotReply :=
    { term := install.replyTerm, followerID := node.id, success := false }
  let snapshot := install.args.snapshot
  match node.storage.compactDurably snapshot fault with
  | .crashed wal => .crashed wal
  | .failed _ wal => .done { node with storage := wal } reply
  | .ok wal =>
      match node.log.restoreSnapshot snapshot with
      | .error _ => .done { node with storage := wal } reply
      | .ok log =>
          .done
            { node with
              storage := wal
              log := log
              commitIndex := max node.commitIndex snapshot.lastIncludedIndex
              lastApplied := max node.lastApplied snapshot.lastIncludedIndex }
            { reply with success := true }

/-- The snapshot that is sent is the stored one. -/
def buildInstallSnapshot (node : RaftNode) (peerID : NodeID) : Option InstallSnapshotArgs :=
  if node.role ≠ .leader then none
  else
    match node.nextIndex peerID with
    | none => none
    | some nextIndex =>
        let snapshot := node.storage.contents.loadSnapshot
        if snapshot.lastIncludedIndex = 0 then none
        else if nextIndex > snapshot.lastIncludedIndex then none
        else
          some {
            term := node.persistent.currentTerm
            leaderID := node.id
            lastIncludedIndex := snapshot.lastIncludedIndex
            lastIncludedTerm := snapshot.lastIncludedTerm
            data := snapshot.data }

def recordInstalled (node : RaftNode) (peerID : NodeID) (index : ℕ) : RaftNode :=
  { node with
    matchIndex := Function.update node.matchIndex peerID (max (node.matchIndex peerID) index)
    nextIndex :=
      if index + 1 > (node.nextIndex peerID).getD 0 then
        Function.update node.nextIndex peerID (some (index + 1))
      else node.nextIndex }

def handleInstallSnapshotReply (node : RaftNode) (peerID : NodeID) (args : InstallSnapshotArgs)
    (reply : InstallSnapshotReply) (fault : Fault) : Outcome Unit :=
  if reply.term > node.persistent.currentTerm then
    (node.enterTerm reply.term fault).andThen fun node _ => .done node ()
  else if node.role ≠ .leader then .done node ()
  else if args.term ≠ node.persistent.currentTerm then .done node ()
  else if ¬ reply.success then .done node ()
  else .done (node.recordInstalled peerID args.lastIncludedIndex).advanceCommitIndexLocked ()

end RaftNode

end Raftiq
