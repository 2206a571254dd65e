import Raftiq.Membership
import Raftiq.Storage.WAL
import Mathlib.Logic.Function.Basic

namespace Raftiq

/-- A node between two critical sections of its mutex.  Timers, metrics and loggers
are left out; a run may start an election or send a heartbeat at any moment. -/
structure RaftNode where
  id : NodeID
  persistent : PersistentState
  commitIndex : ℕ
  lastApplied : ℕ
  nextIndex : NodeID → Option ℕ
  /-- A peer without an entry in the map reads as zero. -/
  matchIndex : NodeID → ℕ
  votesReceived : List NodeID
  role : Role
  /-- Empty while no leader is known. -/
  leaderID : NodeID
  log : Log
  storage : WALStorage
  peerIDs : List NodeID
  /-- Whether `SetSnapshotRestore` has installed a handler. -/
  canRestore : Bool
  storageWriteBlocked : Bool

inductive StartError where
  | restoreEntry (index : ℕ) (error : LogError)
  | restoreBoundary (error : LogError)
deriving DecidableEq, Repr

/-- How a critical section ends: normally, or with the process gone and only the
write-ahead log left. -/
inductive Outcome (α : Type) where
  | done (node : RaftNode) (result : α)
  | crashed (wal : WALStorage)

namespace Outcome

variable {α β : Type}

def andThen (outcome : Outcome α) (next : RaftNode → α → Outcome β) : Outcome β :=
  match outcome with
  | .done node result => next node result
  | .crashed wal => .crashed wal

@[simp] theorem andThen_done (node : RaftNode) (result : α) (next : RaftNode → α → Outcome β) :
    (Outcome.done node result).andThen next = next node result := rfl

@[simp] theorem andThen_crashed (wal : WALStorage) (next : RaftNode → α → Outcome β) :
    (Outcome.crashed wal : Outcome α).andThen next = .crashed wal := rfl

/-- What holds however a critical section ends. -/
def Ensures (outcome : Outcome α) (done : RaftNode → α → Prop) (crashed : WALStorage → Prop) : Prop :=
  match outcome with
  | .done node result => done node result
  | .crashed wal => crashed wal

theorem Ensures.andThen {outcome : Outcome α} {next : RaftNode → α → Outcome β}
    {middle : RaftNode → α → Prop} {done : RaftNode → β → Prop} {crashed : WALStorage → Prop}
    (first : outcome.Ensures middle crashed)
    (second : ∀ node result, middle node result → (next node result).Ensures done crashed) :
    (outcome.andThen next).Ensures done crashed := by
  cases outcome with
  | done node result => exact second node result first
  | crashed wal => exact first

theorem Ensures.mono {outcome : Outcome α} {done weaker : RaftNode → α → Prop}
    {crashed lost : WALStorage → Prop} (ensures : outcome.Ensures done crashed)
    (onDone : ∀ node result, done node result → weaker node result)
    (onCrash : ∀ wal, crashed wal → lost wal) : outcome.Ensures weaker lost := by
  cases outcome with
  | done node result => exact onDone node result ensures
  | crashed wal => exact onCrash wal ensures

theorem Ensures.and {outcome : Outcome α} {done also : RaftNode → α → Prop}
    {crashed lost : WALStorage → Prop} (first : outcome.Ensures done crashed)
    (second : outcome.Ensures also lost) :
    outcome.Ensures (fun node result => done node result ∧ also node result)
      (fun wal => crashed wal ∧ lost wal) := by
  cases outcome with
  | done node result => exact ⟨first, second⟩
  | crashed wal => exact ⟨first, second⟩

end Outcome

namespace RaftNode

def appendAll (log : Log) : List LogEntry → Except StartError Log
  | [] => .ok log
  | entry :: rest =>
      match log.append entry with
      | .error error => .error (.restoreEntry entry.index error)
      | .ok appended => appendAll appended rest

/-- The stored entries go into an empty log before the snapshot boundary is set. -/
def restoreLog (contents : Contents) : Except StartError Log :=
  match appendAll Log.new contents.entries with
  | .error error => .error error
  | .ok log =>
      if 0 < contents.loadSnapshot.lastIncludedIndex then
        match log.restoreSnapshot contents.loadSnapshot with
        | .error error => .error (.restoreBoundary error)
        | .ok restored => .ok restored
      else .ok log

def newRaftNodeWithStorage (id : NodeID) (store : WALStorage) : Except StartError RaftNode :=
  match restoreLog store.contents with
  | .error error => .error error
  | .ok log =>
      .ok {
        id := id
        persistent := store.contents.state
        commitIndex := store.contents.loadSnapshot.lastIncludedIndex
        lastApplied := store.contents.loadSnapshot.lastIncludedIndex
        nextIndex := fun _ => none
        matchIndex := fun _ => 0
        votesReceived := []
        role := .follower
        leaderID := ""
        log := log
        storage := store
        peerIDs := []
        canRestore := false
        storageWriteBlocked := false }

/-- `SetTransport` and `SetSnapshotRestore`. -/
def configure (node : RaftNode) (peerIDs : List NodeID) (canRestore : Bool) : RaftNode :=
  { node with peerIDs := peerIDs, canRestore := canRestore }

/-- `SaveState` and `Sync`; only a state that is durable is published. -/
def persistState (node : RaftNode) (state : PersistentState) (fault : Fault) : Outcome Bool :=
  match node.storage.writeSync (WALStorage.saveState state) fault with
  | .ok wal => .done { node with storage := wal, persistent := state } true
  | .failed _ wal => .done { node with storage := wal } false
  | .crashed wal => .crashed wal

def followUnknownLeader (node : RaftNode) : RaftNode :=
  { node with role := .follower, leaderID := "" }

/-- Persists a term without a vote and follows it.  Every RPC and every reply handler
does this when it sees a higher term; the result says whether it may go on. -/
def enterTerm (node : RaftNode) (term : ℕ) (fault : Fault) : Outcome Bool :=
  (node.persistState (node.persistent.enterTerm term) fault).andThen fun node durable =>
    if durable then .done node.followUnknownLeader true else .done node false

/-- Unlike the handlers, this does not compare the term with the current one. -/
def becomeFollowerLocked (node : RaftNode) (term : ℕ) (fault : Fault) : Outcome Bool :=
  node.enterTerm term fault

def stepDownForStorageFailureLocked (node : RaftNode) : RaftNode :=
  { node with role := .follower, leaderID := "", storageWriteBlocked := true }

def initializeReplicationStateLocked (node : RaftNode) (peerID : NodeID) : RaftNode :=
  { node with
    nextIndex := Function.update node.nextIndex peerID (some (node.log.lastIndex + 1))
    matchIndex := Function.update node.matchIndex peerID 0 }

def becomeLeaderLocked (node : RaftNode) : RaftNode :=
  node.peerIDs.foldl initializeReplicationStateLocked
    { node with role := .leader, leaderID := node.id }

end RaftNode

end Raftiq
