import Mathlib.Data.Nat.Notation
import Mathlib.Data.UInt

namespace Raftiq

/-! `Term` and `LogIndex` are `uint64` in the source.  Both are modelled as natural
numbers, which do not run out; `MachineLog` is the log with words of 64 bits. -/

abbrev NodeID := String

abbrev Bytes := List UInt8

structure LogEntry where
  index : ℕ
  term : ℕ
  data : Bytes
deriving DecidableEq, Repr

structure Configuration where
  voters : List NodeID
deriving DecidableEq, Repr

structure JointConfiguration where
  old : Configuration
  new : Configuration
deriving DecidableEq, Repr

structure Membership where
  current : Configuration
  joint : Option JointConfiguration
deriving DecidableEq, Repr

structure PersistentState where
  currentTerm : ℕ
  /-- Empty while the node has not voted in its term. -/
  votedFor : NodeID
  membership : Membership
deriving DecidableEq, Repr

structure Snapshot where
  lastIncludedIndex : ℕ
  lastIncludedTerm : ℕ
  data : Bytes
deriving DecidableEq, Repr

inductive Role where
  | follower
  | candidate
  | leader
deriving DecidableEq, Repr

structure RequestVoteArgs where
  term : ℕ
  candidateID : NodeID
  lastLogIndex : ℕ
  lastLogTerm : ℕ
deriving DecidableEq, Repr

structure RequestVoteReply where
  term : ℕ
  voterID : NodeID
  voteGranted : Bool
deriving DecidableEq, Repr

structure AppendEntriesArgs where
  term : ℕ
  leaderID : NodeID
  prevLogIndex : ℕ
  prevLogTerm : ℕ
  entries : List LogEntry
  leaderCommit : ℕ
deriving DecidableEq, Repr

structure AppendEntriesReply where
  term : ℕ
  followerID : NodeID
  success : Bool
deriving DecidableEq, Repr

structure InstallSnapshotArgs where
  term : ℕ
  leaderID : NodeID
  lastIncludedIndex : ℕ
  lastIncludedTerm : ℕ
  data : Bytes
deriving DecidableEq, Repr

structure InstallSnapshotReply where
  term : ℕ
  followerID : NodeID
  success : Bool
deriving DecidableEq, Repr

namespace PersistentState

/-- The state a node writes before it follows a higher term. -/
def enterTerm (state : PersistentState) (term : ℕ) : PersistentState :=
  { state with currentTerm := term, votedFor := "" }

end PersistentState

end Raftiq
