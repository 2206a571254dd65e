import Raftiq.Raft.Replication

namespace Raftiq

inductive ReadError where
  | notLeader
  | noCommitInTerm
  | leadershipLost
  | stepDown
  | quorumUnavailable
deriving DecidableEq, Repr

/-- A `ReadIndex` call that waits for answers to its probes. -/
structure PendingRead where
  term : ℕ
  commitIndex : ℕ
  membership : Membership
  /-- Peers whose probe has not been accounted for. -/
  waiting : List NodeID
  acks : List NodeID
deriving DecidableEq

inductive ReadProgress where
  | waiting (read : PendingRead)
  | returned (result : Except ReadError ℕ)
deriving DecidableEq

/-- What a probe of one peer produces. -/
inductive ProbeResult where
  | failed
  | answered (reply : AppendEntriesReply)
deriving DecidableEq

namespace RaftNode

def hasCommittedInCurrentTerm (node : RaftNode) : Bool :=
  node.commitIndex > 0 ∧
    (node.log.get node.commitIndex).any (·.term = node.persistent.currentTerm)

def beginReadIndex (node : RaftNode) : ReadProgress :=
  if node.role ≠ .leader then .returned (.error .notLeader)
  else if ¬ node.hasCommittedInCurrentTerm then .returned (.error .noCommitInTerm)
  else if membershipHasQuorum node.persistent.membership [node.id] then
    .returned (.ok node.commitIndex)
  else if node.peerIDs = [] then .returned (.error .quorumUnavailable)
  else
    .waiting {
      term := node.persistent.currentTerm
      commitIndex := node.commitIndex
      membership := node.persistent.membership
      waiting := node.peerIDs
      acks := [node.id] }

/-- A probe has the read's commit index and no entries. -/
def probeReadIndex (node : RaftNode) (read : PendingRead) (peerID : NodeID) :
    Option AppendEntriesArgs :=
  if node.role ≠ .leader ∨ node.persistent.currentTerm ≠ read.term then none
  else
    match node.nextIndex peerID with
    | none => none
    | some nextIndex =>
        match previousEntry node.log nextIndex with
        | none => none
        | some (prevLogIndex, prevLogTerm) =>
            some {
              term := read.term
              leaderID := node.id
              prevLogIndex := prevLogIndex
              prevLogTerm := prevLogTerm
              entries := []
              leaderCommit := read.commitIndex }

/-- The end of one round of the result loop that neither returned nor stepped down. -/
def nextRound (read : PendingRead) : ReadProgress :=
  if read.waiting = [] then .returned (.error .quorumUnavailable) else .waiting read

def confirmRead (node : RaftNode) (read : PendingRead) : ReadProgress :=
  if node.role = .leader ∧ node.persistent.currentTerm = read.term then
    .returned (.ok (min node.commitIndex read.commitIndex))
  else .returned (.error .leadershipLost)

/-- A higher term is compared with the term of the read, not with the current one. -/
def handleReadResult (node : RaftNode) (read : PendingRead) (peerID : NodeID) (result : ProbeResult)
    (fault : Fault) : Outcome ReadProgress :=
  let read := { read with waiting := read.waiting.erase peerID }
  match result with
  | .failed => .done node (nextRound read)
  | .answered reply =>
      if reply.term > read.term then
        (node.becomeFollowerLocked reply.term fault).andThen fun node durable =>
          .done node (.returned (.error (if durable then .leadershipLost else .stepDown)))
      else if reply.term ≠ read.term ∨ ¬ reply.success then .done node (nextRound read)
      else
        let read := { read with acks := peerID :: read.acks }
        if ¬ membershipHasQuorum read.membership read.acks then .done node (nextRound read)
        else .done node (node.confirmRead read)

variable {node after : RaftNode} {read : PendingRead} {peerID : NodeID} {result : ProbeResult} {fault : Fault}
  {index : ℕ}

/-- A read begins on a leader that has committed in its own term. -/
theorem beginReadIndex_cases :
    (∃ error, node.beginReadIndex = .returned (.error error)) ∨
      node.role = .leader ∧ node.hasCommittedInCurrentTerm ∧
        (node.beginReadIndex = .returned (.ok node.commitIndex) ∧
            membershipHasQuorum node.persistent.membership [node.id] ∨
          node.beginReadIndex = .waiting {
            term := node.persistent.currentTerm
            commitIndex := node.commitIndex
            membership := node.persistent.membership
            waiting := node.peerIDs
            acks := [node.id] }) := by
  unfold beginReadIndex
  split
  · exact Or.inl ⟨_, rfl⟩
  · rename_i leads
    split
    · exact Or.inl ⟨_, rfl⟩
    · rename_i committed
      split
      · rename_i enough
        exact Or.inr ⟨not_not.mp leads, not_not.mp committed, Or.inl ⟨rfl, enough⟩⟩
      · split
        · exact Or.inl ⟨_, rfl⟩
        · exact Or.inr ⟨not_not.mp leads, not_not.mp committed, Or.inr rfl⟩

theorem handleReadResult_ok
    (handled : node.handleReadResult read peerID result fault = .done after (.returned (.ok index))) :
    node.role = .leader ∧ node.persistent.currentTerm = read.term ∧
      index = min node.commitIndex read.commitIndex ∧
      membershipHasQuorum read.membership (peerID :: read.acks) ∧
      ∃ reply, result = .answered reply ∧ reply.term = read.term := by
  have unfinished : ∀ later : PendingRead, nextRound later ≠ .returned (.ok index) := by
    intro later returned
    unfold nextRound at returned
    split at returned
    · cases returned
    · cases returned
  unfold handleReadResult at handled
  cases result with
  | failed => exact absurd (Outcome.done.inj handled).2 (unfinished _)
  | answered reply =>
      dsimp only at handled
      split at handled
      · cases entered : node.becomeFollowerLocked reply.term fault with
        | crashed wal => simp [entered] at handled
        | done middle durable => simp [entered] at handled
      · split at handled
        · exact absurd (Outcome.done.inj handled).2 (unfinished _)
        · rename_i counts
          split at handled
          · exact absurd (Outcome.done.inj handled).2 (unfinished _)
          · rename_i enough
            unfold confirmRead at handled
            split at handled
            · rename_i still
              have same := (Outcome.done.inj handled).2
              simp only [ReadProgress.returned.injEq, Except.ok.injEq] at same
              exact ⟨still.1, still.2, same.symm, not_not.mp enough, reply, rfl,
                by simpa using (not_or.mp counts).1⟩
            · simp at handled

end RaftNode

end Raftiq
