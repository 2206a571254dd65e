import Raftiq.Raft.Node

namespace Raftiq

inductive ElectionError where
  | notVoter (id : NodeID)
  | storageWriteBlocked
  | persist
deriving DecidableEq, Repr

namespace RaftNode

def isCandidateLogUpToDate (node : RaftNode) (lastLogIndex lastLogTerm : ℕ) : Bool :=
  if lastLogTerm ≠ node.log.lastTerm then decide (lastLogTerm > node.log.lastTerm)
  else decide (lastLogIndex ≥ node.log.lastIndex)

def startElection (node : RaftNode) (fault : Fault) : Outcome (Except ElectionError ℕ) :=
  if ¬ membershipIsVoter node.persistent.membership node.id then
    .done node (.error (.notVoter node.id))
  else if node.storageWriteBlocked then .done node (.error .storageWriteBlocked)
  else
    let state :=
      { node.persistent with currentTerm := node.persistent.currentTerm + 1, votedFor := node.id }
    (node.persistState state fault).andThen fun node durable =>
      if durable then
        .done { node with role := .candidate, leaderID := "", votesReceived := [node.id] }
          (.ok node.persistent.currentTerm)
      else .done node (.error .persist)

/-- The arguments are read once and sent to all peers one after the other. -/
def requestVotes (node : RaftNode) : Option RequestVoteArgs :=
  if node.role ≠ .candidate ∨ ¬ membershipIsVoter node.persistent.membership node.id then none
  else
    some {
      term := node.persistent.currentTerm
      candidateID := node.id
      lastLogIndex := node.log.lastIndex
      lastLogTerm := node.log.lastTerm }

def voteReply (node : RaftNode) (granted : Bool) : RequestVoteReply :=
  { term := node.persistent.currentTerm, voterID := node.id, voteGranted := granted }

/-- `RequestVote` once the terms agree. -/
def considerVote (node : RaftNode) (args : RequestVoteArgs) (fault : Fault) :
    Outcome RequestVoteReply :=
  if ¬ membershipIsVoter node.persistent.membership args.candidateID then
    .done node (node.voteReply false)
  else if node.persistent.votedFor ≠ "" ∧ node.persistent.votedFor ≠ args.candidateID then
    .done node (node.voteReply false)
  else if ¬ node.isCandidateLogUpToDate args.lastLogIndex args.lastLogTerm then
    .done node (node.voteReply false)
  else
    (node.persistState { node.persistent with votedFor := args.candidateID } fault).andThen
      fun node durable => .done node (node.voteReply durable)

def requestVote (node : RaftNode) (args : RequestVoteArgs) (termFault voteFault : Fault) :
    Outcome RequestVoteReply :=
  if args.term < node.persistent.currentTerm then .done node (node.voteReply false)
  else if args.term > node.persistent.currentTerm then
    (node.enterTerm args.term termFault).andThen fun node durable =>
      if durable then node.considerVote args voteFault else .done node (node.voteReply false)
  else node.considerVote args voteFault

def countsVote (node : RaftNode) (electionTerm : ℕ) (reply : RequestVoteReply) : Bool :=
  node.role = .candidate ∧ electionTerm = node.persistent.currentTerm ∧
    reply.term = electionTerm ∧ reply.voteGranted ∧
    membershipIsVoter node.persistent.membership reply.voterID ∧
    reply.voterID ∉ node.votesReceived

def handleVoteReply (node : RaftNode) (electionTerm : ℕ) (reply : RequestVoteReply) (fault : Fault) :
    Outcome Unit :=
  if reply.term > node.persistent.currentTerm then
    (node.enterTerm reply.term fault).andThen fun node durable =>
      if durable then .done { node with votesReceived := [] } () else .done node ()
  else if node.countsVote electionTerm reply then
    .done { node with votesReceived := reply.voterID :: node.votesReceived } ()
  else .done node ()

def tryBecomeLeader (node : RaftNode) : Outcome Bool :=
  if node.role ≠ .candidate then .done node false
  else if ¬ membershipHasQuorum node.persistent.membership node.votesReceived then .done node false
  else .done node.becomeLeaderLocked true

end RaftNode

end Raftiq
