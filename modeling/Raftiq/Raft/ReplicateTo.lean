import Raftiq.Raft.Snapshot

namespace Raftiq

def Outcome.finished {α : Type} : Outcome α → Option (RaftNode × α)
  | .done node result => some (node, result)
  | .crashed _ => none

namespace RaftNode

/-- A whole `InstallSnapshot` call whose handler restores the snapshot. -/
def serveInstallSnapshot (node : RaftNode) (args : InstallSnapshotArgs) :
    Option (RaftNode × InstallSnapshotReply) :=
  match (node.installSnapshot args .none .none).finished with
  | none => none
  | some (node, .replied reply) => some (node, reply)
  | some (node, .pending install) => (node.finishInstall { install with restored := true } .none).finished

/-- `sendInstallSnapshot` over a transport that delivers every call and every reply; the result says
whether the follower has taken the snapshot. -/
def sendInstallSnapshot (peerID : NodeID) (leader follower : RaftNode) : Option (RaftNode × RaftNode × Bool) :=
  match leader.buildInstallSnapshot peerID with
  | none => some (leader, follower, false)
  | some args =>
      match follower.serveInstallSnapshot args with
      | none => none
      | some (follower, reply) =>
          match (leader.handleInstallSnapshotReply peerID args reply .none).finished with
          | none => none
          | some (leader, _) => some (leader, follower, reply.success)

inductive Round where
  | returned (leader follower : RaftNode)
  | again (leader follower : RaftNode)

/-- One pass through the loop of `replicateTo`, with storages that work. -/
def replicateRound (peerID : NodeID) (leader follower : RaftNode) : Option Round :=
  match sendInstallSnapshot peerID leader follower with
  | none => none
  | some (leader, follower, true) => some (.again leader follower)
  | some (leader, follower, false) =>
      match leader.buildAppendEntries peerID with
      | none => some (.returned leader follower)
      | some args =>
          match (follower.appendEntries args .none .none).finished with
          | none => none
          | some (follower, reply) =>
              match (leader.handleAppendEntriesReply peerID args reply .none).finished with
              | none => none
              | some (leader, _) =>
                  if reply.success then some (.returned leader follower)
                  else if leader.role ≠ .leader then some (.returned leader follower)
                  else some (.again leader follower)

/-- `replicateTo`, for as many rounds as are given.  What the reply handlers have committed is applied
later: applying entries is not part of the loop's state. -/
def replicateTo (peerID : NodeID) : ℕ → RaftNode → RaftNode → Option (RaftNode × RaftNode)
  | 0, _, _ => none
  | rounds + 1, leader, follower =>
      match replicateRound peerID leader follower with
      | none => none
      | some (.returned leader follower) => some (leader, follower)
      | some (.again leader follower) => replicateTo peerID rounds leader follower

variable {peerID : NodeID} {leader follower leader' follower' : RaftNode} {rounds : ℕ}

theorem replicateTo_returned (round : replicateRound peerID leader follower = some (.returned leader' follower')) :
    replicateTo peerID (rounds + 1) leader follower = some (leader', follower') := by
  simp only [replicateTo, round]

theorem replicateTo_again (round : replicateRound peerID leader follower = some (.again leader' follower')) :
    replicateTo peerID (rounds + 1) leader follower = replicateTo peerID rounds leader' follower' := by
  simp only [replicateTo, round]

end RaftNode

end Raftiq
