import Raftiq.Raft.ConfigEntry
import Raftiq.Raft.Node

namespace Raftiq

/-- Where the one thread that may be inside `applyCommitted` stands when it does not
hold the node's lock. -/
inductive ApplyStage where
  | idle
  | picked (index : ℕ) (entry : LogEntry)
  | sent (index : ℕ)
deriving DecidableEq

namespace RaftNode

def mustLeave (node : RaftNode) (membership : Membership) : Bool :=
  node.role = .leader ∧ membership.joint = none ∧ ¬ membershipIsVoter membership node.id

/-- The step down of a removed leader goes through `becomeFollowerLocked` with the
current term.  The result says whether the entry counts as applied. -/
def applyConfigurationEntryLocked (node : RaftNode) (entry : LogEntry)
    (stateFault leaveFault : Fault) : Outcome Bool :=
  match nextMembership entry with
  | .error _ => .done node false
  | .ok membership =>
      (node.persistState { node.persistent with membership := membership } stateFault).andThen
        fun node durable =>
          if ¬ durable then .done node false
          else if node.mustLeave membership then
            node.becomeFollowerLocked node.persistent.currentTerm leaveFault
          else .done node true

/-- One round of `applyCommitted` up to the point where it sends the entry. -/
def pickCommitted (node : RaftNode) (stateFault leaveFault : Fault) : Outcome ApplyStage :=
  if node.lastApplied ≥ node.commitIndex then .done node .idle
  else
    match node.log.get (node.lastApplied + 1) with
    | none => .done node .idle
    | some entry =>
        if isConfigurationEntry entry.data then
          (node.applyConfigurationEntryLocked entry stateFault leaveFault).andThen
            fun after applied =>
              if applied then .done { after with lastApplied := node.lastApplied + 1 } .idle
              else .done after .idle
        else .done node (.picked (node.lastApplied + 1) entry)

def markApplied (node : RaftNode) (index : ℕ) : RaftNode :=
  { node with lastApplied := if node.lastApplied < index then index else node.lastApplied }

end RaftNode

end Raftiq
