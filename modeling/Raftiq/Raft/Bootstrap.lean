import Raftiq.Raft.SavesStates

namespace Raftiq

inductive BootstrapError where
  | noVoters
  | persist
deriving DecidableEq, Repr

namespace RaftNode

def addVoter (voters : List NodeID) (id : NodeID) : List NodeID :=
  if id = "" then voters else if id ∈ voters then voters else voters ++ [id]

/-- The node itself and its peers, each of them once. -/
def bootstrapVoters (node : RaftNode) : List NodeID :=
  (node.id :: node.peerIDs).foldl addVoter []

def hasMembership (node : RaftNode) : Bool :=
  node.persistent.membership.current.voters ≠ [] ∨ node.persistent.membership.joint ≠ none

def withMembership (node : RaftNode) (membership : Membership) : RaftNode :=
  { node with persistent := { node.persistent with membership := membership } }

/-- Unlike everywhere else, the new membership is published before it is saved. -/
def bootstrapMembership (node : RaftNode) (fault : Fault) : Outcome (Except BootstrapError Unit) :=
  if node.hasMembership then .done node (.ok ())
  else if node.bootstrapVoters = [] then .done node (.error .noVoters)
  else
    let node := node.withMembership { current := { voters := node.bootstrapVoters }, joint := none }
    (node.persistState node.persistent fault).andThen fun node durable =>
      if durable then .done node (.ok ()) else .done node (.error .persist)

/-- The call writes a membership. -/
def Bootstraps (node : RaftNode) : Prop :=
  ¬ node.hasMembership ∧ node.bootstrapVoters ≠ []

instance (node : RaftNode) : Decidable node.Bootstraps :=
  inferInstanceAs (Decidable (¬ node.hasMembership ∧ node.bootstrapVoters ≠ []))

theorem bootstrapMembership_idle {node : RaftNode} (idle : ¬ node.Bootstraps) (fault : Fault) :
    ∃ result, node.bootstrapMembership fault = .done node result := by
  unfold bootstrapMembership
  split
  · exact ⟨_, rfl⟩
  · rename_i none
    split
    · exact ⟨_, rfl⟩
    · rename_i some
      exact absurd ⟨none, some⟩ idle

theorem bootstrapMembership_writes {node : RaftNode} (writes : node.Bootstraps) (fault : Fault) :
    (node.bootstrapMembership fault).SavesStates
      (node.withMembership { current := { voters := node.bootstrapVoters }, joint := none }) := by
  obtain ⟨none, some⟩ := writes
  unfold bootstrapMembership
  rw [if_neg none, if_neg some]
  apply Outcome.SavesStates.andThen
  · exact persistState_saves _ fault (Or.inl rfl)
  · intro middle durable
    split
    · exact middle.saves_refl _
    · exact middle.saves_refl _

end RaftNode

end Raftiq
