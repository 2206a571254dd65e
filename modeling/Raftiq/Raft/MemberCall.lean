import Raftiq.Raft.Applied
import Raftiq.Raft.ConfigEncoding

namespace Raftiq

inductive MemberChange where
  | add
  | remove
deriving DecidableEq, Repr

inductive MemberError where
  | missingID
  | notLeader (role : Role)
  | localNode
  | inJoint
  | alreadyVoter
  | notVoter
  | notRegistered
  | lastVoter
  | leaderLost (role : Role)
  | timedOut
  | encodeEnterJoint (error : ConfigEntryError)
  | proposeEnterJoint (error : ProposeError)
  | encodeLeaveJoint (error : ConfigEntryError)
  | proposeLeaveJoint (error : ProposeError)
  | stillJoint
  | notPresent
  | stillPresent
deriving DecidableEq, Repr

/-- Where an `AddMember` or `RemoveMember` call stands when it does not hold the node's lock.
Only `AddMember` waits until its peer has caught up. -/
inductive MemberStage where
  | readTarget
  | catchUp (targetIndex : ℕ)
  | enterJoint
  | awaitEnter (enterJointIndex : ℕ)
  | readJointTarget
  | catchUpJoint (jointTargetIndex : ℕ)
  | leaveJoint
  | awaitLeave (leaveJointIndex : ℕ)
  | readFinal
deriving DecidableEq, Repr

namespace MemberStage

/-- The stages at which the call's context can expire. -/
def waits : MemberStage → Bool
  | .catchUp _ | .awaitEnter _ | .catchUpJoint _ | .awaitLeave _ => true
  | .readTarget | .enterJoint | .readJointTarget | .leaveJoint | .readFinal => false

end MemberStage

/-- A call in progress; both configurations are computed when it is validated. -/
structure MemberCall where
  change : MemberChange
  peerID : NodeID
  oldConfiguration : Configuration
  newConfiguration : Configuration
  stage : MemberStage
deriving DecidableEq, Repr

namespace MemberCall

def moveTo (call : MemberCall) (stage : MemberStage) : MemberCall :=
  { call with stage := stage }

end MemberCall

inductive MemberProgress where
  | waiting (call : MemberCall)
  | returned (result : Except MemberError Unit)
deriving DecidableEq

namespace RaftNode

def validateAddMemberLocked (node : RaftNode) (peerID : NodeID) :
    Except MemberError (Configuration × Configuration) :=
  let membership := node.persistent.membership
  if node.role ≠ .leader then .error (.notLeader node.role)
  else if peerID = node.id then .error .localNode
  else if membership.joint ≠ none then .error .inJoint
  else if membershipIsVoter membership peerID then .error .alreadyVoter
  else if peerID ∉ node.peerIDs then .error .notRegistered
  else .ok (membership.current, { voters := membership.current.voters ++ [peerID] })

def validateRemoveMemberLocked (node : RaftNode) (peerID : NodeID) :
    Except MemberError (Configuration × Configuration) :=
  let membership := node.persistent.membership
  if node.role ≠ .leader then .error (.notLeader node.role)
  else if peerID = node.id then .error .localNode
  else if membership.joint ≠ none then .error .inJoint
  else if ¬ membershipIsVoter membership peerID then .error .notVoter
  else if membership.current.voters.length ≤ 1 then .error .lastVoter
  else .ok (membership.current, { voters := membership.current.voters.filter (· ≠ peerID) })

/-- What a call's validation has found and computed. -/
theorem validateAddMemberLocked_ok {node : RaftNode} {peerID : NodeID} {old new : Configuration}
    (validated : node.validateAddMemberLocked peerID = .ok (old, new)) :
    old = node.persistent.membership.current ∧ new.voters = old.voters ++ [peerID] ∧
      node.persistent.membership.joint = none ∧ ¬ membershipIsVoter node.persistent.membership peerID := by
  unfold validateAddMemberLocked at validated
  dsimp only at validated
  split at validated
  · cases validated
  · split at validated
    · cases validated
    · split at validated
      · cases validated
      · rename_i stable
        split at validated
        · cases validated
        · rename_i outside
          split at validated
          · cases validated
          · cases validated
            exact ⟨rfl, rfl, not_not.mp stable, outside⟩

theorem validateRemoveMemberLocked_ok {node : RaftNode} {peerID : NodeID} {old new : Configuration}
    (validated : node.validateRemoveMemberLocked peerID = .ok (old, new)) :
    old = node.persistent.membership.current ∧ new.voters = old.voters.filter (· ≠ peerID) ∧
      node.persistent.membership.joint = none ∧ membershipIsVoter node.persistent.membership peerID ∧
      1 < old.voters.length := by
  unfold validateRemoveMemberLocked at validated
  dsimp only at validated
  split at validated
  · cases validated
  · split at validated
    · cases validated
    · split at validated
      · cases validated
      · rename_i stable
        split at validated
        · cases validated
        · rename_i voter
          split at validated
          · cases validated
          · rename_i several
            cases validated
            exact ⟨rfl, rfl, not_not.mp stable, not_not.mp voter, not_le.mp several⟩

def initializeNewPeerReplicationStateLocked (node : RaftNode) (peerID : NodeID) : RaftNode :=
  { node with
    nextIndex := Function.update node.nextIndex peerID (some 1)
    matchIndex := Function.update node.matchIndex peerID 0 }

/-- The first critical section of `AddMember` and of `RemoveMember`. -/
def beginMember (node : RaftNode) (change : MemberChange) (peerID : NodeID) : RaftNode × MemberProgress :=
  if peerID = "" then (node, .returned (.error .missingID))
  else
    match change with
    | .add =>
        match node.validateAddMemberLocked peerID with
        | .error error => (node, .returned (.error error))
        | .ok (old, new) =>
            (node.initializeNewPeerReplicationStateLocked peerID, .waiting ⟨change, peerID, old, new, .readTarget⟩)
    | .remove =>
        match node.validateRemoveMemberLocked peerID with
        | .error error => (node, .returned (.error error))
        | .ok (old, new) => (node, .waiting ⟨change, peerID, old, new, .enterJoint⟩)

/-- One round of the loop of `catchUpPeer`. -/
def catchUpPeer (node : RaftNode) (call : MemberCall) (targetIndex : ℕ) (next : MemberStage) :
    MemberProgress :=
  if node.role ≠ .leader then .returned (.error (.leaderLost node.role))
  else if node.matchIndex call.peerID ≥ targetIndex then .waiting (call.moveTo next)
  else .waiting call

/-- One round of the loop of `waitForApplied`. -/
def waitForApplied (node : RaftNode) (call : MemberCall) (targetIndex : ℕ) (next : MemberStage) :
    MemberProgress :=
  if node.lastApplied ≥ targetIndex then .waiting (call.moveTo next)
  else if node.role ≠ .leader then .returned (.error (.leaderLost node.role))
  else .waiting call

/-- A call proposes an entry and waits for it, unless the entry cannot be built. -/
def proposeEntry (node : RaftNode) (call : MemberCall) (encoded : Except ConfigEntryError Bytes) (fault : Fault)
    (encodeFailed : ConfigEntryError → MemberError) (proposeFailed : ProposeError → MemberError)
    (next : ℕ → MemberStage) : Outcome MemberProgress :=
  match encoded with
  | .error error => .done node (.returned (.error (encodeFailed error)))
  | .ok data =>
      (node.propose data fault).andThen fun node result =>
        match result with
        | .error error => .done node (.returned (.error (proposeFailed error)))
        | .ok index => .done node (.waiting (call.moveTo (next index)))

def proposeEnterJoint (node : RaftNode) (call : MemberCall) (fault : Fault) : Outcome MemberProgress :=
  node.proposeEntry call (encodeEnterJointConfigurationEntry call.oldConfiguration call.newConfiguration)
    fault .encodeEnterJoint .proposeEnterJoint .awaitEnter

def proposeLeaveJoint (node : RaftNode) (call : MemberCall) (fault : Fault) : Outcome MemberProgress :=
  node.proposeEntry call (encodeLeaveJointConfigurationEntry call.newConfiguration)
    fault .encodeLeaveJoint .proposeLeaveJoint .awaitLeave

def checkFinalMembership (node : RaftNode) (call : MemberCall) : Except MemberError Unit :=
  let membership := node.persistent.membership
  if membership.joint ≠ none then .error .stillJoint
  else
    match call.change with
    | .add => if configurationContainsVoter membership.current call.peerID then .ok () else .error .notPresent
    | .remove => if membershipIsVoter membership call.peerID then .error .stillPresent else .ok ()

/-- The next critical section of a call. -/
def resumeMember (node : RaftNode) (call : MemberCall) (fault : Fault) : Outcome MemberProgress :=
  match call.stage with
  | .readTarget => .done node (.waiting (call.moveTo (.catchUp node.log.lastIndex)))
  | .catchUp targetIndex => .done node (node.catchUpPeer call targetIndex .enterJoint)
  | .enterJoint => node.proposeEnterJoint call fault
  | .awaitEnter index =>
      .done node (node.waitForApplied call index
        (match call.change with
        | .add => .readJointTarget
        | .remove => .leaveJoint))
  | .readJointTarget => .done node (.waiting (call.moveTo (.catchUpJoint node.log.lastIndex)))
  | .catchUpJoint targetIndex => .done node (node.catchUpPeer call targetIndex .leaveJoint)
  | .leaveJoint => node.proposeLeaveJoint call fault
  | .awaitLeave index => .done node (node.waitForApplied call index .readFinal)
  | .readFinal => .done node (.returned (node.checkFinalMembership call))

end RaftNode

/-- The log that calls write one after the other, for runs that are written out. -/
def jointData (changes : List (List NodeID × List NodeID)) : List Bytes :=
  (changes.flatMap fun (old, new) => [encodeEnterJointConfigurationEntry ⟨old⟩ ⟨new⟩,
    encodeLeaveJointConfigurationEntry ⟨new⟩]).filterMap Except.toOption

end Raftiq
