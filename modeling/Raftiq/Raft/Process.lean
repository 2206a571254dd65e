import Raftiq.Raft.Apply
import Raftiq.Raft.Election
import Raftiq.Raft.ReadIndex
import Raftiq.Raft.Snapshot

namespace Raftiq

/-- Calls carry the peer they are sent to; answers carry the call they belong to. -/
inductive Message where
  | requestVote (target : NodeID) (args : RequestVoteArgs)
  | voteReply (args : RequestVoteArgs) (reply : RequestVoteReply)
  | appendEntries (target : NodeID) (args : AppendEntriesArgs)
  | appendReply (peerID : NodeID) (args : AppendEntriesArgs) (reply : AppendEntriesReply)
  | probe (read : ℕ) (target : NodeID) (args : AppendEntriesArgs)
  | probeReply (read : ℕ) (peerID : NodeID) (reply : AppendEntriesReply)
  | installSnapshot (target : NodeID) (args : InstallSnapshotArgs)
  | installReply (peerID : NodeID) (args : InstallSnapshotArgs) (reply : InstallSnapshotReply)
deriving DecidableEq

/-- What a node does that others, or its clients, can notice. -/
inductive Observation where
  | sent (message : Message)
  | builtFrom (args : AppendEntriesArgs) (log : Log)
  | elected (term : ℕ) (log : Log)
  | proposed (entry : LogEntry)
  | committed (term : ℕ) (index : ℕ) (log : Log)
  | applied (entry : LogEntry)
  | readBegan (read : ℕ)
  | readReturned (read : ℕ) (result : Except ReadError ℕ)
deriving DecidableEq

/-- Why an `AppendEntries` call was made; its handler cannot tell. -/
inductive AppendPurpose where
  | replication
  | probe (read : ℕ)
deriving DecidableEq

/-- One critical section of one of the node's threads. -/
inductive Event where
  | startElection (fault : Fault)
  | requestVotes
  | receiveRequestVote (args : RequestVoteArgs) (termFault voteFault : Fault)
  | receiveVoteReply (args : RequestVoteArgs) (reply : RequestVoteReply) (fault : Fault)
  | tryBecomeLeader
  | propose (data : Bytes) (fault : Fault)
  | replicateTo (peerID : NodeID)
  | receiveAppendEntries (args : AppendEntriesArgs) (purpose : AppendPurpose) (termFault logFault : Fault)
  | receiveAppendReply (peerID : NodeID) (args : AppendEntriesArgs) (reply : AppendEntriesReply)
      (fault : Fault)
  | pickCommitted (stateFault leaveFault : Fault)
  | sendApplied
  | markApplied
  | createSnapshot (index : ℕ) (data : Bytes) (saveFault compactFault : Fault)
  | sendInstallSnapshot (peerID : NodeID)
  | receiveInstallSnapshot (args : InstallSnapshotArgs) (termFault saveFault : Fault)
  | restoreSnapshot (install : PendingInstall) (succeeds : Bool)
  | finishInstall (install : PendingInstall) (fault : Fault)
  | receiveInstallReply (peerID : NodeID) (args : InstallSnapshotArgs) (reply : InstallSnapshotReply)
      (fault : Fault)
  | beginRead (read : ℕ)
  | probeRead (read : ℕ) (peerID : NodeID)
  | receiveProbeResult (read : ℕ) (peerID : NodeID) (result : ProbeResult) (fault : Fault)
  | cancelRead (read : ℕ)
deriving DecidableEq

namespace Event

def faults : Event → List Fault
  | .startElection fault | .receiveVoteReply _ _ fault | .propose _ fault
  | .receiveAppendReply _ _ _ fault | .finishInstall _ fault | .receiveInstallReply _ _ _ fault
  | .receiveProbeResult _ _ _ fault => [fault]
  | .receiveRequestVote _ first second | .receiveAppendEntries _ _ first second
  | .pickCommitted first second | .createSnapshot _ _ first second
  | .receiveInstallSnapshot _ first second => [first, second]
  | .requestVotes | .tryBecomeLeader | .replicateTo _ | .sendApplied | .markApplied
  | .sendInstallSnapshot _ | .restoreSnapshot _ _ | .beginRead _ | .probeRead _ _ | .cancelRead _ => []

/-- Storage calls succeed; a crash may still strike between two of them. -/
def NoStorageError (event : Event) : Prop :=
  ∀ fault ∈ event.faults, fault = .none ∨ fault = .crash

instance : DecidablePred NoStorageError :=
  fun event => inferInstanceAs (Decidable (∀ fault ∈ event.faults, fault = .none ∨ fault = .crash))

/-- Sections of `CreateSnapshot`, `InstallSnapshot` and its callers. -/
def snapshots : Event → Bool
  | .createSnapshot _ _ _ _ | .sendInstallSnapshot _ | .receiveInstallSnapshot _ _ _
  | .restoreSnapshot _ _ | .finishInstall _ _ | .receiveInstallReply _ _ _ _ => true
  | _ => false

/-- Sections of `ReadIndex`, and the calls it makes. -/
def reads : Event → Bool
  | .receiveAppendEntries _ (.probe _) _ _ | .beginRead _ | .probeRead _ _ | .receiveProbeResult _ _ _ _
  | .cancelRead _ => true
  | _ => false

def configures : Event → Bool
  | .propose data _ => isConfigurationEntry data
  | _ => false

end Event

/-- A running node with the calls that have released its lock without returning. -/
structure Process where
  node : RaftNode
  applying : ApplyStage
  installs : List PendingInstall
  reads : ℕ → Option PendingRead

inductive Result where
  | running (process : Process) (observations : List Observation)
  | crashed (wal : WALStorage)

namespace Process

def start (node : RaftNode) : Process where
  node := node
  applying := .idle
  installs := []
  reads _ := none

def withNode (process : Process) (node : RaftNode) : Process :=
  { process with node := node }

/-- A critical section that only touches the node and answers with messages. -/
def settle {α : Type} (process : Process) (outcome : Outcome α)
    (observe : RaftNode → α → List Observation) : Result :=
  match outcome with
  | .done node result => .running (process.withNode node) (observe node result)
  | .crashed wal => .crashed wal

/-- A leader's commit index has been raised. -/
def observeCommit (before after : RaftNode) : List Observation :=
  if before.commitIndex < after.commitIndex then
    [.committed after.persistent.currentTerm after.commitIndex after.log]
  else []

def observeElection (node : RaftNode) (won : Bool) : List Observation :=
  if won then [.elected node.persistent.currentTerm node.log] else []

def observeProposal (before after : RaftNode) (result : Except ProposeError ℕ) : List Observation :=
  match result with
  | .error _ => []
  | .ok index => ((after.log.get index).map Observation.proposed).toList ++ observeCommit before after

def appendAnswer (purpose : AppendPurpose) (node : RaftNode) (args : AppendEntriesArgs)
    (reply : AppendEntriesReply) : Message :=
  match purpose with
  | .replication => .appendReply node.id args reply
  | .probe read => .probeReply read node.id reply

def settleApply (process : Process) (outcome : Outcome ApplyStage) : Result :=
  match outcome with
  | .done node stage => .running { process with node := node, applying := stage } []
  | .crashed wal => .crashed wal

def settleInstall (process : Process) (args : InstallSnapshotArgs)
    (outcome : Outcome RaftNode.InstallResult) : Result :=
  match outcome with
  | .done node (.replied reply) =>
      .running (process.withNode node) [.sent (.installReply node.id args reply)]
  | .done node (.pending install) =>
      .running { process with node := node, installs := install :: process.installs } []
  | .crashed wal => .crashed wal

/-- Books the progress of a read: it waits on, or it is gone and has returned. -/
def settleRead (process : Process) (read : ℕ) (progress : ReadProgress) : Process × List Observation :=
  match progress with
  | .waiting pending => ({ process with reads := Function.update process.reads read (some pending) }, [])
  | .returned result =>
      ({ process with reads := Function.update process.reads read none }, [.readReturned read result])

def settleReadOutcome (process : Process) (read : ℕ) (outcome : Outcome ReadProgress) : Result :=
  match outcome with
  | .done node progress =>
      let (process, observations) := (process.withNode node).settleRead read progress
      .running process observations
  | .crashed wal => .crashed wal

/-- An `AppendEntries` call is noted together with the log it was built from. -/
def sendAppend (process : Process) (args : Option AppendEntriesArgs)
    (message : AppendEntriesArgs → Message) : Result :=
  .running process
    (match args with
    | none => []
    | some args => [.sent (message args), .builtFrom args process.node.log])

/-- A section that is not possible in the process's state has no result. -/
def step (process : Process) : Event → Option Result
  | .startElection fault => some (process.settle (process.node.startElection fault) fun _ _ => [])
  | .requestVotes =>
      some (.running process
        (match process.node.requestVotes with
        | none => []
        | some args => process.node.peerIDs.map fun peerID => .sent (.requestVote peerID args)))
  | .receiveRequestVote args termFault voteFault =>
      some (process.settle (process.node.requestVote args termFault voteFault)
        fun _ reply => [.sent (.voteReply args reply)])
  | .receiveVoteReply args reply fault =>
      some (process.settle (process.node.handleVoteReply args.term reply fault) fun _ _ => [])
  | .tryBecomeLeader => some (process.settle process.node.tryBecomeLeader observeElection)
  | .propose data fault =>
      some (process.settle (process.node.propose data fault) (observeProposal process.node))
  | .replicateTo peerID =>
      some (process.sendAppend (process.node.buildAppendEntries peerID) (.appendEntries peerID))
  | .receiveAppendEntries args purpose termFault logFault =>
      some (process.settle (process.node.appendEntries args termFault logFault)
        fun node reply => [.sent (appendAnswer purpose node args reply)])
  | .receiveAppendReply peerID args reply fault =>
      some (process.settle (process.node.handleAppendEntriesReply peerID args reply fault)
        fun node _ => observeCommit process.node node)
  | .pickCommitted stateFault leaveFault =>
      match process.applying with
      | .idle => some (process.settleApply (process.node.pickCommitted stateFault leaveFault))
      | _ => none
  | .sendApplied =>
      match process.applying with
      | .picked index entry => some (.running { process with applying := .sent index } [.applied entry])
      | _ => none
  | .markApplied =>
      match process.applying with
      | .sent index =>
          some (.running { process with node := process.node.markApplied index, applying := .idle } [])
      | _ => none
  | .createSnapshot index data saveFault compactFault =>
      some (process.settle (process.node.createSnapshot index data saveFault compactFault)
        fun _ _ => [])
  | .sendInstallSnapshot peerID =>
      some (.running process
        (match process.node.buildInstallSnapshot peerID with
        | none => []
        | some args => [.sent (.installSnapshot peerID args)]))
  | .receiveInstallSnapshot args termFault saveFault =>
      some (process.settleInstall args (process.node.installSnapshot args termFault saveFault))
  | .restoreSnapshot install succeeds =>
      if install ∈ process.installs ∧ ¬ install.restored then
        let others := process.installs.erase install
        if succeeds then
          some (.running { process with installs := { install with restored := true } :: others } [])
        else
          some (.running { process with installs := others }
            [.sent (.installReply process.node.id install.args
              { term := install.replyTerm, followerID := process.node.id, success := false })])
      else none
  | .finishInstall install fault =>
      if install ∈ process.installs ∧ install.restored then
        some ({ process with installs := process.installs.erase install }.settle
          (process.node.finishInstall install fault)
          fun node reply => [.sent (.installReply node.id install.args reply)])
      else none
  | .receiveInstallReply peerID args reply fault =>
      some (process.settle (process.node.handleInstallSnapshotReply peerID args reply fault)
        fun node _ => observeCommit process.node node)
  | .beginRead read =>
      match process.reads read with
      | some _ => none
      | none =>
          let (process, observations) := process.settleRead read process.node.beginReadIndex
          some (.running process (.readBegan read :: observations))
  | .probeRead read peerID =>
      match process.reads read with
      | none => none
      | some pending =>
          if peerID ∈ pending.waiting then
            some (process.sendAppend (process.node.probeReadIndex pending peerID) (.probe read peerID))
          else none
  | .receiveProbeResult read peerID result fault =>
      match process.reads read with
      | none => none
      | some pending =>
          if peerID ∈ pending.waiting then
            some (process.settleReadOutcome read
              (process.node.handleReadResult pending peerID result fault))
          else none
  | .cancelRead read =>
      match process.reads read with
      | none => none
      | some _ => some (.running { process with reads := Function.update process.reads read none } [])

end Process

end Raftiq
