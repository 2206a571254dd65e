import Raftiq.Raft.Process
import Raftiq.Run

namespace Raftiq

/-- A cluster whose membership does not change.  Every node lists the voters in an
order of its own. -/
structure Cluster where
  membership : Membership
  view : NodeID → Membership
  view_same : ∀ v, (view v).Same membership
  peerIDs : NodeID → List NodeID
  canRestore : NodeID → Bool

inductive Host where
  | up (process : Process)
  | down (wal : WALStorage)

namespace Host

def process : Host → Option Process
  | .up process => some process
  | .down _ => none

theorem process_eq_some {host : Host} {running : Process} :
    host.process = some running ↔ host = .up running := by
  cases host with
  | up process => simp [Host.process]
  | down wal => simp [Host.process]

end Host

/-- All nodes, and everything they have done so far, oldest first.  The messages in
flight are those that were ever sent: any of them may arrive at any time, more than once
or never. -/
structure World where
  host : NodeID → Host
  trace : List (NodeID × Observation)

inductive Action where
  | act (v : NodeID) (event : Event)
  | crash (v : NodeID)
  | restart (v : NodeID) (keep : ℕ)
deriving DecidableEq

namespace Action

/-- No storage call fails and no configuration is proposed; nodes may crash and restart at
any time. -/
def regular : Action → Bool
  | .act _ event => decide event.NoStorageError && ! event.configures
  | .crash _ | .restart _ _ => true

/-- Elections, proposals of commands, replication, reads and application, without snapshots. -/
def uncompacted : Action → Bool
  | .act v event => (Action.act v event).regular && ! event.snapshots
  | .crash _ | .restart _ _ => true

/-- The same without reads. -/
def replicates : Action → Bool
  | .act v event => (Action.act v event).uncompacted && ! event.reads
  | .crash _ | .restart _ _ => true

end Action

/-- Nothing is read back that a crash might still lose. -/
def Host.ReadsSynced (keep : ℕ) : Host → Prop
  | .up _ => True
  | .down wal => wal.ReadsSynced keep

instance (keep : ℕ) : DecidablePred (Host.ReadsSynced keep)
  | .up _ => .isTrue trivial
  | .down wal => inferInstanceAs (Decidable (wal.ReadsSynced keep))

namespace World

/-- Nodes restart from synced storage. -/
def RestartsSynced (world : World) : Action → Prop
  | .restart v keep => (world.host v).ReadsSynced keep
  | .act _ _ | .crash _ => True

instance (world : World) : DecidablePred world.RestartsSynced
  | .restart v keep => inferInstanceAs (Decidable ((world.host v).ReadsSynced keep))
  | .act _ _ | .crash _ => .isTrue trivial

def WasSent (world : World) (message : Message) : Prop :=
  ∃ entry ∈ world.trace, entry.2 = .sent message

instance (world : World) (message : Message) : Decidable (world.WasSent message) :=
  inferInstanceAs (Decidable (∃ entry ∈ world.trace, entry.2 = .sent message))

/-- Whether a section of node `v` finds the message it handles.  Answers go to the node
whose call they answer, and every read is a new one. -/
def Arrives (world : World) (v : NodeID) : Event → Prop
  | .receiveRequestVote args _ _ => world.WasSent (.requestVote v args)
  | .receiveVoteReply args reply _ => args.candidateID = v ∧ world.WasSent (.voteReply args reply)
  | .receiveAppendEntries args .replication _ _ => world.WasSent (.appendEntries v args)
  | .receiveAppendEntries args (.probe read) _ _ => world.WasSent (.probe read v args)
  | .receiveAppendReply peerID args reply _ =>
      args.leaderID = v ∧ world.WasSent (.appendReply peerID args reply)
  | .receiveInstallSnapshot args _ _ => world.WasSent (.installSnapshot v args)
  | .receiveInstallReply peerID args reply _ =>
      args.leaderID = v ∧ world.WasSent (.installReply peerID args reply)
  | .receiveProbeResult read peerID (.answered reply) _ => world.WasSent (.probeReply read peerID reply)
  | .beginRead read => ∀ entry ∈ world.trace, entry.2 ≠ .readBegan read
  | _ => True

instance (world : World) (v : NodeID) : (event : Event) → Decidable (world.Arrives v event)
  | .receiveRequestVote args _ _ => inferInstanceAs (Decidable (world.WasSent (.requestVote v args)))
  | .receiveVoteReply args reply _ =>
      inferInstanceAs (Decidable (args.candidateID = v ∧ world.WasSent (.voteReply args reply)))
  | .receiveAppendEntries args .replication _ _ =>
      inferInstanceAs (Decidable (world.WasSent (.appendEntries v args)))
  | .receiveAppendEntries args (.probe read) _ _ =>
      inferInstanceAs (Decidable (world.WasSent (.probe read v args)))
  | .receiveAppendReply peerID args reply _ =>
      inferInstanceAs (Decidable (args.leaderID = v ∧ world.WasSent (.appendReply peerID args reply)))
  | .receiveInstallSnapshot args _ _ =>
      inferInstanceAs (Decidable (world.WasSent (.installSnapshot v args)))
  | .receiveInstallReply peerID args reply _ =>
      inferInstanceAs (Decidable (args.leaderID = v ∧ world.WasSent (.installReply peerID args reply)))
  | .receiveProbeResult read peerID (.answered reply) _ =>
      inferInstanceAs (Decidable (world.WasSent (.probeReply read peerID reply)))
  | .beginRead read =>
      inferInstanceAs (Decidable (∀ entry ∈ world.trace, entry.2 ≠ .readBegan read))
  | .receiveProbeResult _ _ .failed _ | .startElection _ | .requestVotes | .tryBecomeLeader
  | .propose _ _ | .replicateTo _ | .pickCommitted _ _ | .sendApplied | .markApplied
  | .createSnapshot _ _ _ _ | .sendInstallSnapshot _ | .restoreSnapshot _ _ | .finishInstall _ _
  | .probeRead _ _ | .cancelRead _ => .isTrue trivial

def update (world : World) (v : NodeID) (host : Host) (observations : List Observation) : World where
  host := Function.update world.host v host
  trace := world.trace ++ observations.map (v, ·)

@[simp] theorem update_host_self (world : World) (v : NodeID) (host : Host)
    (observations : List Observation) : (world.update v host observations).host v = host :=
  Function.update_self _ _ _

theorem mem_update_trace {world : World} {v : NodeID} {host : Host} {observations : List Observation}
    {entry : NodeID × Observation} :
    entry ∈ (world.update v host observations).trace ↔
      entry ∈ world.trace ∨ entry.1 = v ∧ entry.2 ∈ observations := by
  simp only [update, List.mem_append, List.mem_map]
  refine or_congr_right ⟨?_, ?_⟩
  · rintro ⟨observation, member, rfl⟩
    exact ⟨rfl, member⟩
  · rintro ⟨rfl, member⟩
    exact ⟨entry.2, member, rfl⟩

end World

namespace Cluster

variable (cluster : Cluster)

/-- The storage that `BootstrapMembership` leaves behind on a new node. -/
def bootstrapped (v : NodeID) : WALStorage :=
  (WALStorage.openEmpty.appendRecord
    (.state { currentTerm := 0, votedFor := "", membership := cluster.view v })).sync

def boot (v : NodeID) (wal : WALStorage) : Except StartError Process :=
  match RaftNode.newRaftNodeWithStorage v wal with
  | .error error => .error error
  | .ok node => .ok (.start (node.configure (cluster.peerIDs v) (cluster.canRestore v)))

def initial : World where
  host v :=
    match cluster.boot v (cluster.bootstrapped v) with
    | .error _ => .down (cluster.bootstrapped v)
    | .ok process => .up process
  trace := []

def step (world : World) : Action → Option World
  | .act v event =>
      match world.host v with
      | .down _ => none
      | .up process =>
          if world.Arrives v event then
            match process.step event with
            | none => none
            | some (.running after observations) => some (world.update v (.up after) observations)
            | some (.crashed wal) => some (world.update v (.down wal) [])
          else none
  | .crash v =>
      match world.host v with
      | .down _ => none
      | .up process => some (world.update v (.down process.node.storage) [])
  | .restart v keep =>
      match world.host v with
      | .up _ => none
      | .down wal =>
          match wal.reopen keep with
          | .error _ => none
          | .ok reopened =>
              match cluster.boot v reopened with
              | .error _ => none
              | .ok process => some (world.update v (.up process) [])

variable {cluster}

theorem step_act {world after : World} {v : NodeID} {event : Event}
    (stepped : cluster.step world (.act v event) = some after) :
    ∃ process, world.host v = .up process ∧ world.Arrives v event ∧
      ((∃ next observations, process.step event = some (.running next observations) ∧
          after = world.update v (.up next) observations) ∨
        ∃ wal, process.step event = some (.crashed wal) ∧ after = world.update v (.down wal) []) := by
  simp only [step] at stepped
  split at stepped
  · simp at stepped
  · rename_i process up
    split at stepped
    · rename_i arrives
      refine ⟨process, up, arrives, ?_⟩
      split at stepped
      · simp at stepped
      · rename_i next observations ran
        exact Or.inl ⟨next, observations, ran, (Option.some.inj stepped).symm⟩
      · rename_i wal crashed
        exact Or.inr ⟨wal, crashed, (Option.some.inj stepped).symm⟩
    · simp at stepped

theorem step_crash {world after : World} {v : NodeID}
    (stepped : cluster.step world (.crash v) = some after) :
    ∃ process, world.host v = .up process ∧
      after = world.update v (.down process.node.storage) [] := by
  simp only [step] at stepped
  split at stepped
  · simp at stepped
  · rename_i process up
    exact ⟨process, up, (Option.some.inj stepped).symm⟩

theorem boot_ok {v : NodeID} {wal : WALStorage} {process : Process}
    (booted : cluster.boot v wal = .ok process) :
    ∃ log, RaftNode.restoreLog wal.contents = .ok log ∧
      process = .start {
        id := v
        persistent := wal.contents.state
        commitIndex := wal.contents.loadSnapshot.lastIncludedIndex
        lastApplied := wal.contents.loadSnapshot.lastIncludedIndex
        nextIndex := fun _ => none
        matchIndex := fun _ => 0
        votesReceived := []
        role := .follower
        leaderID := ""
        log := log
        storage := wal
        peerIDs := cluster.peerIDs v
        canRestore := cluster.canRestore v
        storageWriteBlocked := false } := by
  unfold boot RaftNode.newRaftNodeWithStorage at booted
  cases restored : RaftNode.restoreLog wal.contents with
  | error error => simp [restored] at booted
  | ok log =>
      rw [restored] at booted
      exact ⟨log, rfl, (Except.ok.inj booted).symm⟩

theorem step_restart {world after : World} {v : NodeID} {keep : ℕ}
    (stepped : cluster.step world (.restart v keep) = some after) :
    ∃ wal reopened process, world.host v = .down wal ∧ wal.reopen keep = .ok reopened ∧
      cluster.boot v reopened = .ok process ∧ after = world.update v (.up process) [] := by
  simp only [step] at stepped
  split at stepped
  · simp at stepped
  · rename_i wal down
    split at stepped
    · simp at stepped
    · rename_i reopened opened
      split at stepped
      · simp at stepped
      · rename_i process booted
        exact ⟨wal, reopened, process, down, opened, booted, (Option.some.inj stepped).symm⟩

/-- A step changes one host and adds to the trace what this host's process did. -/
theorem step_update {world after : World} {action : Action}
    (stepped : cluster.step world action = some after) :
    ∃ v host observations, after = world.update v host observations ∧
      (observations = [] ∨ ∃ event process next, action = .act v event ∧ world.host v = .up process ∧
        world.Arrives v event ∧ process.step event = some (.running next observations)) := by
  cases action with
  | act v event =>
      obtain ⟨process, up, arrives, ⟨next, observations, ran, same⟩ | ⟨wal, _, same⟩⟩ := step_act stepped
      · exact ⟨v, .up next, observations, same, Or.inr ⟨event, process, next, rfl, up, arrives, ran⟩⟩
      · exact ⟨v, .down wal, [], same, Or.inl rfl⟩
  | crash v =>
      obtain ⟨process, _, same⟩ := step_crash stepped
      exact ⟨v, _, [], same, Or.inl rfl⟩
  | restart v keep =>
      obtain ⟨_, _, process, _, _, _, same⟩ := step_restart stepped
      exact ⟨v, .up process, [], same, Or.inl rfl⟩

/-- What was seen stays seen. -/
theorem step_trace {world after : World} {action : Action} (stepped : cluster.step world action = some after) :
    world.trace ⊆ after.trace := by
  obtain ⟨v, host, observations, rfl, _⟩ := step_update stepped
  exact fun _ member => World.mem_update_trace.mpr (Or.inl member)

/-- A node that is up after a step was so before and has taken part in the step or not, or it has
started again. -/
theorem step_host {world after : World} {action : Action} {v : NodeID} {process : Process}
    (stepped : cluster.step world action = some after) (up : after.host v = .up process) :
    world.host v = .up process ∨
      (∃ before event observations, world.host v = .up before ∧ action = .act v event ∧
        world.Arrives v event ∧ before.step event = some (.running process observations)) ∨
      ∃ wal reopened keep, world.host v = .down wal ∧ action = .restart v keep ∧
        wal.reopen keep = .ok reopened ∧ cluster.boot v reopened = .ok process := by
  have elsewhere : ∀ {w host observations}, w ≠ v → (world.update w host observations).host v = .up process →
      world.host v = .up process := by
    intro w host observations other updated
    simpa [World.update, other.symm] using updated
  cases action with
  | act w event =>
      obtain ⟨before, running, arrives, ⟨next, observations, ran, rfl⟩ | ⟨wal, _, rfl⟩⟩ := step_act stepped
      · by_cases same : w = v
        · subst same
          rw [World.update_host_self] at up
          cases up
          exact Or.inr (Or.inl ⟨before, event, observations, running, rfl, arrives, ran⟩)
        · exact Or.inl (elsewhere same up)
      · by_cases same : w = v
        · subst same
          rw [World.update_host_self] at up
          cases up
        · exact Or.inl (elsewhere same up)
  | crash w =>
      obtain ⟨before, _, rfl⟩ := step_crash stepped
      by_cases same : w = v
      · subst same
        rw [World.update_host_self] at up
        cases up
      · exact Or.inl (elsewhere same up)
  | restart w keep =>
      obtain ⟨wal, reopened, started, down, opened, booted, rfl⟩ := step_restart stepped
      by_cases same : w = v
      · subst same
        rw [World.update_host_self] at up
        cases up
        exact Or.inr (Or.inr ⟨wal, reopened, keep, down, rfl, opened, booted⟩)
      · exact Or.inl (elsewhere same up)

/-- Three voters that know each other, for runs that are written out. -/
def trio : Cluster where
  membership := { current := { voters := ["A", "B", "C"] }, joint := none }
  view _ := { current := { voters := ["A", "B", "C"] }, joint := none }
  view_same _ := .refl _
  peerIDs v := ["A", "B", "C"].erase v
  canRestore _ := true

end Cluster

namespace Process

variable {process after : Process}

/-- A run of one node, up to its next crash. -/
def advance (process : Process) (event : Event) : Option Process :=
  match process.step event with
  | some (.running after _) => some after
  | _ => none

theorem advance_running {event : Event} (advanced : process.advance event = some after) :
    ∃ observations, process.step event = some (.running after observations) := by
  unfold advance at advanced
  split at advanced
  · rename_i next observations stepped
    cases advanced
    exact ⟨observations, stepped⟩
  · simp at advanced

/-- Node `A` of three is elected in term 1, and `B` acknowledges what it proposes. -/
def leadAndCommit (commands : List Bytes) : List Event :=
  let entries := commands.zipIdx.map fun (data, index) => ⟨index + 1, 1, data⟩
  [.startElection .none, .receiveVoteReply ⟨1, "A", 0, 0⟩ ⟨1, "B", true⟩ .none, .tryBecomeLeader] ++
    commands.map (.propose · .none) ++
    [.receiveAppendReply "B" ⟨1, "A", 0, 0, entries, 0⟩ ⟨1, "B", true⟩ .none]

end Process

end Raftiq
