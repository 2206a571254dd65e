import Raftiq.Provenance
import Raftiq.Raft.CommitSource
import Raftiq.ReadFreshness

namespace Raftiq

/-! No node's commit index is ahead of all leaders'. -/

/-- What a node knows to be committed, has applied and waits for is not beyond an index. -/
structure Process.Below (bound : ℕ) (process : Process) : Prop where
  commit : process.node.commitIndex ≤ bound
  applied : process.node.lastApplied ≤ bound
  applying : ∀ index ∈ process.applying.index, index ≤ bound
  reads : ∀ read pending, process.reads read = some pending → pending.commitIndex ≤ bound

def Host.Below (bound : ℕ) : Host → Prop
  | .up process => process.Below bound
  | .down _ => True

/-- What leaders have committed, and what they tell others. -/
def Observation.Below (bound : ℕ) : Observation → Prop
  | .committed _ index _ => index ≤ bound
  | .sent (.appendEntries _ args) | .sent (.probe _ _ args) => args.leaderCommit ≤ bound
  | _ => True

/-- The entries may be any, the snapshots end at an index up to the bound. -/
def Origin.below (bound : ℕ) : Origin where
  entry _ := True
  snapshot snapshot := snapshot.lastIncludedIndex ≤ bound

namespace RaftNode

variable {node : RaftNode} {peerID : NodeID} {args : AppendEntriesArgs}

theorem buildAppendEntries_commit (built : node.buildAppendEntries peerID = some args) :
    args.leaderCommit = node.commitIndex := by
  unfold buildAppendEntries at built
  split at built
  · cases built
  · split at built
    · cases built
    · split at built
      · cases built
      · split at built
        · cases built
        · cases built
          rfl

theorem probeReadIndex_commit {read : PendingRead} (built : node.probeReadIndex read peerID = some args) :
    args.leaderCommit = read.commitIndex := by
  unfold probeReadIndex at built
  split at built
  · cases built
  · split at built
    · cases built
    · split at built
      · cases built
      · cases built
        rfl

theorem nextCommitted_behind {entry : LogEntry} (next : node.nextCommitted = some entry) :
    node.lastApplied < node.commitIndex := by
  by_contra reached
  simp [nextCommitted, reached] at next

end RaftNode

namespace Process

variable {bound : ℕ} {process next : Process} {event : Event} {observations : List Observation}

theorem Below.step (below : process.Below bound)
    (installs : ∀ install ∈ process.installs, install.args.lastIncludedIndex ≤ bound)
    (told : ∀ args purpose termFault logFault, event = .receiveAppendEntries args purpose termFault logFault →
      args.leaderCommit ≤ bound)
    (seen : ∀ term index log, .committed term index log ∈ observations → index ≤ bound)
    (stepped : process.step event = some (.running next observations)) : next.Below bound where
  commit := by
    rcases step_commit stepped with same | ⟨term, log, committed⟩ |
      ⟨args, purpose, termFault, logFault, received, low⟩ | ⟨install, fault, rfl, low⟩
    · exact same.trans below.commit
    · exact seen term _ log committed
    · exact low.trans (told args purpose termFault logFault received)
    · exact low.trans (installs install (step_finishes stepped))
  applied := by
    cases step_appliesBy stepped with
    | quiet silent applied membership applying => exact applied.le.trans below.applied
    | pick idle picked =>
        rcases RaftNode.pickCommitted_cases picked with
          ⟨entry, _, _, same, _⟩ | ⟨_, same | ⟨entry, committed, _, counted⟩⟩
        · exact same ▸ below.applied
        · exact same.le.trans below.applied
        · have behind := RaftNode.nextCommitted_behind committed
          have commit := below.commit
          omega
    | send picked same => exact same ▸ below.applied
    | @mark index sent same =>
        rw [same]
        change (process.node.markApplied index).lastApplied ≤ bound
        rw [RaftNode.markApplied_lastApplied]
        exact max_le below.applied (below.applying index (by rw [sent]; rfl))
    | @install install fault reply finished applying =>
        have raised := process.node.finishInstall_raises install fault
        rw [finished] at raised
        rw [raised.2]
        split
        · exact max_le below.applied (installs install (step_finishes stepped))
        · exact below.applied
  applying index working := by
    cases step_appliesBy stepped with
    | quiet silent applied membership applying => exact below.applying index (applying ▸ working)
    | pick idle picked =>
        rcases RaftNode.pickCommitted_cases picked with ⟨entry, committed, _, _, stage⟩ | ⟨stage, _⟩
        · rw [stage, ApplyStage.index, Option.mem_some_iff] at working
          have behind := RaftNode.nextCommitted_behind committed
          have commit := below.commit
          omega
        · rw [stage] at working
          cases working
    | send picked same =>
        rw [same] at working
        exact below.applying index (by rw [picked]; exact working)
    | mark sent same =>
        rw [same] at working
        cases working
    | install finished applying => exact below.applying index (applying ▸ working)
  reads read pending waits := by
    rcases step_waiting stepped waits with before | ⟨_, _, begins⟩ |
      ⟨earlier, peerID, result, fault, _, waited, handled⟩
    · exact below.reads read pending before
    · rcases process.node.beginReadIndex_cases with ⟨error, failed⟩ | ⟨_, _, ⟨done, _⟩ | started⟩
      · cases failed.symm.trans begins
      · cases done.symm.trans begins
      · cases started.symm.trans begins
        exact below.commit
    · rw [(RaftNode.handleReadResult_waiting handled).2.2.1]
      exact below.reads read earlier waited

/-- What is sent says no more than the sender knows. -/
theorem Below.seen (below : process.Below bound)
    (committed : ∀ term index log, .committed term index log ∈ observations → index ≤ bound)
    (stepped : process.step event = some (.running next observations)) :
    ∀ observation ∈ observations, observation.Below bound := by
  intro observation member
  have shown := step_shows stepped observation member
  cases observation with
  | committed term index log => exact committed term index log member
  | sent message =>
      cases message with
      | appendEntries target args =>
          change args.leaderCommit ≤ bound
          rw [RaftNode.buildAppendEntries_commit shown.2.1]
          exact below.commit
      | probe read target args =>
          obtain ⟨_, ⟨pending, waits, built⟩, _⟩ := shown
          change args.leaderCommit ≤ bound
          rw [RaftNode.probeReadIndex_commit built]
          exact below.reads read pending waits
      | _ => trivial
  | _ => trivial

theorem Below.offers (below : process.Below bound) (event : Event) :
    process.Offers (Origin.below bound) event := by
  cases event with
  | propose data fault => exact fun _ _ => trivial
  | replicateTo peerID => exact fun _ => trivial
  | createSnapshot index data saveFault compactFault =>
      intro entry accepted
      cases valid : process.node.validateSnapshotRequestLocked index with
      | error error =>
          rw [valid] at accepted
          cases accepted
      | ok held => exact (RaftNode.validateSnapshotRequestLocked_ok valid).1.trans below.applied
  | _ => trivial

end Process

namespace World

structure Below (bound : ℕ) (world : World) : Prop where
  known : world.From (Origin.below bound)
  host : ∀ v, (world.host v).Below bound
  trace : ∀ entry ∈ world.trace, entry.2.Below bound

/-- What leaders have committed up to now is not beyond an index. -/
def CommitsUpTo (bound : ℕ) (world : World) : Prop :=
  ∀ v term index log, (v, .committed term index log) ∈ world.trace → index ≤ bound

/-- An index that some leader has committed. -/
def Announced (world : World) (index : ℕ) : Prop :=
  index = 0 ∨ ∃ v term commitIndex log, (v, .committed term commitIndex log) ∈ world.trace ∧ index ≤ commitIndex

variable {bound : ℕ} {world after : World} {v : NodeID} {host : Host} {observations : List Observation}

theorem CommitsUpTo.of_update (low : (world.update v host observations).CommitsUpTo bound) :
    world.CommitsUpTo bound ∧ ∀ term index log, .committed term index log ∈ observations → index ≤ bound :=
  ⟨fun w term index log member => low w term index log (mem_update_trace.mpr (Or.inl member)),
    fun term index log member => low v term index log (mem_update_trace.mpr (Or.inr ⟨rfl, member⟩))⟩

theorem Below.update (below : world.Below bound) (known : (world.update v host observations).From (.below bound))
    (placed : host.Below bound) (seen : ∀ observation ∈ observations, observation.Below bound) :
    (world.update v host observations).Below bound where
  known := known
  host := forall_host_update (fun _ host => host.Below bound) below.host placed
  trace := forall_trace_update below.trace seen

theorem Below.told (below : world.Below bound) {args : AppendEntriesArgs} {purpose : AppendPurpose}
    {termFault logFault : Fault}
    (arrives : world.Arrives v (.receiveAppendEntries args purpose termFault logFault)) :
    args.leaderCommit ≤ bound := by
  cases purpose with
  | replication =>
      obtain ⟨entry, member, same⟩ := arrives
      have sent := below.trace entry member
      rw [same] at sent
      exact sent
  | probe read =>
      obtain ⟨entry, member, same⟩ := arrives
      have sent := below.trace entry member
      rw [same] at sent
      exact sent

theorem Below.offers (below : world.Below bound) (action : Action) : world.Offers (.below bound) action := by
  cases action with
  | act v event =>
      have running := below.host v
      change (world.host v).Offers _ event
      cases up : world.host v with
      | down wal => trivial
      | up process =>
          rw [up] at running
          exact running.offers event
  | crash v => trivial
  | restart v keep => trivial

end World

namespace Cluster

variable {bound : ℕ} {cluster : Cluster} {world after : World} {action : Action} {v : NodeID}

theorem boot_below {wal : WALStorage} {process : Process} (known : wal.From (.below bound))
    (booted : cluster.boot v wal = .ok process) : process.Below bound := by
  obtain ⟨log, _, rfl⟩ := boot_ok booted
  have low : wal.contents.loadSnapshot.lastIncludedIndex ≤ bound := by
    unfold Contents.loadSnapshot
    cases saved : wal.contents.snapshot with
    | none => exact Nat.zero_le bound
    | some snapshot => exact known.contents.snapshot snapshot saved
  exact ⟨low, low, fun _ none => (by cases none), fun _ _ none => (by cases none)⟩

theorem initial_below (cluster : Cluster) (bound : ℕ) : cluster.initial.Below bound where
  known := cluster.initial_from
  host v := by
    have empty : (cluster.bootstrapped v).From (.below bound) := List.forall_mem_singleton.mpr trivial
    exact boot_below empty (show cluster.boot v (cluster.bootstrapped v) = .ok _ from rfl)
  trace _ none := by cases none

theorem step_below (below : world.Below bound) (low : after.CommitsUpTo bound)
    (stepped : cluster.step world action = some after) : after.Below bound := by
  have known := step_from below.known (below.offers action) stepped
  cases action with
  | act v event =>
      obtain ⟨process, up, arrives, ran⟩ := step_act stepped
      have running := below.host v
      have held := below.known.host v
      rw [up] at running held
      rcases ran with ⟨next, observations, ran, rfl⟩ | ⟨wal, crashed, rfl⟩
      · have seen := low.of_update.2
        refine below.update known ?_ (running.seen seen ran)
        refine running.step held.installs (fun args purpose termFault logFault received => ?_) seen ran
        exact below.told (received ▸ arrives)
      · exact below.update known trivial fun _ none => (by cases none)
  | crash v =>
      obtain ⟨process, up, rfl⟩ := step_crash stepped
      exact below.update known trivial fun _ none => (by cases none)
  | restart v keep =>
      obtain ⟨wal, reopened, process, down, opened, booted, rfl⟩ := step_restart stepped
      have stored := below.known.host v
      rw [down] at stored
      exact below.update known (boot_below (WALStorage.From.reopen stored opened) booted)
        fun _ none => (by cases none)

theorem step_commitsUpTo (stepped : cluster.step world action = some after) (low : after.CommitsUpTo bound) :
    world.CommitsUpTo bound :=
  fun v term index log member => low v term index log (step_trace stepped member)

theorem reaches_below {allowed : World → Action → Prop}
    (reached : Reaches cluster.step allowed cluster.initial world) (bound : ℕ) :
    world.CommitsUpTo bound → world.Below bound :=
  reached.invariant (fun world => world.CommitsUpTo bound → world.Below bound)
    (fun _ => cluster.initial_below bound)
    fun _ _ _ below _ stepped low => step_below (below (step_commitsUpTo stepped low)) low stepped

/-- An index that no leader has committed is ahead of everything. -/
theorem announced_of_below {allowed : World → Action → Prop}
    (reached : Reaches cluster.step allowed cluster.initial world) {index : ℕ}
    (low : ∀ bound, world.Below bound → index ≤ bound) : world.Announced index := by
  by_contra unannounced
  have positive : index ≠ 0 := fun zero => unannounced (Or.inl zero)
  have commits : world.CommitsUpTo (index - 1) := by
    intro v term commitIndex log committed
    by_contra beyond
    exact unannounced (Or.inr ⟨v, term, commitIndex, log, committed, by omega⟩)
  have bound := low (index - 1) (reaches_below reached (index - 1) commits)
  omega

/-- Whatever happens, no node's commit index is ahead of every leader's, also not after snapshots and
restarts, and no node applies what no leader has committed. -/
theorem commit_index_was_announced (cluster : Cluster) {world : World}
    (reached : Reaches cluster.step (fun _ _ => True) cluster.initial world) {v : NodeID} {process : Process}
    (up : world.host v = .up process) :
    world.Announced process.node.commitIndex ∧ world.Announced process.node.lastApplied ∧
      ∀ index ∈ process.applying.index, world.Announced index := by
  have running : ∀ bound, world.Below bound → process.Below bound := by
    intro bound below
    have hosted := below.host v
    rw [up] at hosted
    exact hosted
  exact ⟨announced_of_below reached fun bound below => (running bound below).commit,
    announced_of_below reached fun bound below => (running bound below).applied,
    fun index working => announced_of_below reached fun bound below => (running bound below).applying index working⟩

/-- `B` learns from `A` that entry 1 is committed. -/
theorem follower_commit_was_announced : ∃ (world : World) (process : Process), world.host "B" = .up process ∧
    process.node.commitIndex = 1 ∧ world.Announced process.node.commitIndex := by
  have run : ∃ world, Reaches trio.step (fun _ _ => True) trio.initial world ∧
      (world.host "B").process.map (·.node.commitIndex) = some 1 :=
    Reaches.of_leadsTo (fun _ _ => true) (fun _ _ _ => trivial)
      (commitOne ++ ([.act "A" (.replicateTo "B"),
        .act "B" (.receiveAppendEntries ⟨1, "A", 1, 1, [], 1⟩ .replication .none .none)] : List Action))
      (by decide +kernel)
  obtain ⟨world, reached, learned⟩ := run
  obtain ⟨process, running, committed⟩ := Option.map_eq_some_iff.mp learned
  have up := Host.process_eq_some.mp running
  exact ⟨world, process, up, committed, (commit_index_was_announced trio reached up).1⟩

end Cluster

end Raftiq
