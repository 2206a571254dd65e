import Raftiq.Raft.Applied
import Raftiq.Raft.ConfigEncoding
import Raftiq.Reopening

namespace Raftiq

/-- A configuration entry that gives the nodes that apply it a membership. -/
def LogEntry.configures (entry : LogEntry) : Bool :=
  isConfigurationEntry entry.data && (nextMembership entry).isOk

/-- One node through crashes and restarts. -/
structure Lifetime where
  host : Host
  /-- The indexes of the configuration entries whose membership has been written, newest first. -/
  sources : List ℕ

inductive LifeAction where
  | operate (operation : Operation)
  | crash
  | restart (keep : ℕ) (peerIDs : List NodeID) (canRestore : Bool)
deriving DecidableEq

/-- The index of the configuration entry whose membership an operation writes.  Unless the write
itself is refused, the membership may be found by the next process. -/
def Process.writesFrom (process : Process) : Operation → List ℕ
  | .act (.pickCommitted stateFault _) =>
      if stateFault ≠ .writeFails ∧ process.node.nextConfiguration.isSome then [process.node.lastApplied + 1]
      else []
  | _ => []

namespace Lifetime

def step (id : NodeID) (life : Lifetime) : LifeAction → Option Lifetime
  | .operate operation =>
      match life.host with
      | .down _ => none
      | .up process =>
          let sources := process.writesFrom operation ++ life.sources
          match process.operate operation with
          | some next => some { host := .up next, sources := sources }
          | none => (process.lost operation).map fun wal => { host := .down wal, sources := sources }
  | .crash =>
      match life.host with
      | .down _ => none
      | .up process => some { life with host := .down process.node.storage }
  | .restart keep peerIDs canRestore =>
      match life.host with
      | .up _ => none
      | .down wal =>
          match wal.reopen keep with
          | .error _ => none
          | .ok reopened =>
              match RaftNode.newRaftNodeWithStorage id reopened with
              | .error _ => none
              | .ok node => some { life with host := .up (.start (node.configure peerIDs canRestore)) }

/-- What the next process finds. -/
def reopened (life : Lifetime) (keep : ℕ) : Option WALStorage :=
  match life.host with
  | .up _ => none
  | .down wal => (wal.reopen keep).toOption

/-- The configuration entries that the node applies are among the committed ones. -/
def AppliesCommitted (committed : List LogEntry) (life : Lifetime) : LifeAction → Prop
  | .operate (.act (.pickCommitted _ _)) =>
      ∀ process ∈ life.host.process, ∀ next ∈ process.node.nextConfiguration, next.1 ∈ committed
  | _ => True

/-- No membership comes from beyond a configuration entry that the node applies again after a
restart, that is, one above its stored snapshot. -/
def ReplaysForward (committed : List LogEntry) (life : Lifetime) : LifeAction → Prop
  | .restart keep _ _ =>
      ∀ wal ∈ life.reopened keep, ∀ entry ∈ committed,
        wal.contents.loadSnapshot.lastIncludedIndex < entry.index → entry.configures →
          ∀ source ∈ life.sources, source ≤ entry.index
  | _ => True

/-- Memberships come from later and later entries, also those that are still to come. -/
structure Ordered (committed : List LogEntry) (life : Lifetime) : Prop where
  sorted : life.sources.Pairwise (· ≥ ·)
  ahead : ∀ process ∈ life.host.process, ∀ entry ∈ committed, process.node.lastApplied < entry.index →
    entry.configures → ∀ source ∈ life.sources, source ≤ entry.index

variable {id : NodeID} {committed : List LogEntry} {life after : Lifetime} {process next : Process}
  {operation : Operation}

theorem nextConfiguration_configures {node : RaftNode} {entry : LogEntry} {membership : Membership}
    (found : node.nextConfiguration = some (entry, membership)) :
    entry.configures ∧ entry.index = node.lastApplied + 1 := by
  obtain ⟨_, picked, configuration, decoded⟩ := RaftNode.nextConfiguration_some found
  rw [LogEntry.configures, configuration, decoded]
  exact ⟨rfl, (Log.mem_of_get picked).1⟩

theorem mem_writesFrom {source : ℕ} (written : source ∈ process.writesFrom operation) :
    (∃ stateFault leaveFault, operation = .act (.pickCommitted stateFault leaveFault)) ∧
      source = process.node.lastApplied + 1 ∧ ∃ next, process.node.nextConfiguration = some next := by
  unfold Process.writesFrom at written
  split at written
  · split at written
    · rename_i writes
      exact ⟨⟨_, _, rfl⟩, List.mem_singleton.mp written, Option.isSome_iff_exists.mp writes.2⟩
    · cases written
  · cases written

/-- The next configuration entry is not behind any membership that was written before. -/
theorem Ordered.write (ordered : life.Ordered committed) (up : life.host = .up process)
    (applies : life.AppliesCommitted committed (.operate operation)) {source : ℕ}
    (written : source ∈ process.writesFrom operation) : ∀ earlier ∈ life.sources, earlier ≤ source := by
  obtain ⟨⟨stateFault, leaveFault, rfl⟩, rfl, ⟨entry, membership⟩, found⟩ := mem_writesFrom written
  have running := Host.process_eq_some.mpr up
  have member : entry ∈ committed := applies process running (entry, membership) found
  obtain ⟨configures, index⟩ := nextConfiguration_configures found
  rw [← index]
  exact ordered.ahead process running entry member (by omega) configures

theorem writesFrom_sorted (process : Process) (operation : Operation) :
    (process.writesFrom operation).Pairwise (· ≥ ·) := by
  unfold Process.writesFrom
  split
  · split
    · exact List.pairwise_singleton _ _
    · exact .nil
  · exact .nil

theorem Ordered.sources (ordered : life.Ordered committed) (up : life.host = .up process)
    (applies : life.AppliesCommitted committed (.operate operation)) :
    (process.writesFrom operation ++ life.sources).Pairwise (· ≥ ·) :=
  List.pairwise_append.mpr ⟨writesFrom_sorted process operation, ordered.sorted,
    fun _ written earlier member => ordered.write up applies written earlier member⟩

/-- Nothing that was applied becomes unapplied while the process runs. -/
theorem operate_applied (operated : process.operate operation = some next) :
    process.node.lastApplied ≤ next.node.lastApplied := by
  cases operation with
  | bootstrapMembership fault =>
      exact Nat.le_of_eq (Process.advanceTo_ensures (process.node.bootstrapMembership_applies fault) operated).symm
  | becomeFollower term fault =>
      have frame := Process.advanceTo_ensures (process.node.enterTerm_applies fault term) operated
      exact frame.applied.ge
  | act event =>
      obtain ⟨_, stepped⟩ := Process.advance_running operated
      exact Process.step_ensures stepped (process.effect_applied event)

theorem Ordered.operate (ordered : life.Ordered committed) (up : life.host = .up process)
    (applies : life.AppliesCommitted committed (.operate operation))
    (operated : process.operate operation = some next) :
    Ordered committed { host := .up next, sources := process.writesFrom operation ++ life.sources } where
  sorted := ordered.sources up applies
  ahead := by
    rintro running ⟨⟩ entry isCommitted above configures source member
    have reached := operate_applied operated
    rcases List.mem_append.mp member with written | earlier
    · obtain ⟨_, rfl, _⟩ := mem_writesFrom written
      omega
    · exact ordered.ahead process (Host.process_eq_some.mpr up) entry isCommitted (by omega) configures
        source earlier

theorem restart_applied {store : WALStorage} {node : RaftNode}
    (started : RaftNode.newRaftNodeWithStorage id store = .ok node) :
    node.lastApplied = store.contents.loadSnapshot.lastIncludedIndex := by
  unfold RaftNode.newRaftNodeWithStorage at started
  split at started
  · cases started
  · cases started
    rfl

theorem Ordered.step {action : LifeAction} (ordered : life.Ordered committed)
    (applies : life.AppliesCommitted committed action) (forward : life.ReplaysForward committed action)
    (stepped : life.step id action = some after) : after.Ordered committed := by
  cases action with
  | operate operation =>
      simp only [Lifetime.step] at stepped
      split at stepped
      · cases stepped
      · rename_i process up
        split at stepped
        · rename_i next operated
          cases stepped
          exact ordered.operate up applies operated
        · obtain ⟨wal, _, rfl⟩ := Option.map_eq_some_iff.mp stepped
          exact ⟨ordered.sources up applies, fun _ gone => nomatch gone⟩
  | crash =>
      simp only [Lifetime.step] at stepped
      split at stepped
      · cases stepped
      · cases stepped
        exact ⟨ordered.sorted, fun _ gone => nomatch gone⟩
  | restart keep peerIDs canRestore =>
      simp only [Lifetime.step] at stepped
      split at stepped
      · cases stepped
      · rename_i wal down
        split at stepped
        · cases stepped
        · rename_i reopened opened
          split at stepped
          · cases stepped
          · rename_i node started
            cases stepped
            refine ⟨ordered.sorted, ?_⟩
            rintro running ⟨⟩ entry isCommitted above
            have found : life.reopened keep = some reopened := by
              rw [Lifetime.reopened, down]
              simp only [opened]
              rfl
            exact forward reopened found entry isCommitted ((restart_applied started).symm.trans_lt above)

/-- In runs whose restarts replay only configuration entries that are not behind a membership
written before, the memberships of a node come from later and later entries. -/
theorem configuration_never_goes_back {wal : WALStorage}
    (reached : Reaches (step id)
      (fun life action => life.AppliesCommitted committed action ∧ life.ReplaysForward committed action)
      { host := .down wal, sources := [] } life) :
    life.sources.Pairwise (· ≥ ·) := by
  have ordered : life.Ordered committed := by
    refine reached.invariant (Ordered committed) ⟨.nil, by rintro _ ⟨⟩⟩ ?_
    rintro before action after ordered ⟨applies, forward⟩ stepped
    exact ordered.step applies forward stepped
  exact ordered.sorted

instance (committed : List LogEntry) (life : Lifetime) : DecidablePred (life.AppliesCommitted committed)
  | .operate (.act (.pickCommitted _ _)) =>
      inferInstanceAs (Decidable (∀ process ∈ life.host.process, ∀ next ∈ process.node.nextConfiguration,
        next.1 ∈ committed))
  | .operate (.bootstrapMembership _) | .operate (.becomeFollower _ _) | .crash | .restart _ _ _
  | .operate (.act (.startElection _)) | .operate (.act .requestVotes)
  | .operate (.act (.receiveRequestVote _ _ _)) | .operate (.act (.receiveVoteReply _ _ _))
  | .operate (.act .tryBecomeLeader) | .operate (.act (.propose _ _)) | .operate (.act (.replicateTo _))
  | .operate (.act (.receiveAppendEntries _ _ _ _)) | .operate (.act (.receiveAppendReply _ _ _ _))
  | .operate (.act .sendApplied) | .operate (.act .markApplied) | .operate (.act (.createSnapshot _ _ _ _))
  | .operate (.act (.sendInstallSnapshot _)) | .operate (.act (.receiveInstallSnapshot _ _ _))
  | .operate (.act (.restoreSnapshot _ _)) | .operate (.act (.finishInstall _ _))
  | .operate (.act (.receiveInstallReply _ _ _ _)) | .operate (.act (.beginRead _))
  | .operate (.act (.probeRead _ _)) | .operate (.act (.receiveProbeResult _ _ _ _))
  | .operate (.act (.cancelRead _)) => .isTrue trivial

instance (committed : List LogEntry) (life : Lifetime) : DecidablePred (life.ReplaysForward committed)
  | .restart keep _ _ =>
      inferInstanceAs (Decidable (∀ wal ∈ life.reopened keep, ∀ entry ∈ committed,
        wal.contents.loadSnapshot.lastIncludedIndex < entry.index → entry.configures →
          ∀ source ∈ life.sources, source ≤ entry.index))
  | .operate _ | .crash => .isTrue trivial

/-- `C` is removed in two steps and comes back. -/
def removedAndBack : List LogEntry :=
  let two : Configuration := { voters := ["A", "B"] }
  let three : Configuration := { voters := ["A", "B", "C"] }
  let datas := [encodeEnterJointConfigurationEntry three two, encodeLeaveJointConfigurationEntry two,
    encodeEnterJointConfigurationEntry two three]
  (datas.filterMap Except.toOption).zipIdx.map fun (data, index) => ⟨index + 1, 1, data⟩

/-- `B` takes the two entries that remove `C` from the leader and applies them. -/
def applyRemoval : List LifeAction :=
  [.restart 0 ["A", "C"] true,
    .operate (.act (.receiveAppendEntries ⟨1, "A", 0, 0, removedAndBack.take 2, 2⟩ .replication .none .none)),
    .operate (.act (.pickCommitted .none .none)), .operate (.act (.pickCommitted .none .none))]

/-- `B` restarts and learns from the leader what is committed. -/
def restartAndLearn : List LifeAction :=
  [.crash, .restart 0 ["A", "C"] true,
    .operate (.act (.receiveAppendEntries ⟨1, "A", 2, 1, removedAndBack.drop 2, 3⟩ .replication .none .none)),
    .operate (.act (.pickCommitted .none .none))]

/-- A snapshot covers the applied entries before the restart. -/
theorem configuration_order_after_snapshot : ∃ life : Lifetime,
    life.sources = [3, 2, 1] ∧ life.sources.Pairwise (· ≥ ·) := by
  have run : ∃ life, Reaches (step "B")
      (fun life action => life.AppliesCommitted removedAndBack action ∧
        life.ReplaysForward removedAndBack action)
      { host := .down (Cluster.trio.bootstrapped "B"), sources := [] } life ∧ life.sources = [3, 2, 1] :=
    Reaches.of_leadsTo
      (fun life action => decide (life.AppliesCommitted removedAndBack action ∧
        life.ReplaysForward removedAndBack action))
      (fun _ _ => of_decide_eq_true)
      (applyRemoval ++ [.operate (.act (.createSnapshot 2 [7] .none .none))] ++ restartAndLearn)
      (by decide +kernel)
  obtain ⟨life, reached, sources⟩ := run
  exact ⟨life, sources, configuration_never_goes_back reached⟩

/-- Without the snapshot the first entry is applied again: the membership falls back from
the one without `C` to the joint one, which is also saved. -/
theorem restart_applies_old_configuration : ∃ (life : Lifetime) (process : Process),
    Reaches (step "B") (fun life action => life.AppliesCommitted removedAndBack action)
      { host := .down (Cluster.trio.bootstrapped "B"), sources := [] } life ∧
      life.sources = [1, 2, 1] ∧ ¬ life.sources.Pairwise (· ≥ ·) ∧ life.host = .up process ∧
      process.node.persistent.membership.joint =
        some ⟨{ voters := ["A", "B", "C"] }, { voters := ["A", "B"] }⟩ := by
  have run : ∃ life, Reaches (step "B") (fun life action => life.AppliesCommitted removedAndBack action)
      { host := .down (Cluster.trio.bootstrapped "B"), sources := [] } life ∧
        (life.sources = [1, 2, 1] ∧ life.host.process.any fun process =>
          process.node.persistent.membership.joint =
            some ⟨{ voters := ["A", "B", "C"] }, { voters := ["A", "B"] }⟩) :=
    Reaches.of_leadsTo (fun life action => decide (life.AppliesCommitted removedAndBack action))
      (fun _ _ => of_decide_eq_true) (applyRemoval ++ restartAndLearn) (by decide +kernel)
  obtain ⟨life, reached, sources, found⟩ := run
  obtain ⟨process, up, holds⟩ := (Option.any_eq_true _ _).mp found
  exact ⟨life, process, reached, sources, by rw [sources]; decide, Host.process_eq_some.mp up,
    of_decide_eq_true holds⟩

end Lifetime

end Raftiq
